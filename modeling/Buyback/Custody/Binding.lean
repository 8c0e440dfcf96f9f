import Buyback.Custody.Rotation
import Buyback.Source.Derivation
import Buyback.Source.Engine
import Buyback.System.Script

/-!
# Sealed secrets and their records

The associated data of a wallet secret tells the record, since an address has no slash,
and differs from that of the treasury keystore.  With an ideal cipher a sealed secret
then opens on its own record only.  There it gives back the wallet that was sealed,
since a phrase is never as short as a mini secret.
-/

namespace Buyback

/-! ## The associated data -/

/-- The bytes that bind a wallet secret to its record. -/
def rowAad (id address : String) : List UInt8 := utf8 (walletAad id address)

theorem toList_walletAad (id address : String) :
    (walletAad id address).toList =
      "bittensor-buyback/v1/".toList ++ (id.toList ++ '/' :: address.toList) := by
  have hslash : "/".toList = ['/'] := by decide
  unfold walletAad
  -- as a variable, so that the literal is not unfolded
  generalize "bittensor-buyback/v1/" = version
  rw [String.toList_append, String.toList_append, String.toList_append, hslash,
    List.append_assoc, List.append_assoc, List.singleton_append]

/-- A record is told by its associated data: the address begins behind the last slash. -/
theorem rowAad_inj {id id' address address' : String} (h : '/' ∉ address.toList)
    (h' : '/' ∉ address'.toList) (heq : rowAad id address = rowAad id' address') :
    id = id' ∧ address = address' := by
  have hlist := congrArg String.toList (utf8_inj heq)
  rw [toList_walletAad, toList_walletAad, List.append_cancel_left_eq] at hlist
  obtain ⟨hid, haddress⟩ := Split.append_cons_inj h h' hlist
  exact ⟨String.toList_injective hid, String.toList_injective haddress⟩

/-- No record has the associated data of the treasury. -/
theorem rowAad_ne_treasuryAad (id address : String) : rowAad id address ≠ treasuryAad := by
  intro heq
  have hlist := congrArg String.toList (utf8_inj heq)
  have htreasury : "bittensor-buyback/v1/treasury".toList =
      "bittensor-buyback/v1/".toList ++ "treasury".toList := by decide
  rw [toList_walletAad, htreasury, List.append_cancel_left_eq] at hlist
  have hslash : '/' ∈ "treasury".toList := by
    rw [← hlist]
    exact List.mem_append_right _ (.head _)
  exact absurd hslash (by decide)

section

variable [Aead]

/-! ## What a sealed secret opens with -/

/-- An ideal cipher: what opens, was sealed under the same key and associated data. -/
def Aead.Ideal : Prop :=
  ∀ key nonce aad msg ct key' nonce' aad' msg', Aead.encrypt key nonce aad msg = some ct →
    Aead.decrypt key' nonce' aad' ct = some msg' → key' = key ∧ aad' = aad

/-- A secret sealed with the associated data, by a master key or by a keyring, under any
key id. -/
inductive SealedFor (aad : List UInt8) : SealedSecret → Prop where
  | key {key : MasterKey} {nonce : Nonce} {plaintext : List UInt8} {s : SealedSecret} :
      key.seal nonce plaintext aad = .ok s → SealedFor aad s
  | ring {ring : Keyring} {nonce : Nonce} {plaintext : List UInt8} {s : SealedSecret} :
      ring.seal nonce plaintext aad = .ok s → SealedFor aad s
  | relabel {s : SealedSecret} (kid : Option String) :
      SealedFor aad s → SealedFor aad { s with kid := kid }

variable {aad aad' plaintext : List UInt8} {s : SealedSecret} {key : MasterKey} {ring : Keyring}

/-- The ciphertext of a sealed secret is made with its associated data. -/
theorem SealedFor.encrypted (h : SealedFor aad s) : ∃ key nonce msg ct,
    Hex.decode s.ct.toList = some ct ∧ Aead.encrypt key nonce aad msg = some ct := by
  induction h with
  | key h =>
      obtain ⟨ct, hct, rfl⟩ := MasterKey.seal_ok.mp h
      exact ⟨_, _, _, ct, by simp only [String.toList_ofList, Hex.decode_encode], hct⟩
  | ring h =>
      obtain ⟨s, hs, ⟨⟩⟩ := Result.bind_ok h
      obtain ⟨ct, hct, rfl⟩ := MasterKey.seal_ok.mp hs
      exact ⟨_, _, _, ct, by simp only [String.toList_ofList, Hex.decode_encode], hct⟩
  | relabel _ _ ih => exact ih

/-- A sealed secret opens with its own associated data only. -/
theorem SealedFor.open_key (hideal : Aead.Ideal) (h : SealedFor aad s)
    (hopen : key.open s aad' = .ok plaintext) : aad' = aad := by
  obtain ⟨_, _, _, ct, hct, hsealed⟩ := h.encrypted
  obtain ⟨-, nonce, ct', -, -, hct', hopened⟩ := MasterKey.open_ok.mp hopen
  cases hct.symm.trans hct'
  exact (hideal _ _ _ _ _ _ _ _ _ hsealed ((Aead.decrypt_iff ..).mpr hopened)).2

theorem SealedFor.open_ring [StdTexts] (hideal : Aead.Ideal) (h : SealedFor aad s)
    (hopen : ring.open s aad' = .ok plaintext) : aad' = aad := by
  obtain ⟨key, -, hkey⟩ := Keyring.open_ok.mp hopen
  exact h.open_key hideal hkey

end

/-! ## What a wallet is rebuilt from -/

namespace PaymentWallet

variable [Signers] {w : PaymentWallet}

/-- A wallet as the crate makes them. -/
inductive Built (w : PaymentWallet) : Prop where
  | generate {entropy : Bytes32} : generate entropy = .ok w → Built w
  | fromPhrase {phrase : String} : fromPhrase phrase = .ok w → Built w
  | fromMiniSecret {mini : Bytes32} : fromMiniSecret mini = .ok w → Built w

/-- The bytes of a phrase are read as a phrase. -/
theorem fromSecretBytes_of_phrase {phrase : String} (h : fromPhrase phrase = .ok w) :
    fromSecretBytes w.secret = .ok w := by
  obtain ⟨mnemonic, hparse, hrest⟩ := Result.bind_ok h
  obtain ⟨keypair, -, ⟨⟩⟩ := Result.bind_ok hrest
  have hlong := Signers.parse_length phrase mnemonic (Result.mapError_ok hparse)
  have hno : Bytes32.ofBytes? (utf8 phrase) = none := dif_neg (by omega)
  simp only [fromSecretBytes, hno, fromUtf8_utf8, h]

/-- The bytes of a mini secret are read as a mini secret. -/
theorem fromSecretBytes_of_mini {mini : Bytes32} (h : fromMiniSecret mini = .ok w) :
    fromSecretBytes w.secret = .ok w := by
  obtain ⟨keypair, -, ⟨⟩⟩ := Result.bind_ok h
  have hsome : Bytes32.ofBytes? mini.bytes = some mini := dif_pos mini.length_eq
  simp only [fromSecretBytes, hsome, h]

/-- The secret of a wallet gives the wallet back. -/
theorem Built.fromSecretBytes (h : Built w) : fromSecretBytes w.secret = .ok w := by
  cases h with
  | generate h =>
      obtain ⟨mnemonic, -, hphrase⟩ := Result.bind_ok h
      exact fromSecretBytes_of_phrase hphrase
  | fromPhrase h => exact fromSecretBytes_of_phrase h
  | fromMiniSecret h => exact fromSecretBytes_of_mini h

end PaymentWallet

/-! ## Keystores and records -/

section

variable [Signers] [Aead]

/-- No key opens the secret for the treasury. -/
structure RefusedAsKeystore (s : SealedSecret) : Prop where
  opened : ∀ (key : MasterKey) uri, key.open s treasuryAad ≠ .ok uri
  /-- No keystore file with the secret is loaded. -/
  load : ∀ (sur : Surroundings) master path raw keypair, sur.readFile path = .ok raw →
    Signers.sealedFromJson raw = some s →
    (TreasuryKeySource.encryptedKeystore path).load sur (some master) ≠ .ok keypair

theorem SealedFor.refusedAsKeystore {aad : List UInt8} {s : SealedSecret} (hideal : Aead.Ideal)
    (h : SealedFor aad s) (hne : treasuryAad ≠ aad) : RefusedAsKeystore s := by
  have hopened (key : MasterKey) (uri : List UInt8) : key.open s treasuryAad ≠ .ok uri :=
    fun hopen => hne (h.open_key hideal hopen)
  refine ⟨hopened, fun sur master path raw keypair hraw hjson hload => ?_⟩
  obtain ⟨uri, huri, -⟩ := Result.bind_ok hload
  obtain ⟨raw', hraw', hkeystore⟩ := Result.bind_ok huri
  cases hraw.symm.trans (Result.mapError_ok hraw')
  rw [openKeystore, hjson] at hkeystore
  obtain ⟨bytes, hopen, -⟩ := Result.bind_ok hkeystore
  exact hopened master bytes hopen

end

section

variable [Ss58] [Signers] [Aead] [DeriveJunction] [Schnorrkel]

/-- An engine with its keyring and its seed. -/
def Engine.keyed (E : Engine) (ring : Keyring) (seed : Option DerivationSeed) : Engine :=
  { E with
    seed := seed.map fun seed path => (seed.wallet path).map PaymentWallet.keypair
    unsealWith := fun s aad =>
      (PaymentWallet.unsealWith ring s (utf8 aad)).map PaymentWallet.keypair }

/-- A record opens its sealed secret, unless its wallet is derived. -/
theorem Engine.keyed_wallet (E : Engine) (ring : Keyring) {seed : Option DerivationSeed}
    {r : PaymentRecord} (h : r.derivationPath = none ∨ seed = none) :
    (E.keyed ring seed).wallet r =
      (PaymentWallet.unsealWith ring r.sealedSecret (rowAad r.id r.address)).map
        PaymentWallet.keypair >>= fun keypair =>
        if ss58 keypair ≠ r.address then .error (.crypto "sealed wallet does not match address")
        else .ok keypair := by
  rcases h with h | rfl
  · simp only [Engine.wallet, h]
    rfl
  · cases hpath : r.derivationPath with
    | none =>
        simp only [Engine.wallet, hpath]
        rfl
    | some path =>
        simp only [Engine.wallet, hpath, Engine.keyed, Option.map_none]
        rfl

/-- No key and no keyring opens the secret for a record. -/
structure RefusedOnRow (s : SealedSecret) (id address : String) : Prop where
  key : ∀ key w, PaymentWallet.unseal key s (rowAad id address) ≠ .ok w
  ring : ∀ ring w, PaymentWallet.unsealWith ring s (rowAad id address) ≠ .ok w
  /-- No engine gets a wallet from the record, unless it derives it from a seed. -/
  engine : ∀ (E : Engine) ring seed (r : PaymentRecord) w, r.id = id → r.address = address →
    r.sealedSecret = s → r.derivationPath = none ∨ seed = none →
    (E.keyed ring seed).wallet r ≠ .ok w

/-- A wallet sealed for its own record comes back. -/
structure Reopens (w : PaymentWallet) (id : String) : Prop where
  key : ∀ key nonce s, w.seal key nonce (rowAad id (ss58 w.accountId)) = .ok s →
    PaymentWallet.unseal key s (rowAad id (ss58 w.accountId)) = .ok w
  ring : ∀ ring nonce s, w.sealWith ring nonce (rowAad id (ss58 w.accountId)) = .ok s →
    PaymentWallet.unsealWith ring s (rowAad id (ss58 w.accountId)) = .ok w
  /-- An engine gets the account of the wallet from the record. -/
  engine : ∀ (E : Engine) ring nonce seed (r : PaymentRecord),
    w.sealWith ring nonce (rowAad id (ss58 w.accountId)) = .ok r.sealedSecret → r.id = id →
    r.address = ss58 w.accountId → r.derivationPath = none ∨ seed = none →
    (E.keyed ring seed).wallet r = .ok w.accountId

variable {aad : List UInt8} {s : SealedSecret} {id address : String}

theorem SealedFor.refusedOnRow (hideal : Aead.Ideal) (h : SealedFor aad s)
    (hne : rowAad id address ≠ aad) : RefusedOnRow s id address := by
  have hring (ring : Keyring) (w : PaymentWallet) :
      PaymentWallet.unsealWith ring s (rowAad id address) ≠ .ok w := by
    intro hopen
    obtain ⟨_, hopen, -⟩ := Result.bind_ok hopen
    exact hne (h.open_ring hideal hopen)
  refine ⟨fun key w hopen => ?_, hring, fun E ring seed r w hid haddress hs hunseeded hwallet => ?_⟩
  · obtain ⟨_, hopen, -⟩ := Result.bind_ok hopen
    exact hne (h.open_key hideal hopen)
  · rw [E.keyed_wallet ring hunseeded, hid, haddress, hs] at hwallet
    obtain ⟨keypair, hopen, -⟩ := Result.bind_ok hwallet
    cases hunseal : PaymentWallet.unsealWith ring s (rowAad id address) with
    | ok w => exact hring ring w hunseal
    | error e =>
        rw [hunseal] at hopen
        cases hopen

theorem PaymentWallet.Built.reopens {w : PaymentWallet} (h : w.Built) (id : String) :
    Reopens w id := by
  have hring {ring : Keyring} {nonce : Nonce} {s : SealedSecret} {aad : List UInt8}
      (hs : w.sealWith ring nonce aad = .ok s) : PaymentWallet.unsealWith ring s aad = .ok w := by
    rw [PaymentWallet.unsealWith, Result.ok_bind (Keyring.seal_ok hs).2, h.fromSecretBytes]
  refine ⟨fun key nonce s hs => ?_, fun ring nonce s => hring,
    fun E ring nonce seed r hs hid haddress hunseeded => ?_⟩
  · have hopen : key.open s (rowAad id (ss58 w.accountId)) = .ok w.secret :=
      MasterKey.open_seal hs
    rw [PaymentWallet.unseal, Result.ok_bind hopen, h.fromSecretBytes]
  · rw [E.keyed_wallet ring hunseeded, hid, haddress, hring hs]
    exact if_neg (not_not.mpr rfl)

/-- With an ideal cipher, the secret of a record opens on that record only, and the
treasury keystore opens on none. -/
theorem secrets_bound (hideal : Aead.Ideal) {id₁ id₂ a₁ a₂ : String} (h₁ : '/' ∉ a₁.toList)
    (h₂ : '/' ∉ a₂.toList) :
    ((id₁, a₁) ≠ (id₂, a₂) → rowAad id₁ a₁ ≠ rowAad id₂ a₂) ∧
    rowAad id₁ a₁ ≠ treasuryAad ∧
    (∀ s, SealedFor (rowAad id₁ a₁) s →
      ((id₁, a₁) ≠ (id₂, a₂) → RefusedOnRow s id₂ a₂) ∧ RefusedAsKeystore s) ∧
    (∀ s, SealedFor treasuryAad s → RefusedOnRow s id₁ a₁) ∧
    ∀ w : PaymentWallet, w.Built → Reopens w id₁ := by
  have hrows : (id₁, a₁) ≠ (id₂, a₂) → rowAad id₁ a₁ ≠ rowAad id₂ a₂ := by
    intro hne heq
    obtain ⟨rfl, rfl⟩ := rowAad_inj h₁ h₂ heq
    exact hne rfl
  have htreasury := rowAad_ne_treasuryAad id₁ a₁
  refine ⟨hrows, htreasury, fun s hs => ⟨fun hne => ?_, ?_⟩, fun s hs => ?_, fun w hw => ?_⟩
  · exact hs.refusedOnRow hideal (hrows hne).symm
  · exact hs.refusedAsKeystore hideal htreasury.symm
  · exact hs.refusedOnRow hideal htreasury
  · exact hw.reopens id₁

end

/-! ## Secrets to evaluate -/

/-- Bytes that end where a reader sees it. -/
def frame (bytes : List UInt8) : List UInt8 := bytes.flatMap (fun b => [1, b]) ++ [0]

theorem frame_append_inj {a b x y : List UInt8} (h : frame a ++ x = frame b ++ y) :
    a = b ∧ x = y := by
  induction a generalizing b with
  | nil =>
      cases b with
      | nil =>
          cases h
          exact ⟨rfl, rfl⟩
      | cons c b => cases h
  | cons d a ih =>
      cases b with
      | nil => cases h
      | cons c b =>
          have hrest : d = c ∧ frame a ++ x = frame b ++ y := by simpa [frame] using h
          obtain ⟨rfl, hx⟩ := ih hrest.2
          exact ⟨by rw [hrest.1], hx⟩

/-- An ideal cipher: the key and the associated data stand before the text, framed. -/
@[reducible] def framedAead : Aead where
  encrypt key _ aad msg := some (frame key ++ frame aad ++ msg)
  decrypt key _ aad ct :=
    if (frame key ++ frame aad).isPrefixOf ct then
      some (ct.drop (frame key ++ frame aad).length) else none
  decrypt_iff _ _ _ _ _ := drop_header_iff
  encrypt_isSome _ _ _ _ _ _ := rfl

theorem framedAead_seals (key : MasterKey) (nonce : Nonce) (plaintext aad : List UInt8) :
    ∃ s, @MasterKey.seal framedAead key nonce plaintext aad = .ok s :=
  ⟨_, (@MasterKey.seal_ok framedAead ..).mpr ⟨_, rfl, rfl⟩⟩

theorem framedAead_ideal : @Aead.Ideal framedAead := by
  intro key nonce aad msg ct key' nonce' aad' msg' hsealed hopened
  have hsealed' := Option.some.inj ((framedAead.decrypt_iff ..).mp hopened)
  rw [← Option.some.inj hsealed, List.append_assoc, List.append_assoc] at hsealed'
  obtain ⟨hkey, hrest⟩ := frame_append_inj hsealed'
  exact ⟨hkey, (frame_append_inj hrest).1⟩

/-- Phrases and key pairs to evaluate wallets with. -/
@[reducible] def sampleSigners : Signers where
  Mnemonic := String
  SecretUri := String
  fromEntropy _ := .ok (String.ofList (List.replicate 47 'x'))
  phrase := id
  parse text := if 32 < (utf8 text).length then .ok text else .error "bad word count"
  fromPhrase m := .ok (BitVec.ofNat 256 m.length)
  fromSecretKey mini := some (BitVec.ofNat 256 (mini.bytes.map UInt8.toNat).sum)
  parseUri := some
  fromUri uri := some (BitVec.ofNat 256 uri.length)
  sealedFromJson _ := none
  parse_length text m h := by
    split at h
    next hlong => exact hlong
    next => cases h

/-- Every segment of one length has one chain code. -/
@[reducible] def sampleJunctions : DeriveJunction where
  junction text :=
    { inner := ⟨List.replicate 32 (UInt8.ofNat text.length), List.length_replicate⟩
      isHard := text.toList.head? == some '/' }
  isHard_junction segment := by
    rw [String.toList_append]
    rfl

/-- A chain code is the mini secret it derives. -/
@[reducible] def sampleSchnorrkel : Schnorrkel where
  MiniSecretKey := Bytes32
  SecretKey := Bytes32
  fromBytes := some
  toBytes := id
  expand := id
  hardDeriveMiniSecretKey _ cc := cc
  fromBytes_toBytes _ := rfl

/-- A secret of the record `a/b`, whose id holds a slash, is refused on the record `a`,
and so is the treasury keystore. -/
theorem sampleSecret_bound : ∃ s keystore,
    @MasterKey.seal framedAead (sampleKey 1) ⟨List.replicate 24 0, rfl⟩ [1, 2, 3]
      (rowAad "a/b" "c") = .ok s ∧
    @MasterKey.seal framedAead (sampleKey 1) ⟨List.replicate 24 0, rfl⟩ [1, 2, 3]
      treasuryAad = .ok keystore ∧
    @RefusedOnRow unarySs58 sampleSigners framedAead sampleJunctions sampleSchnorrkel s
      "a" "c" ∧
    @RefusedAsKeystore sampleSigners framedAead s ∧
    @RefusedOnRow unarySs58 sampleSigners framedAead sampleJunctions sampleSchnorrkel keystore
      "a/b" "c" := by
  obtain ⟨s, hs⟩ := framedAead_seals (sampleKey 1) ⟨List.replicate 24 0, rfl⟩ [1, 2, 3]
    (rowAad "a/b" "c")
  obtain ⟨keystore, hk⟩ := framedAead_seals (sampleKey 1) ⟨List.replicate 24 0, rfl⟩ [1, 2, 3]
    treasuryAad
  obtain ⟨-, -, hrow, hkeystore, -⟩ := @secrets_bound unarySs58 sampleSigners framedAead
    sampleJunctions sampleSchnorrkel framedAead_ideal "a/b" "a" "c" "c" (by decide) (by decide)
  obtain ⟨hother, htreasury⟩ := hrow s (@SealedFor.key framedAead _ _ _ _ _ hs)
  have hne : ("a/b", "c") ≠ ("a", "c") := fun h => absurd (Prod.mk.inj h).1 (by decide)
  exact ⟨s, keystore, hs, hk, hother hne, htreasury,
    hkeystore keystore (@SealedFor.key framedAead _ _ _ _ _ hk)⟩

end Buyback
