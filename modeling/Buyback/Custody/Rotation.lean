import Buyback.Custody.Spec

/-!
# Key rotation

What a keyring seals, opens under every keyring that has the same key under the same
id.  So a secret is carried from one keyring to the next, as long as each keeps the key
that the one before it sealed with.  A keyring parsed from a spec has one key under an
id: the last that the spec lists.
-/

namespace Buyback

/-! ## The entries of a spec -/

theorem foldl_insertKey {entries : List (String × MasterKey)} {keys : String → Option MasterKey}
    {id : String} {key : MasterKey} (hkey : keys id = some key)
    (h : ∀ e ∈ entries, e.1 = id → e.2 = key) :
    entries.foldl insertKey keys id = some key := by
  induction entries generalizing keys with
  | nil => exact hkey
  | cons e entries ih =>
      obtain ⟨he, hrest⟩ := List.forall_mem_cons.mp h
      refine ih ?_ hrest
      rw [insertKey, Function.update_apply]
      split
      next heq => rw [he heq.symm]
      next => exact hkey

/-- An entry is in the keyring unless a later one lists another key under its id. -/
theorem collectKeys_of_last {before after : List (String × MasterKey)} {e : String × MasterKey}
    (h : ∀ e' ∈ after, e'.1 = e.1 → e'.2 = e.2) :
    collectKeys (before ++ e :: after) e.1 = some e.2 := by
  rw [collectKeys, List.foldl_append, List.foldl_cons]
  exact foldl_insertKey (Function.update_self ..) h

theorem Keyring.new_ok [StdTexts] {active : String} {entries : List (String × MasterKey)}
    {ring : Keyring} (h : Keyring.new active entries = .ok ring) :
    ring.active = active ∧ ring.keys = collectKeys entries ∧
      ∀ e ∈ entries, validKeyId e.1 = true := by
  rw [Keyring.new] at h
  split at h
  next =>
    rw [Result.refuse_eq_ok] at h
    obtain ⟨hvalid, ⟨⟩⟩ := h
    exact ⟨rfl, rfl, by simpa using hvalid⟩
  next => cases h

section

variable [Aead] {key : MasterKey} {ring ring' : Keyring} {nonce nonce' : Nonce}
  {plaintext aad : List UInt8} {s s' : SealedSecret} {kid : Option String} {id : String}

/-! ## Master keys -/

theorem MasterKey.seal_ok : key.seal nonce plaintext aad = .ok s ↔
    ∃ ct, Aead.encrypt key.bytes nonce.bytes aad plaintext = some ct ∧
      ⟨1, String.ofList (Hex.encode nonce.bytes), String.ofList (Hex.encode ct), none⟩ = s := by
  rw [MasterKey.seal]
  cases Aead.encrypt key.bytes nonce.bytes aad plaintext with
  | none => exact ⟨nofun, nofun⟩
  | some ct => simp only [Except.ok.injEq, Option.some.injEq, exists_eq_left']

/-- A secret opens exactly if it is a sealing of the text under the key. -/
theorem MasterKey.open_ok : key.open s aad = .ok plaintext ↔
    s.v = 1 ∧ ∃ nonce ct, Hex.decode s.nonce.toList = some nonce ∧ nonce.length = 24 ∧
      Hex.decode s.ct.toList = some ct ∧ Aead.encrypt key.bytes nonce aad plaintext = some ct := by
  rw [MasterKey.open, Result.refuse_eq_ok, not_not]
  refine and_congr_right fun _ => ?_
  cases Hex.decode s.nonce.toList with
  | none => exact ⟨nofun, nofun⟩
  | some nonce =>
      simp only [Result.refuse_eq_ok, not_not, Option.some.injEq, exists_and_left, exists_eq_left']
      refine and_congr_right fun _ => ?_
      cases Hex.decode s.ct.toList with
      | none => exact ⟨nofun, nofun⟩
      | some ct =>
          simp only [Option.some.injEq, exists_eq_left', ← Aead.decrypt_iff]
          cases Aead.decrypt key.bytes nonce aad ct with
          | none => exact ⟨nofun, nofun⟩
          | some msg => simp only [Except.ok.injEq, Option.some.injEq]

/-- What a key seals, it opens, whatever id the secret carries. -/
theorem MasterKey.open_seal (h : key.seal nonce plaintext aad = .ok s) :
    key.open { s with kid := kid } aad = .ok plaintext := by
  obtain ⟨ct, hct, rfl⟩ := MasterKey.seal_ok.mp h
  refine MasterKey.open_ok.mpr ⟨rfl, nonce.bytes, ct, ?_, nonce.length_eq, ?_, hct⟩
  · simp only [String.toList_ofList, Hex.decode_encode]
  · simp only [String.toList_ofList, Hex.decode_encode]

/-- A text that one key has sealed, every key seals. -/
theorem MasterKey.exists_seal (key' : MasterKey) (nonce' : Nonce)
    (h : key.open s aad = .ok plaintext) :
    ∃ s', key'.seal nonce' plaintext aad = .ok s' := by
  obtain ⟨-, nonce, ct, -, -, -, hct⟩ := MasterKey.open_ok.mp h
  have hsome := Aead.encrypt_isSome key.bytes nonce key'.bytes nonce'.bytes aad plaintext
  rw [hct, Option.isSome_some, eq_comm, Option.isSome_iff_exists] at hsome
  obtain ⟨ct', hct'⟩ := hsome
  exact ⟨_, MasterKey.seal_ok.mpr ⟨ct', hct', rfl⟩⟩

/-! ## Keyrings -/

namespace Keyring

variable [StdTexts]

theorem open_ok : ring.open s aad = .ok plaintext ↔
    ∃ key, ring.keys s.keyId = some key ∧ key.open s aad = .ok plaintext := by
  rw [Keyring.open]
  cases ring.keys s.keyId with
  | none => exact ⟨nofun, nofun⟩
  | some key => simp only [Option.some.injEq, exists_eq_left']

/-- Only the key under the id of the secret matters. -/
theorem open_congr (h : ring'.keys s.keyId = ring.keys s.keyId) :
    ring'.open s aad = ring.open s aad := by
  rw [Keyring.open, Keyring.open, h]

theorem seal_ok (h : ring.seal nonce plaintext aad = .ok s) :
    s.kid = some ring.active ∧ ring.open s aad = .ok plaintext := by
  obtain ⟨s, hs, ⟨⟩⟩ := Result.bind_ok h
  exact ⟨rfl, open_ok.mpr ⟨ring.activeKey, keys_active, MasterKey.open_seal hs⟩⟩

theorem exists_seal (ring : Keyring) (nonce : Nonce) (h : ring'.open s aad = .ok plaintext) :
    ∃ s', ring.seal nonce plaintext aad = .ok s' := by
  obtain ⟨key, -, hopen⟩ := open_ok.mp h
  obtain ⟨s', hs'⟩ := MasterKey.exists_seal ring.activeKey nonce hopen
  exact ⟨_, Result.ok_bind hs'⟩

/-- There is nothing to seal again exactly if the secret is under the active key. -/
theorem reseal_none_iff : ring.reseal nonce s aad = .ok none ↔ s.keyId = ring.active := by
  rw [reseal]
  by_cases h : s.keyId = ring.active
  · rw [if_pos h]
    exact ⟨fun _ => h, fun _ => rfl⟩
  · rw [if_neg h]
    refine ⟨fun hnone => ?_, fun heq => absurd heq h⟩
    obtain ⟨_, -, hnone⟩ := Result.bind_ok hnone
    obtain ⟨_, -, hnone⟩ := Result.bind_ok hnone
    cases hnone

/-- A secret that opens is sealed again under the active key. -/
theorem reseal_opens (nonce : Nonce) (h : ring.open s aad = .ok plaintext)
    (hne : s.keyId ≠ ring.active) :
    ∃ s', ring.reseal nonce s aad = .ok (some s') ∧ s'.kid = some ring.active ∧
      ring.open s' aad = .ok plaintext := by
  obtain ⟨s', hs'⟩ := exists_seal ring nonce h
  have hreseal : ring.reseal nonce s aad = .ok (some s') := by
    rw [reseal, if_neg hne, Result.ok_bind h, Result.ok_bind hs']
  exact ⟨s', hreseal, seal_ok hs'⟩

/-! ## Rotations -/

/-- Seal a secret again under one keyring after the other. -/
def rotate (aad : List UInt8) : SealedSecret → List (Keyring × Nonce) → Result SealedSecret
  | s, [] => .ok s
  | s, (ring, nonce) :: rest => do
      let resealed ← ring.reseal nonce s aad
      rotate aad (resealed.getD s) rest

/-- The next keyring has the key that this one seals with, under its id. -/
def Keeps (ring ring' : Keyring) : Prop := ring'.keys ring.active = some ring.activeKey

/-- One rotation leaves the secret under the active key of the next keyring. -/
theorem Keeps.reseal (nonce : Nonce) (h : ring.Keeps ring') (hid : s.keyId = ring.active)
    (hopen : ring.open s aad = .ok plaintext) :
    ∃ resealed, ring'.reseal nonce s aad = .ok resealed ∧
      (resealed.getD s).keyId = ring'.active ∧
      ring'.open (resealed.getD s) aad = .ok plaintext := by
  have hkept : ring'.open s aad = .ok plaintext := by
    refine (open_congr ?_).trans hopen
    rw [hid, h, keys_active]
  by_cases heq : s.keyId = ring'.active
  · exact ⟨none, reseal_none_iff.mpr heq, heq, hkept⟩
  · obtain ⟨s', hs', hkid, hopen'⟩ := reseal_opens nonce hkept heq
    refine ⟨some s', hs', ?_, hopen'⟩
    rw [Option.getD_some, SealedSecret.keyId, hkid, Option.getD_some]

/-- Any number of rotations, each keeping the key before it, loses nothing. -/
theorem rotate_opens {rings : List (Keyring × Nonce)}
    (hkeeps : List.IsChain Keeps (ring :: rings.map Prod.fst)) (hid : s.keyId = ring.active)
    (hopen : ring.open s aad = .ok plaintext) :
    ∃ s', rotate aad s rings = .ok s' ∧
      s'.keyId = ((rings.map Prod.fst).getLastD ring).active ∧
      ((rings.map Prod.fst).getLastD ring).open s' aad = .ok plaintext := by
  induction rings generalizing ring s with
  | nil => exact ⟨s, rfl, hid, hopen⟩
  | cons next rings ih =>
      obtain ⟨ring', nonce⟩ := next
      rw [List.map_cons, List.isChain_cons_cons] at hkeeps
      obtain ⟨resealed, hreseal, hid', hopen'⟩ := hkeeps.1.reseal nonce hid hopen
      obtain ⟨s', hs', hlast⟩ := ih hkeeps.2 hid' hopen'
      refine ⟨s', ?_, ?_⟩
      · rw [rotate, Result.ok_bind hreseal, hs']
      · rwa [List.map_cons, List.getLastD_cons]

/-- What a keyring owes to the secrets sealed with one of its keys. -/
structure Serves (ring : Keyring) (id : String) (key : MasterKey) : Prop where
  /-- A secret of the key that carries its id opens; the default id may be missing. -/
  opens : ∀ nonce plaintext aad s kid, key.seal nonce plaintext aad = .ok s →
    kid.getD defaultKeyId = id → ring.open { s with kid := kid } aad = .ok plaintext
  /-- It is sealed again under the active id, once. -/
  reseals : ∀ nonce nonce' plaintext aad s kid, key.seal nonce plaintext aad = .ok s →
    kid.getD defaultKeyId = id → id ≠ ring.active →
    ∃ s', ring.reseal nonce' { s with kid := kid } aad = .ok (some s') ∧
      s'.kid = some ring.active ∧ ring.open s' aad = .ok plaintext ∧
      ∀ nonce, ring.reseal nonce s' aad = .ok none
  /-- Nothing else is left as it is. -/
  current : ∀ nonce s aad, ring.reseal nonce s aad = .ok none ↔ s.keyId = ring.active
  /-- What the keyring seals, opens wherever its key is listed. -/
  portable : ∀ nonce plaintext aad s, ring.seal nonce plaintext aad = .ok s →
    ∀ ring' : Keyring, ring.Keeps ring' → ring'.open s aad = .ok plaintext
  /-- It opens after any number of rotations, each keeping the key before it. -/
  rotates : ∀ nonce plaintext aad s rings, ring.seal nonce plaintext aad = .ok s →
    List.IsChain Keeps (ring :: rings.map Prod.fst) →
    ∃ s', rotate aad s rings = .ok s' ∧
      s'.keyId = ((rings.map Prod.fst).getLastD ring).active ∧
      ((rings.map Prod.fst).getLastD ring).open s' aad = .ok plaintext

theorem serves_of_key (h : ring.keys id = some key) : ring.Serves id key := by
  have hopens (nonce : Nonce) (plaintext aad : List UInt8) (s : SealedSecret) (kid : Option String)
      (hs : key.seal nonce plaintext aad = .ok s) (hkid : kid.getD defaultKeyId = id) :
      ring.open { s with kid := kid } aad = .ok plaintext :=
    open_ok.mpr ⟨key, by rw [SealedSecret.keyId, hkid, h], MasterKey.open_seal hs⟩
  refine ⟨hopens, fun nonce nonce' plaintext aad s kid hs hkid hne => ?_,
    fun _ _ _ => reseal_none_iff, fun nonce plaintext aad s hs ring' hkeeps => ?_,
    fun nonce plaintext aad s rings hs hkeeps => ?_⟩
  · have hopen := hopens nonce plaintext aad s kid hs hkid
    obtain ⟨s', hs', hkid', hopen'⟩ := reseal_opens nonce' hopen (by
      rwa [SealedSecret.keyId, hkid])
    refine ⟨s', hs', hkid', hopen', fun _ => reseal_none_iff.mpr ?_⟩
    rw [SealedSecret.keyId, hkid', Option.getD_some]
  · obtain ⟨hkid, hopen⟩ := seal_ok hs
    refine (open_congr ?_).trans hopen
    rw [SealedSecret.keyId, hkid, Option.getD_some, hkeeps, keys_active]
  · obtain ⟨hkid, hopen⟩ := seal_ok hs
    exact rotate_opens hkeeps (by rw [SealedSecret.keyId, hkid, Option.getD_some]) hopen

/-- A keyring parsed from a spec serves every entry that the spec lists, unless it lists
another key under the same id later. -/
theorem parse_serves {spec active : String} (h : Keyring.parse spec active = .ok ring) :
    ring.active = active ∧ ∃ entries, Lists spec entries ∧
      (∀ entries', Lists spec entries' → entries' = entries) ∧
      specEntries spec = .ok entries ∧
      ∀ before e after, entries = before ++ e :: after →
        (∀ e' ∈ after, e'.1 = e.1 → e'.2 = e.2) → ring.Serves e.1 e.2 := by
  obtain ⟨entries, hentries, hnew⟩ := Result.bind_ok h
  obtain ⟨hactive, hkeys, hvalid⟩ := new_ok hnew
  refine ⟨hactive, entries, lists_iff.mpr ⟨hentries, hvalid⟩, fun entries' h' => ?_, hentries,
    fun before e after heq hlast => serves_of_key ?_⟩
  · cases (lists_iff.mp h').1.symm.trans hentries
    rfl
  rw [hkeys, heq]
  exact collectKeys_of_last hlast

end Keyring

end

/-! ## Keyrings to evaluate -/

/-- A text is found behind its header. -/
theorem drop_header_iff {header msg ct : List UInt8} :
    (if header.isPrefixOf ct then some (ct.drop header.length) else none) = some msg ↔
      some (header ++ msg) = some ct := by
  rw [Option.ite_none_right_eq_some, List.isPrefixOf_iff_prefix, Option.some.injEq,
    Option.some.injEq]
  constructor
  · rintro ⟨⟨rest, rfl⟩, rfl⟩
    rw [List.drop_left]
  · rintro rfl
    exact ⟨List.prefix_append .., List.drop_left⟩

/-- A cipher to evaluate keyrings with: the key and the associated data stand before the
text. -/
instance prefixAead : Aead where
  encrypt key _ aad msg := some (key ++ aad ++ msg)
  decrypt key _ aad ct :=
    if (key ++ aad).isPrefixOf ct then some (ct.drop (key ++ aad).length) else none
  decrypt_iff _ _ _ _ _ := drop_header_iff
  encrypt_isSome _ _ _ _ _ _ := rfl

/-- Texts without hidden characters. -/
@[reducible] def sampleTexts : StdTexts := ⟨fun _ => false, "out of range"⟩

/-- The key whose bytes are all `n`. -/
def sampleKey (n : UInt8) : MasterKey := ⟨List.replicate 32 n, List.length_replicate⟩

/-- A rotation: the old key is listed, the new one is active. -/
def rotatedEntries : List (String × MasterKey) := [("k1", sampleKey 1), ("k2", sampleKey 2)]

/-- A slip in a rotation: the new key is listed under the id of the old one. -/
def shadowedEntries : List (String × MasterKey) := [("k1", sampleKey 1), ("k1", sampleKey 2)]

/-- The old key is served under the new one. -/
theorem rotatedEntries_serves : ∃ ring,
    @Keyring.parse sampleTexts (renderSpec rotatedEntries) "k2" = .ok ring ∧
      ring.active = "k2" ∧ @Keyring.Serves _ sampleTexts ring "k1" (sampleKey 1) := by
  let _ : StdTexts := sampleTexts
  have hlists : Lists (renderSpec rotatedEntries) rotatedEntries := lists_render (by decide)
  have hring : Keyring.parse (renderSpec rotatedEntries) "k2" =
      .ok ⟨"k2", collectKeys rotatedEntries, rfl⟩ := (Keyring.parse_lists hlists).trans rfl
  obtain ⟨hactive, entries, -, honly, -, hserves⟩ := Keyring.parse_serves hring
  obtain rfl := honly _ hlists
  exact ⟨_, hring, hactive, hserves [] ("k1", sampleKey 1) [("k2", sampleKey 2)] rfl (by decide)⟩

/-- The spec of the slip is accepted, but the first key that it lists is lost. -/
theorem shadowedEntries_lost : ∃ ring entries,
    @Keyring.parse sampleTexts (renderSpec shadowedEntries) "k1" = .ok ring ∧
      Lists (renderSpec shadowedEntries) entries ∧
      ∃ e ∈ entries, ¬ @Keyring.Serves _ sampleTexts ring e.1 e.2 := by
  let _ : StdTexts := sampleTexts
  have hlists : Lists (renderSpec shadowedEntries) shadowedEntries := lists_render (by decide)
  have hring : Keyring.parse (renderSpec shadowedEntries) "k1" =
      .ok ⟨"k1", collectKeys shadowedEntries, rfl⟩ := (Keyring.parse_lists hlists).trans rfl
  refine ⟨_, _, hring, hlists, ("k1", sampleKey 1), .head _, fun h => ?_⟩
  have hopen := h.opens ⟨List.replicate 24 0, rfl⟩ [] [] _ (some "k1") rfl rfl
  obtain ⟨key, hkey, hopen⟩ := Keyring.open_ok.mp hopen
  have hsecond : key = sampleKey 2 := (Option.some.inj hkey).symm
  subst hsecond
  obtain ⟨-, nonce, ct, -, -, hct, hsealed⟩ := MasterKey.open_ok.mp hopen
  rw [String.toList_ofList, Hex.decode_encode] at hct
  cases hct
  have hbytes : (sampleKey 2).bytes ++ [] ++ [] = (sampleKey 1).bytes ++ [] ++ [] :=
    Option.some.inj hsealed
  exact absurd hbytes (by decide)

end Buyback
