import Buyback.Counters.Numbered
import Buyback.Recovery.Relive
import Buyback.Source.Archive

/-!
# The archive scan is complete

`verify_legacy_archive` walks the extrinsics of the scanned blocks with one cursor
into the manifest and a nonce for each of the two signers.  A step ignores an
extrinsic of another signer, and otherwise takes the transaction at the cursor.
So a scan that succeeds has met the transactions of the manifest, all of them and
nothing else, and the nonces are consecutive.
-/

namespace Buyback

/-! ## Extrinsics in place -/

/-- An extrinsic where the archive has it. -/
structure Located where
  number : ℕ
  block : ArchiveBlock
  index : ℕ
  extrinsic : ArchiveExtrinsic

namespace Located

/-- The account that signed, if it is a plain one. -/
def signer (x : Located) : Option AccountId32 := x.extrinsic.address.bind signerOf

def nonce (x : Located) : Option ℕ := x.extrinsic.nonce.map UInt64.toNat

/-- An extrinsic that is signed, is signed by a plain account. -/
def Plain (x : Located) : Prop := x.extrinsic.address.isSome → x.signer.isSome

/-- One of the two accounts of the job has signed. -/
def SignedBy (treasury deposit : AccountId32) (x : Located) : Prop :=
  x.signer = some treasury ∨ x.signer = some deposit

instance (treasury deposit : AccountId32) (x : Located) : Decidable (x.SignedBy treasury deposit) :=
  inferInstanceAs (Decidable (_ ∨ _))

/-- The events of the extrinsic add up to a summary. -/
def Summary (x : Located) (s : EventSummary) : Prop :=
  EventSummary.fromEvents x.extrinsic.events = .ok s

end Located

/-- A transaction of a manifest is an extrinsic of the archive, in every respect. -/
structure LegacyTransaction.Is [Ss58] (a : Archive) (t : LegacyTransaction) (x : Located) :
    Prop where
  block : t.block.toNat = x.number
  index : t.index = x.index
  signer : x.signer.map ss58 = some t.signer
  nonce : x.extrinsic.nonce = some t.nonce
  txHash : t.receipt.txHash = x.extrinsic.hash
  blockHash : t.receipt.blockHash = x.block.hash
  callData : a.callData x.number t.call = .ok x.extrinsic.callData

variable {a : Archive} {r : PaymentRecord} {m : LegacyManifest} {treasury deposit : AccountId32}
  {items : List Located} {x : Located}

/-- The extrinsics that one of the two accounts has signed. -/
def activity (treasury deposit : AccountId32) (items : List Located) : List Located :=
  items.filter fun x => x.SignedBy treasury deposit

theorem activity_cons_signed (items : List Located) (h : x.SignedBy treasury deposit) :
    activity treasury deposit (x :: items) = x :: activity treasury deposit items :=
  List.filter_cons_of_pos (decide_eq_true h)

theorem activity_cons_other (items : List Located) (h : ¬ x.SignedBy treasury deposit) :
    activity treasury deposit (x :: items) = activity treasury deposit items :=
  List.filter_cons_of_neg (by simpa using h)

theorem mem_activity :
    x ∈ activity treasury deposit items ↔ x ∈ items ∧ x.SignedBy treasury deposit := by
  rw [activity, List.mem_filter, decide_eq_true_iff]

/-- The transactions from a cursor on begin with the one at the cursor. -/
theorem cons_prefix_drop {α : Type} {l ts : List α} {t : α} {k : ℕ} :
    t :: ts <+: l.drop k ↔ l[k]? = some t ∧ ts <+: l.drop (k + 1) := by
  induction l generalizing k with
  | nil => simp
  | cons y l ih =>
      cases k with
      | zero => rw [List.drop_zero, List.cons_prefix_cons]; simp [eq_comm]
      | succ k => exact ih

theorem exists_of_forall₂ {α β : Type} {R : α → β → Prop} {as : List α} {bs : List β}
    (h : List.Forall₂ R as bs) {b : β} (hb : b ∈ bs) : ∃ a ∈ as, R a b := by
  induction h with
  | nil => cases hb
  | @cons a b' as bs hab _ ih =>
      rcases List.mem_cons.mp hb with rfl | hb
      · exact ⟨a, .head _, hab⟩
      · obtain ⟨a, ha, hR⟩ := ih hb
        exact ⟨a, .tail _ ha, hR⟩

namespace ScanState

/-- The state after a transaction is taken. -/
def take (st : ScanState) (who : AccountId32) (t : LegacyTransaction) (s : EventSummary) :
    ScanState :=
  ⟨Function.update st.nextNonces who (some (t.nonce + 1)), st.summaries ++ [s]⟩

/-- The counters move with the nonces. -/
theorem toNat_take {st : ScanState} {who : AccountId32} {t : LegacyTransaction} {s : EventSummary}
    (h : t.nonce.toNat + 1 < 2 ^ 64) :
    Option.map UInt64.toNat ∘ (st.take who t s).nextNonces =
      Function.update (Option.map UInt64.toNat ∘ st.nextNonces) who (some (t.nonce.toNat + 1)) := by
  have hsucc : (t.nonce + 1).toNat = t.nonce.toNat + 1 := by
    rw [UInt64.toNat_add, UInt64.toNat_one, Nat.mod_eq_of_lt h]
  rw [take, Function.comp_update, Option.map_some, hsucc]

end ScanState

namespace Archive

/-- The extrinsics of the block of a number. -/
def extrinsicsOf (a : Archive) (number : ℕ) : List Located :=
  match a.blocks[number]? with
  | none => []
  | some block => block.extrinsics.zipIdx.map fun x => ⟨number, block, x.2, x.1⟩

/-- The extrinsics of the blocks of these numbers, in block and index order. -/
def located (a : Archive) (numbers : List ℕ) : List Located := numbers.flatMap a.extrinsicsOf

/-- The extrinsics of the scanned blocks, in block and index order. -/
def scanned (a : Archive) (m : LegacyManifest) : List Located :=
  a.located (numbers m.firstBlock a.finalizedHead.1)

theorem extrinsicsOf_some {number : ℕ} {block : ArchiveBlock} (h : a.blocks[number]? = some block) :
    a.extrinsicsOf number = block.extrinsics.zipIdx.map fun x => ⟨number, block, x.2, x.1⟩ := by
  rw [extrinsicsOf, h]

theorem mem_numbers {first head : UInt64} {n : ℕ} :
    n ∈ numbers first head ↔ first.toNat ≤ n ∧ n ≤ head.toNat := by
  rw [numbers, List.mem_range'_1]
  omega

/-! ## The nonces at the start -/

theorem startNonces_some {start : ℕ} {who : AccountId32} {n : UInt64} :
    a.startNonces start treasury deposit who = some n ↔
      (who = treasury ∨ who = deposit) ∧ a.nonceAt start who = n := by
  simp only [startNonces, List.foldl_cons, List.foldl_nil, Function.update_apply]
  by_cases hd : who = deposit
  · rw [if_pos hd, Option.some.injEq, hd]
    exact ⟨fun h => ⟨.inr rfl, h⟩, And.right⟩
  · by_cases ht : who = treasury
    · rw [if_neg hd, if_pos ht, Option.some.injEq, ht]
      exact ⟨fun h => ⟨.inl rfl, h⟩, And.right⟩
    · rw [if_neg hd, if_neg ht]
      exact ⟨nofun, fun h => absurd h.1 (not_or.mpr ⟨ht, hd⟩)⟩

/-- The state in which the scan starts. -/
def startState (a : Archive) (m : LegacyManifest) (treasury deposit : AccountId32) : ScanState :=
  ⟨a.startNonces (m.firstBlock - 1).toNat treasury deposit, []⟩

/-- From the start of the scan, the counters are the nonces of the two accounts. -/
theorem numbered_start {l : List Located} (h : ∀ x ∈ l, x.SignedBy treasury deposit) :
    Counters.Numbered Located.signer Located.nonce
        (Option.map UInt64.toNat ∘ (a.startState m treasury deposit).nextNonces) l ↔
      ∀ who, who = treasury ∨ who = deposit →
        Counters.Consecutive Located.signer Located.nonce who
          (a.nonceAt (m.firstBlock - 1).toNat who).toNat l := by
  have hstart (who : AccountId32) (n : ℕ) :
      (Option.map UInt64.toNat ∘ (a.startState m treasury deposit).nextNonces) who = some n ↔
        (who = treasury ∨ who = deposit) ∧ (a.nonceAt (m.firstBlock - 1).toNat who).toNat = n := by
    simp only [startState, Function.comp_apply, Option.map_eq_some_iff, startNonces_some, and_assoc,
      exists_and_left, exists_eq_left']
  rw [Counters.numbered_iff]
  constructor
  · rintro ⟨-, hruns⟩ who hwho
    exact hruns who _ ((hstart who _).mpr ⟨hwho, rfl⟩)
  · intro hruns
    refine ⟨fun x hx => ?_, fun who n hn => ?_⟩
    · rcases h x hx with hwho | hwho
      · exact ⟨treasury, _, hwho, (hstart _ _).mpr ⟨.inl rfl, rfl⟩⟩
      · exact ⟨deposit, _, hwho, (hstart _ _).mpr ⟨.inr rfl, rfl⟩⟩
    · obtain ⟨hwho, rfl⟩ := (hstart who n).mp hn
      exact hruns who hwho

/-! ## One step of the scan -/

section

variable [Ss58] {st st' : ScanState}

/-- The body of the inner loop, on an extrinsic in place. -/
def scanLocated (a : Archive) (m : LegacyManifest) (treasury deposit : AccountId32)
    (st : ScanState) (x : Located) : Result ScanState :=
  a.scanExtrinsic m treasury deposit x.number x.block st (x.extrinsic, x.index)

/-- An extrinsic of nobody, or of another account, is passed over. -/
theorem scanLocated_other (h : ¬ x.SignedBy treasury deposit) :
    a.scanLocated m treasury deposit st x = .ok st' ↔ x.Plain ∧ st = st' := by
  obtain ⟨number, block, index, ⟨address, nonce, hash, callData, events⟩⟩ := x
  cases address with
  | none => exact ⟨fun h => ⟨nofun, Except.ok.inj h⟩, fun h => congrArg _ h.2⟩
  | some bytes =>
      have hsigner : Located.signer ⟨number, block, index, some bytes, nonce, hash, callData,
        events⟩ = signerOf bytes := rfl
      rw [Located.SignedBy, hsigner, not_or] at h
      rw [Located.Plain, hsigner]
      simp only [scanLocated, scanExtrinsic]
      cases hbytes : signerOf bytes with
      | none => exact ⟨nofun, fun h => absurd (h.1 rfl) nofun⟩
      | some who =>
          rw [hbytes, Option.some.injEq, Option.some.injEq] at h
          rw [Result.bind_eq_ok]
          simp only [okOr_ok, Option.some.injEq, exists_eq_left', if_pos h, Except.ok.injEq,
            Option.isSome_some, implies_true, true_and]

/-- An extrinsic of one of the two accounts is the transaction at the cursor. -/
theorem scanLocated_signed {who : AccountId32} (hwho : x.signer = some who)
    (h : x.SignedBy treasury deposit) :
    a.scanLocated m treasury deposit st x = .ok st' ↔
      ∃ t s, m.transactions[st.summaries.length]? = some t ∧ t.Is a x ∧
        st.nextNonces who = some t.nonce ∧ t.nonce.toNat + 1 < 2 ^ 64 ∧ x.Summary s ∧
        st.take who t s = st' := by
  obtain ⟨bytes, haddress, hbytes⟩ := Option.bind_eq_some_iff.mp hwho
  have hours : ¬ (who ≠ treasury ∧ who ≠ deposit) := by
    rw [Located.SignedBy, hwho, Option.some.injEq, Option.some.injEq] at h
    rwa [not_and_or, not_not, not_not]
  simp only [scanLocated, scanExtrinsic, haddress, hbytes, Result.bind_eq_ok,
    Result.refuse_eq_ok, okOr_ok, chainErr_ok, checkedSucc_some, Option.some.injEq,
    exists_eq_left', if_neg hours, Mismatch, not_or, not_not, Except.ok.injEq]
  constructor
  · rintro ⟨t, ht, nonce, hnonce, ⟨hnumber, hindex, hname, hn, hnext, htx, hblock⟩, data, hdata,
      hbytes, following, ⟨hlt, hsucc⟩, s, hs, rfl⟩
    subst hn hsucc hbytes
    exact ⟨t, s, ht, ⟨hnumber, hindex, by rw [hwho, hname]; rfl, hnonce, htx, hblock, hdata⟩, hnext,
      hlt, hs, rfl⟩
  · rintro ⟨t, s, ht, ⟨hnumber, hindex, hname, hnonce, htx, hblock, hdata⟩, hnext, hlt, hs, rfl⟩
    rw [hwho, Option.map_some, Option.some.injEq] at hname
    exact ⟨t, ht, _, hnonce, ⟨hnumber, hindex, hname.symm, rfl, hnext, htx, hblock⟩, _, hdata, rfl,
      _, ⟨hlt, rfl⟩, s, hs, rfl⟩

/-! ## A run of the scan -/

/-- What the scan of some extrinsics meets from a state: the transactions from the cursor
on, with the nonces the state expects. -/
structure Meets (a : Archive) (m : LegacyManifest) (treasury deposit : AccountId32)
    (st : ScanState) (items : List Located) (ts : List LegacyTransaction)
    (summaries : List EventSummary) : Prop where
  plain : ∀ x ∈ items, x.Plain
  cursor : ts <+: m.transactions.drop st.summaries.length
  explained : List.Forall₂ (LegacyTransaction.Is a) ts (activity treasury deposit items)
  numbered : Counters.Numbered Located.signer Located.nonce
    (Option.map UInt64.toNat ∘ st.nextNonces) (activity treasury deposit items)
  bounded : ∀ t ∈ ts, t.nonce.toNat + 1 < 2 ^ 64
  summarised : List.Forall₂ Located.Summary (activity treasury deposit items) summaries

variable {ts : List LegacyTransaction} {summaries : List EventSummary}

theorem meets_other (h : ¬ x.SignedBy treasury deposit) :
    a.Meets m treasury deposit st (x :: items) ts summaries ↔
      x.Plain ∧ a.Meets m treasury deposit st items ts summaries := by
  have hskip := activity_cons_other items h
  constructor
  · rintro ⟨hplain, hcursor, hexplained, hnumbered, hbounded, hsummarised⟩
    rw [hskip] at hexplained hnumbered hsummarised
    exact ⟨hplain x (.head _), fun y hy => hplain y (.tail _ hy), hcursor, hexplained, hnumbered,
      hbounded, hsummarised⟩
  · rintro ⟨hx, hplain, hcursor, hexplained, hnumbered, hbounded, hsummarised⟩
    rw [← hskip] at hexplained hnumbered hsummarised
    exact ⟨List.forall_mem_cons.mpr ⟨hx, hplain⟩, hcursor, hexplained, hnumbered, hbounded,
      hsummarised⟩

theorem meets_signed {who : AccountId32} (hwho : x.signer = some who)
    (h : x.SignedBy treasury deposit) :
    a.Meets m treasury deposit st (x :: items) ts summaries ↔
      ∃ t ts' s summaries', ts = t :: ts' ∧ summaries = s :: summaries' ∧
        m.transactions[st.summaries.length]? = some t ∧ t.Is a x ∧
        st.nextNonces who = some t.nonce ∧ t.nonce.toNat + 1 < 2 ^ 64 ∧ x.Summary s ∧
        a.Meets m treasury deposit (st.take who t s) items ts' summaries' := by
  have htake := activity_cons_signed items h
  have hlength (t : LegacyTransaction) (s : EventSummary) :
      (st.take who t s).summaries.length = st.summaries.length + 1 := List.length_append
  constructor
  · rintro ⟨hplain, hcursor, hexplained, hnumbered, hbounded, hsummarised⟩
    rw [htake] at hexplained hnumbered hsummarised
    cases hexplained with
    | @cons t _ ts' _ ht hexplained =>
    cases hsummarised with
    | @cons _ s _ summaries' hs hsummarised =>
    cases hnumbered with
    | @cons _ _ _ who' n hkey hn hnext hnumbered =>
        obtain ⟨hlt, hbounded⟩ := List.forall_mem_cons.mp hbounded
        obtain ⟨hat, hcursor⟩ := cons_prefix_drop.mp hcursor
        cases hwho.symm.trans hkey
        rw [Located.nonce, ht.nonce] at hn
        cases hn
        obtain ⟨n, hn, heq⟩ := Option.map_eq_some_iff.mp hnext
        cases UInt64.toNat_inj.mp heq
        exact ⟨t, ts', s, summaries', rfl, rfl, hat, ht, hn, hlt, hs,
          fun y hy => hplain y (.tail _ hy), by rwa [hlength], hexplained,
          by rwa [ScanState.toNat_take hlt], hbounded, hsummarised⟩
  · rintro ⟨t, ts', s, summaries', rfl, rfl, hat, ht, hn, hlt, hs, hplain, hcursor, hexplained,
      hnumbered, hbounded, hsummarised⟩
    rw [hlength] at hcursor
    rw [ScanState.toNat_take hlt] at hnumbered
    refine ⟨List.forall_mem_cons.mpr ⟨fun _ => by rw [hwho]; rfl, hplain⟩,
      cons_prefix_drop.mpr ⟨hat, hcursor⟩, ?_, ?_, List.forall_mem_cons.mpr ⟨hlt, hbounded⟩, ?_⟩
    · exact htake ▸ .cons ht hexplained
    · refine htake ▸ .cons hwho ?_ ?_ hnumbered
      · rw [Located.nonce, ht.nonce]
        rfl
      · rw [Function.comp_apply, hn]
        rfl
    · exact htake ▸ .cons hs hsummarised

/-- The scan of some extrinsics succeeds exactly if they are what the state expects. -/
theorem scan_ok {out : List EventSummary} :
    (∃ st', items.foldlM (a.scanLocated m treasury deposit) st = .ok st' ∧ st'.summaries = out) ↔
      ∃ ts summaries, a.Meets m treasury deposit st items ts summaries ∧
        st.summaries ++ summaries = out := by
  induction items generalizing st with
  | nil =>
      constructor
      · rintro ⟨_, ⟨⟩, rfl⟩
        exact ⟨[], [], ⟨nofun, List.nil_prefix, .nil, .nil, nofun, .nil⟩, List.append_nil _⟩
      · rintro ⟨ts, summaries, hmeets, rfl⟩
        cases hmeets.summarised
        exact ⟨st, rfl, (List.append_nil _).symm⟩
  | cons x items ih =>
      simp only [List.foldlM_cons, Result.bind_eq_ok]
      by_cases h : x.SignedBy treasury deposit
      · obtain ⟨who, hwho⟩ : ∃ who, x.signer = some who := h.elim (⟨_, ·⟩) (⟨_, ·⟩)
        simp only [scanLocated_signed hwho h, meets_signed hwho h]
        constructor
        · rintro ⟨st', ⟨st₁, ⟨t, s, hat, ht, hnext, hlt, hs, rfl⟩, hrest⟩, hout⟩
          obtain ⟨ts, summaries, hmeets, rfl⟩ := ih.mp ⟨st', hrest, hout⟩
          exact ⟨_, _, ⟨t, ts, s, summaries, rfl, rfl, hat, ht, hnext, hlt, hs, hmeets⟩,
            (List.append_cons ..)⟩
        · rintro ⟨_, _, ⟨t, ts, s, summaries, rfl, rfl, hat, ht, hnext, hlt, hs, hmeets⟩, rfl⟩
          obtain ⟨st', hrest, hout⟩ := ih.mpr ⟨ts, summaries, hmeets, (List.append_cons ..).symm⟩
          exact ⟨st', ⟨_, ⟨t, s, hat, ht, hnext, hlt, hs, rfl⟩, hrest⟩, hout⟩
      · simp only [scanLocated_other h, meets_other h]
        constructor
        · rintro ⟨st', ⟨_, ⟨hplain, rfl⟩, hrest⟩, hout⟩
          obtain ⟨ts, summaries, hmeets, hout⟩ := ih.mp ⟨st', hrest, hout⟩
          exact ⟨ts, summaries, ⟨hplain, hmeets⟩, hout⟩
        · rintro ⟨ts, summaries, ⟨hplain, hmeets⟩, hout⟩
          obtain ⟨st', hrest, hout⟩ := ih.mpr ⟨ts, summaries, hmeets, hout⟩
          exact ⟨st', ⟨_, ⟨hplain, rfl⟩, hrest⟩, hout⟩

/-! ## The blocks of the scan -/

theorem scanBlock_ok {number : ℕ} :
    a.scanBlock m treasury deposit st number = .ok st' ↔
      number < a.blocks.length ∧
        (a.extrinsicsOf number).foldlM (a.scanLocated m treasury deposit) st = .ok st' := by
  rw [scanBlock, Result.bind_eq_ok]
  simp only [blockAt, okOr_ok]
  constructor
  · rintro ⟨block, hblock, h⟩
    rw [extrinsicsOf_some hblock, List.foldlM_map]
    exact ⟨(List.getElem?_eq_some_iff.mp hblock).1, h⟩
  · rintro ⟨hlt, h⟩
    have hblock := List.getElem?_eq_getElem hlt
    rw [extrinsicsOf_some hblock, List.foldlM_map] at h
    exact ⟨_, hblock, h⟩

/-- The two loops are one loop over the extrinsics. -/
theorem scanBlocks_ok {numbers : List ℕ} :
    numbers.foldlM (a.scanBlock m treasury deposit) st = .ok st' ↔
      (∀ n ∈ numbers, n < a.blocks.length) ∧
        (a.located numbers).foldlM (a.scanLocated m treasury deposit) st = .ok st' := by
  induction numbers generalizing st with
  | nil => exact ⟨fun h => ⟨nofun, h⟩, And.right⟩
  | cons n numbers ih =>
      rw [List.foldlM_cons, Result.bind_eq_ok, located, List.flatMap_cons, List.foldlM_append,
        Result.bind_eq_ok, List.forall_mem_cons]
      simp only [scanBlock_ok, ih]
      constructor
      · rintro ⟨st₁, ⟨hn, hblock⟩, hnumbers, hrest⟩
        exact ⟨⟨hn, hnumbers⟩, st₁, hblock, hrest⟩
      · rintro ⟨⟨hn, hnumbers⟩, st₁, hblock, hrest⟩
        exact ⟨st₁, ⟨hn, hblock⟩, hnumbers, hrest⟩

/-! ## What a scan that succeeds says -/

/-- The manifest is all that the two accounts have signed, up to a head at which nothing
that was signed before the stop can come any more. -/
structure Exhausts (a : Archive) (m : LegacyManifest) (treasury deposit : AccountId32)
    (summaries : List EventSummary) : Prop where
  mortality : m.stoppedAt.toNat + m.maximumMortality.toNat + 1 < a.finalizedHead.1.toNat
  explained : List.Forall₂ (LegacyTransaction.Is a) m.transactions
    (activity treasury deposit (a.scanned m))
  consecutive : ∀ who, who = treasury ∨ who = deposit →
    Counters.Consecutive Located.signer Located.nonce who
      (a.nonceAt (m.firstBlock - 1).toNat who).toNat (activity treasury deposit (a.scanned m))
  stopped : ∀ x ∈ a.scanned m, m.stoppedAt.toNat < x.number → ¬ x.SignedBy treasury deposit
  summarised : List.Forall₂ Located.Summary (activity treasury deposit (a.scanned m)) summaries

/-- What the scan asks of the archive besides. -/
structure Scannable (a : Archive) (m : LegacyManifest) : Prop where
  genesis : a.genesisHash = m.genesisHash
  bounded : a.finalizedHead.1.toNat - m.firstBlock.toNat ≤ 100000
  plain : ∀ x ∈ a.scanned m, x.Plain
  anchored : a.blockHashAt a.finalizedHead.1.toNat = some a.finalizedHead.2

theorem verifyLegacyArchive_ok {head : UInt64} {hash : String}
    (htreasury : parseSs58 m.treasury = .ok treasury)
    (hdeposit : parseSs58 r.address = .ok deposit) :
    a.verifyLegacyArchive r m = .ok (summaries, head, hash) ↔
      a.finalizedHead = (head, hash) ∧
      a.genesisHash = m.genesisHash ∧
      m.stoppedAt.toNat + m.maximumMortality.toNat + 1 < head.toNat ∧
      m.firstBlock.toNat ≤ head.toNat ∧
      head.toNat - m.firstBlock.toNat ≤ 100000 ∧
      (m.firstBlock - 1).toNat < a.blocks.length ∧
      (∃ st, (numbers m.firstBlock head).foldlM (a.scanBlock m treasury deposit)
        (a.startState m treasury deposit) = .ok st ∧ st.summaries = summaries) ∧
      summaries.length = m.transactions.length ∧
      a.blockHashAt head.toNat = some hash := by
  simp only [verifyLegacyArchive, htreasury, hdeposit, Result.refuse_eq_ok, Result.bind_eq_ok,
    blockAt, okOr_ok, not_not, not_or, not_le, UInt64.not_lt, Except.ok.injEq, Prod.mk.injEq,
    exists_eq_left', List.getElem?_eq_some_iff]
  have hwindow (hle : m.firstBlock ≤ a.finalizedHead.1) :
      a.finalizedHead.1 - m.firstBlock ≤ 100000 ↔
        a.finalizedHead.1.toNat - m.firstBlock.toNat ≤ 100000 := by
    rw [UInt64.le_iff_toNat_le, UInt64.toNat_sub_of_le _ _ hle]
    rfl
  constructor
  · rintro ⟨hgenesis, -, ⟨hhorizon, hfirst, hbounded⟩, _, ⟨hstart, -⟩, st, hst, hlength, hanchored,
      rfl, rfl, rfl⟩
    exact ⟨rfl, hgenesis, hhorizon, UInt64.le_iff_toNat_le.mp hfirst, (hwindow hfirst).mp hbounded,
      hstart, ⟨st, hst, rfl⟩, hlength, hanchored⟩
  · rintro ⟨hhead, hgenesis, hhorizon, hfirst, hbounded, hstart, ⟨st, hst, rfl⟩, hlength, hanchored⟩
    obtain rfl : a.finalizedHead.1 = head := congrArg Prod.fst hhead
    obtain rfl : a.finalizedHead.2 = hash := congrArg Prod.snd hhead
    have hfirst := UInt64.le_iff_toNat_le.mpr hfirst
    exact ⟨hgenesis, hhorizon.trans (UInt64.toNat_lt _),
      ⟨hhorizon, hfirst, (hwindow hfirst).mpr hbounded⟩, _, ⟨hstart, rfl⟩, st, hst, hlength,
      hanchored, rfl, rfl, rfl⟩

/-- A scan that starts at the two accounts' nonces meets the whole manifest. -/
theorem exhausts_of_meets {ts : List LegacyTransaction}
    (hvalid : ValidManifest r m treasury deposit)
    (hlength : summaries.length = m.transactions.length)
    (hmortality : m.stoppedAt.toNat + m.maximumMortality.toNat + 1 < a.finalizedHead.1.toNat)
    (h : a.Meets m treasury deposit (a.startState m treasury deposit) (a.scanned m) ts summaries) :
    a.Exhausts m treasury deposit summaries := by
  have heq : ts = m.transactions := by
    refine h.cursor.eq_of_length ?_
    exact h.explained.length_eq.trans (h.summarised.length_eq.trans hlength)
  subst heq
  have hours : ∀ x ∈ activity treasury deposit (a.scanned m), x.SignedBy treasury deposit :=
    fun x hx => (mem_activity.mp hx).2
  refine ⟨hmortality, h.explained, (numbered_start hours).mp h.numbered,
    fun x hx hlate hsigned => ?_, h.summarised⟩
  obtain ⟨t, ht, his⟩ := exists_of_forall₂ h.explained (mem_activity.mpr ⟨hx, hsigned⟩)
  have hstopped := UInt64.le_iff_toNat_le.mp (hvalid.explained t ht).stopped
  have hblock := his.block
  omega

theorem Exhausts.meets (hvalid : ValidManifest r m treasury deposit)
    (hplain : ∀ x ∈ a.scanned m, x.Plain) (h : a.Exhausts m treasury deposit summaries) :
    a.Meets m treasury deposit (a.startState m treasury deposit) (a.scanned m) m.transactions
      summaries := by
  have hsigned : ∀ x ∈ activity treasury deposit (a.scanned m), x.SignedBy treasury deposit :=
    fun x hx => (mem_activity.mp hx).2
  refine ⟨hplain, List.prefix_rfl, h.explained, (numbered_start hsigned).mpr h.consecutive,
    fun t ht => ?_, h.summarised⟩
  -- the counters start at a `u32`, and a manifest has at most 4096 transactions
  obtain ⟨x, hx, his⟩ := exists_of_forall₂ h.explained.flip ht
  have hnonce : x.nonce = some t.nonce.toNat := by
    rw [Located.nonce, his.nonce]
    rfl
  have hrun (who : AccountId32) (hwho : who = treasury ∨ who = deposit)
      (hkey : x.signer = some who) :=
    (h.consecutive who hwho).number_lt hx hkey hnonce
  have hstart (who : AccountId32) : (a.nonceAt (m.firstBlock - 1).toNat who).toNat < 2 ^ 32 :=
    UInt32.toNat_lt _
  have hlength := h.explained.length_eq
  have hfew := hvalid.transactions_length_le
  rcases hsigned x hx with hkey | hkey
  · have := hrun treasury (.inl rfl) hkey
    have := hstart treasury
    omega
  · have := hrun deposit (.inr rfl) hkey
    have := hstart deposit
    omega

/-- The archive scan is complete: it succeeds exactly if the manifest is all that the two
accounts have signed, in order and with consecutive nonces, up to a finalized head past
the mortality of every old extrinsic. -/
theorem verifyLegacyArchive_exhausts (h : validateManifest r m = .ok ()) :
    ∃ treasury deposit, parseSs58 m.treasury = .ok treasury ∧ parseSs58 r.address = .ok deposit ∧
      ∀ summaries head hash, a.verifyLegacyArchive r m = .ok (summaries, head, hash) ↔
        a.finalizedHead = (head, hash) ∧ a.Exhausts m treasury deposit summaries ∧
          a.Scannable m := by
  obtain ⟨treasury, deposit, hvalid, htreasury, hdeposit⟩ := validateManifest_valid h
  refine ⟨treasury, deposit, htreasury, hdeposit, fun summaries head hash => ?_⟩
  rw [verifyLegacyArchive_ok htreasury hdeposit]
  constructor
  · rintro ⟨hhead, hgenesis, hhorizon, -, hbounded, -, ⟨st, hst, hout⟩, hlength, hanchored⟩
    obtain rfl : a.finalizedHead.1 = head := congrArg Prod.fst hhead
    obtain rfl : a.finalizedHead.2 = hash := congrArg Prod.snd hhead
    obtain ⟨-, hscan⟩ := scanBlocks_ok.mp hst
    obtain ⟨ts, _, hmeets, rfl⟩ := scan_ok.mp ⟨st, hscan, hout⟩
    exact ⟨rfl, exhausts_of_meets hvalid hlength hhorizon hmeets,
      hgenesis, hbounded, hmeets.plain, hanchored⟩
  · rintro ⟨hhead, hexhausts, hscannable⟩
    obtain rfl : a.finalizedHead.1 = head := congrArg Prod.fst hhead
    obtain rfl : a.finalizedHead.2 = hash := congrArg Prod.snd hhead
    have hmortality := hexhausts.mortality
    have hfirst := UInt64.le_iff_toNat_le.mp hvalid.firstBlock_le
    obtain ⟨block, hblock, -⟩ := Option.map_eq_some_iff.mp hscannable.anchored
    have hread : a.finalizedHead.1.toNat < a.blocks.length :=
      (List.getElem?_eq_some_iff.mp hblock).1
    have hbefore : (m.firstBlock - 1).toNat ≤ m.firstBlock.toNat := by
      have hpos := UInt64.lt_iff_toNat_lt.mp (UInt64.pos_iff_ne_zero.mpr hvalid.firstBlock_ne_zero)
      have hle : (1 : UInt64) ≤ m.firstBlock := UInt64.le_iff_toNat_le.mpr hpos
      rw [UInt64.toNat_sub_of_le _ _ hle]
      exact Nat.sub_le ..
    obtain ⟨st, hscan, hout⟩ :=
      scan_ok.mpr ⟨_, summaries, hexhausts.meets hvalid hscannable.plain, rfl⟩
    have hblocks : ∀ n ∈ numbers m.firstBlock a.finalizedHead.1, n < a.blocks.length :=
      fun n hn => Nat.lt_of_le_of_lt (mem_numbers.mp hn).2 hread
    exact ⟨rfl, hscannable.genesis, hmortality, by omega, hscannable.bounded, by omega,
      ⟨st, scanBlocks_ok.mpr ⟨hblocks, hscan⟩, hout⟩,
      hexhausts.summarised.length_eq.symm.trans hexhausts.explained.length_eq.symm,
      hscannable.anchored⟩

end

end Archive

/-! ## An archive of the sample job -/

/-- The sample manifest with a short mortality. -/
def shortManifest : LegacyManifest := { sampleManifest with maximumMortality := 1 }

/-- The block that holds a transaction of the sample job, signed by the account whose unary
address has so many letters. -/
def sampleBlock (t : LegacyTransaction) : ArchiveBlock where
  hash := t.receipt.blockHash
  extrinsics :=
    [{ address := some (List.replicate 32 0 ++ [UInt8.ofNat t.signer.length])
       nonce := some t.nonce
       hash := t.receipt.txHash
       callData := []
       events := [.ok ⟨"System", "ExtrinsicSuccess", [], ""⟩] }]

/-- The archive of the sample job. -/
def sampleNode : Archive where
  genesisHash := "genesis"
  blocks := ⟨"genesis", []⟩ :: sampleTransactions.map sampleBlock ++ List.replicate 3 ⟨"head", []⟩
  finalizedHead := (7, "head")
  nonces _ _ := none
  callData _ _ := .ok []
  unknownBlock := "unknown block"

theorem sampleNode_exhausts : ∃ treasury deposit, sampleNode.Exhausts shortManifest treasury deposit
    (List.replicate 4 { names := [("System", "ExtrinsicSuccess")] }) := by
  have hvalid : validateManifest sampleLegacy shortManifest = .ok () := rfl
  obtain ⟨treasury, deposit, -, -, h⟩ :=
    Archive.verifyLegacyArchive_exhausts (a := sampleNode) hvalid
  obtain ⟨-, hexhausts, -⟩ := (h _ 7 "head").mp rfl
  exact ⟨treasury, deposit, hexhausts⟩

end Buyback
