import Buyback.System.Finalized

/-!
# Looking for a journaled extrinsic

`find_pending` reads a finalized head and scans the blocks from the birth of the
extrinsic to one past its mortality.  The chain is only ever extended, and holds the
extrinsic at most once and only in its window.  Then the scan finds exactly what is
there up to the head, and an extrinsic is dead only if no chain will ever hold it.
-/

namespace Buyback

namespace Finalized

variable {c c' : Finalized} {head n n' i i' : ℕ} {p : PendingTx} {b b' : Block} {evs evs' : Events}

/-- The extrinsic is at the position `i` of the block `n`, with the events `evs`. -/
structure Holds (c : Finalized) (p : PendingTx) (n i : ℕ) (b : Block) (evs : Events) : Prop where
  block : c.blocks[n]? = some b
  extrinsic : b.extrinsics[i]? = some (p.txHash, evs)

/-- The chain holds the extrinsic at most once, and only from its birth to its mortality. -/
structure Windowed (c : Finalized) (p : PendingTx) : Prop where
  window : ∀ n i b evs, c.Holds p n i b evs →
    p.birthBlock.toNat ≤ n ∧ n ≤ p.birthBlock.toNat + mortality.toNat
  once : ∀ n i b evs n' i' b' evs', c.Holds p n i b evs → c.Holds p n' i' b' evs' → n = n' ∧ i = i'

/-- Blocks are only appended. -/
def Extends (c c' : Finalized) : Prop := c.blocks <+: c'.blocks

theorem Holds.mem (h : c.Holds p n i b evs) : (p.txHash, evs) ∈ b.extrinsics :=
  List.mem_of_getElem? h.extrinsic

theorem exists_holds (hb : c.blocks[n]? = some b) (hmem : (p.txHash, evs) ∈ b.extrinsics) :
    ∃ i, c.Holds p n i b evs := by
  obtain ⟨i, hi⟩ := List.mem_iff_getElem?.mp hmem
  exact ⟨i, hb, hi⟩

theorem Windowed.unique (h : c.Windowed p) (hin : c.Holds p n i b evs)
    (hin' : c.Holds p n' i' b' evs') : b = b' ∧ evs = evs' := by
  obtain ⟨rfl, rfl⟩ := h.once _ _ _ _ _ _ _ _ hin hin'
  have hb := hin.block.symm.trans hin'.block
  cases hb
  have hx := hin.extrinsic.symm.trans hin'.extrinsic
  cases hx
  exact ⟨rfl, rfl⟩

/-! ## The blocks the scan reads -/

/-- The last block that may hold the extrinsic, and one more. -/
def horizon (p : PendingTx) : ℕ := p.birthBlock.toNat + mortality.toNat + 1

/-- The blocks the scan reads. -/
def scanned (c : Finalized) (head : ℕ) (p : PendingTx) : List Block :=
  (c.blocks.take (min head (horizon p) + 1)).drop p.birthBlock.toNat

theorem mem_scanned : b ∈ c.scanned head p ↔
    ∃ n, c.blocks[n]? = some b ∧ p.birthBlock.toNat ≤ n ∧ n ≤ head ∧ n ≤ horizon p := by
  rw [scanned, List.mem_iff_getElem?]
  constructor
  · rintro ⟨i, hi⟩
    rw [List.getElem?_drop] at hi
    have hlt := (List.getElem?_eq_some_iff.mp hi).1
    rw [List.length_take] at hlt
    rw [List.getElem?_take_of_lt (by omega)] at hi
    exact ⟨_, hi, by omega, by omega, by omega⟩
  · rintro ⟨n, hn, hbirth, hhead, hhorizon⟩
    refine ⟨n - p.birthBlock.toNat, ?_⟩
    rw [List.getElem?_drop, Nat.add_sub_cancel' hbirth, List.getElem?_take_of_lt (by omega), hn]

/-- The scan reads every block up to the head that holds the extrinsic. -/
theorem Windowed.mem_scanned (h : c.Windowed p) (hin : c.Holds p n i b evs) (hn : n ≤ head) :
    b ∈ c.scanned head p := by
  obtain ⟨hbirth, hwindow⟩ := h.window n i b evs hin
  exact Finalized.mem_scanned.mpr ⟨n, hin.block, hbirth, hn, by unfold horizon; omega⟩

theorem holds_of_locate {blockHash : String}
    (h : locate p.txHash (c.scanned head p) = some (blockHash, evs)) :
    ∃ n i b, n ≤ head ∧ b.hash = blockHash ∧ c.Holds p n i b evs := by
  obtain ⟨b, hb, hhash, hmem⟩ := locate_some h
  obtain ⟨n, hn, -, hle, -⟩ := Finalized.mem_scanned.mp hb
  obtain ⟨i, hi⟩ := exists_holds hn hmem
  exact ⟨n, i, b, hle, hhash, hi⟩

theorem Windowed.locate_eq (h : c.Windowed p) (hin : c.Holds p n i b evs) (hn : n ≤ head) :
    locate p.txHash (c.scanned head p) = some (b.hash, evs) := by
  cases hl : locate p.txHash (c.scanned head p) with
  | none => exact absurd hin.mem (locate_none hl b (h.mem_scanned hin hn) evs)
  | some x =>
      obtain ⟨blockHash, evs'⟩ := x
      obtain ⟨n', i', b', -, hhash, hin'⟩ := holds_of_locate hl
      obtain ⟨rfl, rfl⟩ := h.unique hin hin'
      rw [hhash]

theorem locate_eq_none (hno : ∀ n i b evs, c.Holds p n i b evs → head < n) :
    locate p.txHash (c.scanned head p) = none := by
  cases hl : locate p.txHash (c.scanned head p) with
  | none => rfl
  | some x =>
      obtain ⟨blockHash, evs⟩ := x
      obtain ⟨n, i, b, hle, -, hin⟩ := holds_of_locate hl
      exact absurd (hno n i b evs hin) (Nat.not_lt.mpr hle)

/-! ## What the scan answers -/

theorem findPending_def (c : Finalized) (head : ℕ) (p : PendingTx) : c.findPending head p =
    if 2 ^ 64 ≤ horizon p then .error (.chain "transaction mortality overflow")
    else match locate p.txHash (c.scanned head p) with
      | some (hash, evs) =>
          match EventSummary.fromEvents evs with
          | .error e => .error e
          | .ok summary => .ok (.included hash summary)
      | none => .ok (if horizon p < head then .dead else .wait) := rfl

theorem findPending_eq (hsmall : horizon p < 2 ^ 64) :
    c.findPending head p = match locate p.txHash (c.scanned head p) with
      | some (hash, evs) => (EventSummary.fromEvents evs).map (.included hash)
      | none => .ok (if horizon p < head then .dead else .wait) := by
  rw [findPending_def, if_neg (Nat.not_le.mpr hsmall)]
  cases locate p.txHash (c.scanned head p) with
  | none => rfl
  | some x =>
      obtain ⟨hash, evs⟩ := x
      simp only
      cases EventSummary.fromEvents evs with
      | ok summary => rfl
      | error e => rfl

/-- What is there up to the head, is found. -/
theorem Windowed.findPending_found (h : c.Windowed p) (hsmall : horizon p < 2 ^ 64)
    (hin : c.Holds p n i b evs) (hn : n ≤ head) :
    c.findPending head p = (EventSummary.fromEvents evs).map (.included b.hash) := by
  rw [findPending_eq hsmall, h.locate_eq hin hn]

theorem findPending_absent (hsmall : horizon p < 2 ^ 64)
    (hno : ∀ n i b evs, c.Holds p n i b evs → head < n) :
    c.findPending head p = .ok (if horizon p < head then .dead else .wait) := by
  rw [findPending_eq hsmall, locate_eq_none hno]

theorem findPending_overflow (hlarge : 2 ^ 64 ≤ horizon p) :
    c.findPending head p = .error (.chain "transaction mortality overflow") := by
  rw [findPending_def, if_pos hlarge]

theorem Holds.restrict (hext : c.Extends c') (h : c'.Holds p n i b evs)
    (hn : n < c.blocks.length) : c.Holds p n i b evs := by
  obtain ⟨rest, hrest⟩ := hext
  refine ⟨?_, h.extrinsic⟩
  have := h.block
  rwa [← hrest, List.getElem?_append_left hn] at this

/-- A head past the horizon has seen every block of the window, now and later. -/
theorem not_holds_of_past (hext : c.Extends c') (hw : c'.Windowed p)
    (hhead : head < c.blocks.length) (hpast : horizon p < head)
    (hno : ∀ n i b evs, c.Holds p n i b evs → head < n) :
    ∀ n i b evs, ¬ c'.Holds p n i b evs := by
  intro n i b evs hin
  obtain ⟨-, hwindow⟩ := hw.window n i b evs hin
  unfold horizon at hpast
  have := hno n i b evs (hin.restrict hext (by omega))
  omega

/-- What `find_pending` says about a chain, at every head. -/
structure FindsPending (c : Finalized) (p : PendingTx) : Prop where
  /-- What is in a block up to the head, is included. -/
  found : ∀ head n i b evs, head < c.blocks.length → c.Holds p n i b evs → n ≤ head →
    c.findPending head p = (EventSummary.fromEvents evs).map (.included b.hash)
  /-- What is included, is in a block up to the head. -/
  included : ∀ head blockHash s, head < c.blocks.length →
    c.findPending head p = .ok (.included blockHash s) →
    ∃ n i b evs, n ≤ head ∧ c.Holds p n i b evs ∧ b.hash = blockHash ∧
      EventSummary.fromEvents evs = .ok s
  /-- What is dead, is in no chain to come, and stays dead. -/
  dead : ∀ head, head < c.blocks.length → c.findPending head p = .ok .dead →
    ∀ c', c.Extends c' → c'.Windowed p → (∀ n i b evs, ¬ c'.Holds p n i b evs) ∧
      ∀ head', head ≤ head' → head' < c'.blocks.length → c'.findPending head' p = .ok .dead
  /-- Otherwise the answer is to wait, until the window is over. -/
  waits : ∀ head, head < c.blocks.length → (∀ n i b evs, c.Holds p n i b evs → head < n) →
    c.findPending head p = .ok .dead ∨ c.findPending head p = .ok .wait
  wait : ∀ head, head < c.blocks.length → c.findPending head p = .ok .wait → head ≤ horizon p

/-- `find_pending` is sound and complete on every chain that holds the extrinsic at most
once and in its window, and an error for a birth too close to the largest `u64`. -/
theorem findPending_exact (hw : c.Windowed p) :
    (horizon p < 2 ^ 64 → c.FindsPending p) ∧
      (2 ^ 64 ≤ horizon p → ∀ head, ∃ e, c.findPending head p = .error e) := by
  refine ⟨fun hsmall => ?_, fun hlarge head => ⟨_, findPending_overflow hlarge⟩⟩
  -- every head either sees the extrinsic or not
  have hcases (head : ℕ) : (∃ n i b evs, c.Holds p n i b evs ∧ n ≤ head) ∨
      ∀ n i b evs, c.Holds p n i b evs → head < n := by
    by_cases h : ∃ n i b evs, c.Holds p n i b evs ∧ n ≤ head
    · exact .inl h
    · refine .inr fun n i b evs hin => Nat.lt_of_not_le fun hle => h ⟨n, i, b, evs, hin, hle⟩
  -- an answer that does not come from events says that nothing is there
  have habsent {head : ℕ} {o : PendingOutcome} (h : c.findPending head p = .ok o)
      (ho : ∀ blockHash s, o ≠ .included blockHash s) :
      ∀ n i b evs, c.Holds p n i b evs → head < n := by
    refine (hcases head).resolve_left ?_
    rintro ⟨n, i, b, evs, hin, hle⟩
    rw [hw.findPending_found hsmall hin hle] at h
    cases hs : EventSummary.fromEvents evs with
    | error e =>
        rw [hs] at h
        cases h
    | ok s =>
        rw [hs] at h
        cases h
        exact ho _ _ rfl
  refine ⟨fun head n i b evs _ hin hn => hw.findPending_found hsmall hin hn,
    fun head blockHash s _ h => ?_, fun head hhead h c' hext hw' => ?_, fun head _ hno => ?_,
    fun head _ h => ?_⟩
  · rcases hcases head with ⟨n, i, b, evs, hin, hle⟩ | hno
    · rw [hw.findPending_found hsmall hin hle] at h
      cases hs : EventSummary.fromEvents evs with
      | error e =>
          rw [hs] at h
          cases h
      | ok s' =>
          rw [hs] at h
          cases h
          exact ⟨n, i, b, evs, hle, hin, rfl, hs⟩
    · rw [findPending_absent hsmall hno] at h
      split at h <;> cases h
  · have hno := habsent h fun _ _ => by nofun
    rw [findPending_absent hsmall hno] at h
    split at h
    next hpast =>
      have hnever := not_holds_of_past hext hw' hhead hpast hno
      refine ⟨hnever, fun head' hle _ => ?_⟩
      rw [findPending_absent hsmall fun n i b evs hin => absurd hin (hnever n i b evs),
        if_pos (by omega)]
    next => cases h
  · rw [findPending_absent hsmall hno]
    split
    · exact .inl rfl
    · exact .inr rfl
  · have hno := habsent h fun _ _ => by nofun
    rw [findPending_absent hsmall hno] at h
    split at h
    next => cases h
    next hpast => exact Nat.not_lt.mp hpast

/-- A journal born in the first block. -/
def samplePending : PendingTx := ⟨.fund, some "t", "xx", 0, "0x", 0, 1500⟩

/-- A chain whose second block holds the extrinsic. -/
def sampleIncluded : Finalized where
  blocks := [⟨"b", by decide, []⟩, ⟨"b'", by decide, [("0x", [])]⟩]
  signed := []
  submitted := []
  free _ := 0
  existentialDeposit := 500

theorem sampleIncluded_windowed : sampleIncluded.Windowed samplePending := by
  have hat {n i : ℕ} {b : Block} {evs : Events} (h : sampleIncluded.Holds samplePending n i b evs) :
      n = 1 ∧ i = 0 := by
    obtain ⟨hb, hx⟩ := h
    rcases n with _ | _ | n
    · cases hb
      cases hx
    · cases hb
      rcases i with _ | i
      · exact ⟨rfl, rfl⟩
      · cases hx
    · cases hb
  refine ⟨fun n i b evs h => ?_, fun n i b evs n' i' b' evs' h h' => ?_⟩
  · obtain ⟨rfl, -⟩ := hat h
    decide
  · obtain ⟨rfl, rfl⟩ := hat h
    obtain ⟨rfl, rfl⟩ := hat h'
    exact ⟨rfl, rfl⟩

/-- The scan of that chain. -/
theorem sampleIncluded_finds : sampleIncluded.FindsPending samplePending :=
  (findPending_exact sampleIncluded_windowed).1 (by decide)

end Finalized

end Buyback
