import Buyback.Run.Known

/-!
# What the chain has told

The finalized chain is consistent in every run: an extrinsic of the engines is in
at most one block, after it was submitted and before it died.  So what the chain
once told a process stays true: a success, an inclusion, and above all a death.
-/

namespace Buyback

open Resumption

namespace Finalized

variable {c : Finalized} {hash : String} {evs : Events} {b : Block}
  {free : AccountId32 → UInt64}

/-! ## Inclusion -/

theorem included_append :
    (c.append b free).Included hash evs ↔ c.Included hash evs ∨ (hash, evs) ∈ b.extrinsics := by
  simp only [Included, append, List.mem_append, List.mem_singleton]
  constructor
  · rintro ⟨b', hb | rfl, hmem⟩
    · exact .inl ⟨b', hb, hmem⟩
    · exact .inr hmem
  · rintro (⟨b', hb, hmem⟩ | hmem)
    · exact ⟨b', .inl hb, hmem⟩
    · exact ⟨b, .inr rfl, hmem⟩

theorem Included.append (h : c.Included hash evs) : (c.append b free).Included hash evs :=
  included_append.mpr (.inl h)

theorem PastMortality.append {birth : UInt64} (h : c.PastMortality birth) :
    (c.append b free).PastMortality birth := by
  simp only [PastMortality, Finalized.append, List.length_append, List.length_singleton] at h ⊢
  omega

/-- The extrinsic `hash` finalized with success. -/
def Succeeded (c : Finalized) (hash : String) : Prop :=
  ∃ evs, c.Included hash evs ∧ Events.failed evs = false

/-- The extrinsic `hash` finalized as a dispatch failure. -/
def Rejected (c : Finalized) (hash : String) : Prop :=
  ∃ evs, c.Included hash evs ∧ Events.failed evs = true

/-- The extrinsic of the journal is in no block, and comes too late for a new one. -/
structure Lost (c : Finalized) (p : PendingTx) : Prop where
  past : c.PastMortality p.birthBlock
  absent : ∀ evs, ¬ c.Included p.txHash evs

/-- The extrinsic of the journal has no effect and never gets one. -/
def Void (c : Finalized) (p : PendingTx) : Prop := c.Lost p ∨ c.Rejected p.txHash

/-- One of the signed extrinsics is that of the journal. -/
def Backs (c : Finalized) (p : PendingTx) : Prop :=
  ∃ tx ∈ c.signed, tx.txHash = p.txHash ∧ tx.birthBlock = p.birthBlock ∧ tx.signer = p.signer

/-! ## Consistency -/

/-- What the rules of the chain make of its blocks. -/
structure Consistent (c : Finalized) : Prop where
  hashes : ∀ tx ∈ c.signed, ∀ tx' ∈ c.signed, tx.txHash = tx'.txHash → tx = tx'
  sent : ∀ tx ∈ c.signed, ∀ evs, c.Included tx.txHash evs → tx ∈ c.submitted
  once : ∀ tx ∈ c.signed, ∀ evs evs', c.Included tx.txHash evs → c.Included tx.txHash evs' →
    evs = evs'
  window : ∀ tx ∈ c.signed, ∀ n b evs, c.blocks[n]? = some b → (tx.txHash, evs) ∈ b.extrinsics →
    tx.birthBlock.toNat ≤ n ∧ n ≤ tx.birthBlock.toNat + mortality.toNat

namespace Consistent

theorem fresh (h : c.signed = []) : c.Consistent := by
  constructor <;> (rw [h]; intro tx htx; cases htx)

theorem sign (hc : c.Consistent) {call : ChainCall} {tx : PreparedTx} (hs : c.Signs call tx) :
    Consistent { c with signed := tx :: c.signed } where
  hashes tx₁ h₁ tx₂ h₂ heq := by
    cases h₁ with
    | head =>
        cases h₂ with
        | head => rfl
        | tail _ h₂ => exact absurd heq.symm (hs.fresh tx₂ h₂)
    | tail _ h₁ =>
        cases h₂ with
        | head => exact absurd heq (hs.fresh tx₁ h₁)
        | tail _ h₂ => exact hc.hashes tx₁ h₁ tx₂ h₂ heq
  sent tx' h evs hin := by
    cases h with
    | head => exact absurd hin (hs.absent evs)
    | tail _ h => exact hc.sent tx' h evs hin
  once tx' h evs evs' hin hin' := by
    cases h with
    | head => exact absurd hin (hs.absent evs)
    | tail _ h => exact hc.once tx' h evs evs' hin hin'
  window tx' h n b evs hb hmem := by
    cases h with
    | head => exact absurd ⟨b, List.mem_of_getElem? hb, hmem⟩ (hs.absent evs)
    | tail _ h => exact hc.window tx' h n b evs hb hmem

theorem submit (hc : c.Consistent) (tx : PreparedTx) :
    Consistent { c with submitted := tx :: c.submitted } where
  hashes := hc.hashes
  sent tx' h evs hin := .tail _ (hc.sent tx' h evs hin)
  once := hc.once
  window := hc.window

theorem append [Ss58] (hc : c.Consistent) {own : AccountId32 → Prop}
    (ha : c.Appends own b free) : (c.append b free).Consistent where
  hashes := hc.hashes
  sent tx h evs hin := by
    rcases included_append.mp hin with hin | hmem
    · exact hc.sent tx h evs hin
    · exact ha.submitted tx h evs hmem
  once tx h evs evs' hin hin' := by
    rcases included_append.mp hin with hin | hmem
    · rcases included_append.mp hin' with hin' | hmem'
      · exact hc.once tx h evs evs' hin hin'
      · exact absurd hin ((ha.once tx h evs' hmem').1 evs)
    · rcases included_append.mp hin' with hin' | hmem'
      · exact absurd hin' ((ha.once tx h evs hmem).1 evs')
      · exact ((ha.once tx h evs hmem).2 evs' hmem').symm
  window tx h n b' evs hb hmem := by
    simp only [Finalized.append] at hb
    by_cases hn : n < c.blocks.length
    · rw [List.getElem?_append_left hn] at hb
      exact hc.window tx h n b' evs hb hmem
    · rw [List.getElem?_append_right (Nat.le_of_not_lt hn)] at hb
      obtain ⟨hlt, heq⟩ := List.getElem?_eq_some_iff.mp hb
      have hzero : n - c.blocks.length = 0 := by simpa using hlt
      have hn : n = c.blocks.length := by omega
      have heq : b = b' := by simpa [hzero] using heq
      subst heq
      obtain ⟨hbirth, hpast⟩ := ha.window tx h evs hmem
      simp only [PastMortality, Nat.not_lt] at hpast
      exact ⟨hn ▸ hbirth, hn ▸ hpast⟩

end Consistent

/-! ## What stays true -/

theorem Succeeded.append (h : c.Succeeded hash) : (c.append b free).Succeeded hash := by
  obtain ⟨evs, hin, hok⟩ := h
  exact ⟨evs, hin.append, hok⟩

theorem Rejected.append (h : c.Rejected hash) : (c.append b free).Rejected hash := by
  obtain ⟨evs, hin, hfailed⟩ := h
  exact ⟨evs, hin.append, hfailed⟩

theorem Succeeded.of_blocks {c' : Finalized} (hs : c.Succeeded hash) (h : c'.blocks = c.blocks) :
    c'.Succeeded hash := by
  simpa only [Succeeded, Included, h] using hs

theorem Void.of_blocks {c' : Finalized} {p : PendingTx} (hv : c.Void p)
    (h : c'.blocks = c.blocks) : c'.Void p := by
  rcases hv with ⟨hpast, habsent⟩ | hrejected
  · refine .inl ⟨?_, ?_⟩
    · simpa only [PastMortality, h] using hpast
    · simpa only [Included, h] using habsent
  · right
    simpa only [Rejected, Included, h] using hrejected

/-- What died stays dead: its window is over. -/
theorem Lost.append [Ss58] {p : PendingTx} {own : AccountId32 → Prop} (h : c.Lost p)
    (hp : c.Backs p) (ha : c.Appends own b free) : (c.append b free).Lost p where
  past := h.past.append
  absent evs hin := by
    obtain ⟨tx, htx, hhash, hbirth, -⟩ := hp
    rcases included_append.mp hin with hin | hmem
    · exact h.absent evs hin
    · exact (ha.window tx htx evs (hhash ▸ hmem)).2 (hbirth ▸ h.past)

theorem Void.append [Ss58] {p : PendingTx} {own : AccountId32 → Prop} (h : c.Void p)
    (hp : c.Backs p) (ha : c.Appends own b free) : (c.append b free).Void p :=
  h.imp (·.append hp ha) (·.append)

/-- What is void has not succeeded. -/
theorem Void.not_succeeded {p : PendingTx} (h : c.Void p) (hc : c.Consistent) (hp : c.Backs p) :
    ¬ c.Succeeded p.txHash := by
  rintro ⟨evs, hin, hok⟩
  obtain ⟨tx, htx, hhash, -⟩ := hp
  rcases h with h | ⟨evs', hin', hfailed⟩
  · exact h.absent evs hin
  · rw [hc.once tx htx evs evs' (hhash ▸ hin) (hhash ▸ hin'), hfailed] at hok
    cases hok

end Finalized

/-! ## The answers in the trace -/

variable [Ss58] {set : Setting}

/-- A request adds no block. -/
theorem Effect.blocks_eq {w w' : World} {e : Entry} {h : History rpc} {ev : Event rpc}
    (he : Effect set w e h ev w') : w'.chain.blocks = w.chain.blocks := by
  cases he <;> rfl

/-- Everything the chain has told the processes is true. -/
structure Told (v : View set) : Prop where
  consistent : v.state.chain.Consistent
  success : ∀ i tx blockHash evs,
    (i, ⟨.chain (.waitForSuccess tx), .ok (blockHash, evs)⟩) ∈ v.trace →
    Events.failed evs = false ∧ v.state.chain.Included tx.txHash evs
  found : ∀ i p blockHash s,
    (i, ⟨.chain (.findPending p), .ok (.included blockHash s)⟩) ∈ v.trace →
    ∃ evs, v.state.chain.Included p.txHash evs ∧ EventSummary.fromEvents evs = .ok s
  dead : ∀ i p, (i, ⟨.chain (.findPending p), .ok .dead⟩) ∈ v.trace →
    v.state.chain.PastMortality p.birthBlock ∧ (v.state.chain.Backs p → v.state.chain.Lost p)

namespace Told

variable {v : View set}

/-- An answer that is true when it is given. -/
theorem answered (ht : Told v) {i : ℕ} {o : ChainOp} {a : Result o.Ret}
    (ha : v.state.chain.Answers o a) (ts : List String) :
    Told
      (⟨{ v.state with tokens := ts }, v.entries, (i, ⟨.chain o, a⟩) :: v.trace⟩ : View set) where
  consistent := ht.consistent
  success j tx blockHash evs hmem := by
    rcases List.mem_cons.mp hmem with heq | hmem
    · cases heq
      obtain ⟨hok, b, hb, -, hin⟩ := ha
      exact ⟨hok, b, hb, hin⟩
    · exact ht.success j tx blockHash evs hmem
  found j p blockHash s hmem := by
    rcases List.mem_cons.mp hmem with heq | hmem
    · cases heq
      obtain ⟨head, -, hfind⟩ := ha
      obtain ⟨b, hb, -, evs, hin, hs⟩ := Finalized.findPending_included hfind
      exact ⟨evs, ⟨b, hb, hin⟩, hs⟩
    · exact ht.found j p blockHash s hmem
  dead j p hmem := by
    rcases List.mem_cons.mp hmem with heq | hmem
    · cases heq
      obtain ⟨head, hhead, hfind⟩ := ha
      obtain ⟨hpast, habsent⟩ := Finalized.findPending_dead hhead hfind
      refine ⟨hpast, fun hp => ⟨hpast, fun evs hin => ?_⟩⟩
      obtain ⟨tx, htx, hhash, hbirth, -⟩ := hp
      obtain ⟨b, hb, hmem⟩ := hin
      obtain ⟨n, hn⟩ := List.mem_iff_getElem?.mp hb
      obtain ⟨hlo, hhi⟩ := ht.consistent.window tx htx n b evs hn (hhash ▸ hmem)
      exact habsent n b (hbirth ▸ hlo) (hbirth ▸ hhi) hn evs hmem
    · exact ht.dead j p hmem

/-- An event that is no answer of the chain says nothing about it. -/
theorem other (ht : Told v) {i : ℕ} {ev : Event rpc} (w' : World)
    (hchain : w'.chain = v.state.chain) (hev : ∀ o a, ev ≠ ⟨.chain o, a⟩) :
    Told (⟨w', v.entries, (i, ev) :: v.trace⟩ : View set) := by
  have hmem {j : ℕ} {o : ChainOp} {a : Result o.Ret}
      (h : (j, ⟨.chain o, a⟩) ∈ (i, ev) :: v.trace) : (j, ⟨.chain o, a⟩) ∈ v.trace := by
    rcases List.mem_cons.mp h with heq | h
    · exact absurd (congrArg Prod.snd heq).symm (hev o a)
    · exact h
  refine ⟨?_, ?_, ?_, ?_⟩
  all_goals dsimp only; rw [hchain]
  · exact ht.consistent
  · exact fun j tx blockHash evs h => ht.success j tx blockHash evs (hmem h)
  · exact fun j p blockHash s h => ht.found j p blockHash s (hmem h)
  · exact fun j p h => ht.dead j p (hmem h)

theorem prepared (ht : Told v) {i : ℕ} {call : ChainCall} {signer : Keypair} {tx : PreparedTx}
    (hs : v.state.chain.Signs call tx) :
    Told (⟨{ v.state with chain := { v.state.chain with signed := tx :: v.state.chain.signed } },
      v.entries, (i, ⟨.chain (.prepare call signer), .ok tx⟩) :: v.trace⟩ : View set) where
  consistent := ht.consistent.sign hs
  success j tx' blockHash evs hmem := by
    rcases List.mem_cons.mp hmem with heq | hmem
    · cases heq
    · exact ht.success j tx' blockHash evs hmem
  found j p blockHash s hmem := by
    rcases List.mem_cons.mp hmem with heq | hmem
    · cases heq
    · exact ht.found j p blockHash s hmem
  dead j p hmem := by
    rcases List.mem_cons.mp hmem with heq | hmem
    · cases heq
    · obtain ⟨hpast, hlost⟩ := ht.dead j p hmem
      refine ⟨hpast, fun hp => ⟨hpast, ?_⟩⟩
      obtain ⟨tx', htx', hhash, hrest⟩ := hp
      rcases List.mem_cons.mp htx' with rfl | htx'
      · exact hhash ▸ hs.absent
      · exact (hlost ⟨tx', htx', hhash, hrest⟩).absent

theorem submitted (ht : Told v) {i : ℕ} {tx : PreparedTx} {a : Result Unit} :
    Told (⟨{ v.state with
        chain := { v.state.chain with submitted := tx :: v.state.chain.submitted } },
      v.entries, (i, ⟨.chain (.submitAndWatch tx), a⟩) :: v.trace⟩ : View set) where
  consistent := ht.consistent.submit tx
  success j tx' blockHash evs hmem := by
    rcases List.mem_cons.mp hmem with heq | hmem
    · cases heq
    · exact ht.success j tx' blockHash evs hmem
  found j p blockHash s hmem := by
    rcases List.mem_cons.mp hmem with heq | hmem
    · cases heq
    · exact ht.found j p blockHash s hmem
  dead j p hmem := by
    rcases List.mem_cons.mp hmem with heq | hmem
    · cases heq
    · obtain ⟨hpast, hlost⟩ := ht.dead j p hmem
      exact ⟨hpast, fun hp => ⟨hpast, (hlost hp).absent⟩⟩

theorem appended (ht : Told v) {b : Block} {free : AccountId32 → UInt64}
    (ha : v.state.chain.Appends set.own b free) :
    Told ({ v with state := { v.state with chain := v.state.chain.append b free } } :
      View set) where
  consistent := ht.consistent.append ha
  success j tx blockHash evs hmem := by
    obtain ⟨hok, hin⟩ := ht.success j tx blockHash evs hmem
    exact ⟨hok, hin.append⟩
  found j p blockHash s hmem := by
    obtain ⟨evs, hin, hs⟩ := ht.found j p blockHash s hmem
    exact ⟨evs, hin.append, hs⟩
  dead j p hmem := by
    obtain ⟨hpast, hlost⟩ := ht.dead j p hmem
    exact ⟨hpast.append, fun hp => (hlost hp).append hp ha⟩

/-- What a process saw land with success has succeeded. -/
theorem succeeded (ht : Told v) {i : ℕ} {p : PendingTx} {blockHash : String} {s : EventSummary}
    (hl : Landed (historyOf v.trace i) p blockHash s) (hok : s.failed = false) :
    v.state.chain.Succeeded p.txHash := by
  cases hl with
  | broadcast hmem hhash _ =>
      obtain ⟨hevs, hin⟩ := ht.success i _ _ _ (mem_historyOf.mp hmem)
      exact ⟨_, hhash ▸ hin, hevs⟩
  | found hmem =>
      obtain ⟨evs, hin, hs⟩ := ht.found i _ _ _ (mem_historyOf.mp hmem)
      exact ⟨evs, hin, (EventSummary.fromEvents_failed hs).symm.trans hok⟩

/-- What a process saw land as a failure was rejected. -/
theorem rejected (ht : Told v) {i : ℕ} {p : PendingTx} {blockHash : String} {s : EventSummary}
    (hl : Landed (historyOf v.trace i) p blockHash s) (hfailed : s.failed = true) :
    v.state.chain.Rejected p.txHash := by
  cases hl with
  | broadcast hmem _ hs =>
      obtain ⟨hevs, -⟩ := ht.success i _ _ _ (mem_historyOf.mp hmem)
      rw [EventSummary.fromEvents_failed hs, hevs] at hfailed
      cases hfailed
  | found hmem =>
      obtain ⟨evs, hin, hs⟩ := ht.found i _ _ _ (mem_historyOf.mp hmem)
      exact ⟨evs, hin, (EventSummary.fromEvents_failed hs).symm.trans hfailed⟩

/-- What a process saw dead, or land as a failure, is void. -/
theorem void (ht : Told v) {i : ℕ} {p : PendingTx} (hp : v.state.chain.Backs p)
    (hgone : ⟨.chain (.findPending p), .ok .dead⟩ ∈ historyOf v.trace i ∨
      ∃ blockHash s, Landed (historyOf v.trace i) p blockHash s ∧ s.failed = true) :
    v.state.chain.Void p := by
  rcases hgone with hdead | ⟨blockHash, s, hl, hfailed⟩
  · exact .inl ((ht.dead i p (mem_historyOf.mp hdead)).2 hp)
  · exact .inr (ht.rejected hl hfailed)

end Told

theorem Runs.told (htruth : set.truthful) {v : View set} (h : Runs set v) : Told v := by
  refine h.rule (P := Told) ?_ ?_ ?_ ?_
  · intro w hw
    refine ⟨.fresh hw.2.1, ?_, ?_, ?_⟩ <;> (intros; contradiction)
  · exact fun v e _ ih => ⟨ih.consistent, ih.success, ih.found, ih.dead⟩
  · intro v i e ev w' _ ih _ _ heff
    cases heff with
    | silent hs _ =>
        cases hs with
        | answered ha => exact ih.answered ha _
        | claimed hfalse => exact absurd htruth hfalse
        | _ => exact ih.other _ rfl (by rintro _ _ ⟨⟩)
    | prepared hs => exact ih.prepared hs
    | submitted => exact ih.submitted
    | _ => exact ih.other _ rfl (by rintro _ _ ⟨⟩)
  · exact fun v b free _ ih ha => ih.appended ha

end Buyback
