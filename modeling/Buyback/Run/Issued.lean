import Buyback.Record.Once
import Buyback.Run.Told

/-!
# The journals of a run

`Issued` reads the journals off the trace: the extrinsics a process has stored
before it sent them.  Each is issued once, by one process and for one job, its
hash is new, and nothing is submitted that was not issued.

The proof turns on the prepared extrinsic a process holds between its preparation
and its journal.  No other process holds it and no journal has it.
-/

namespace Buyback

open Resumption

/-- The event stores the journal `p` for the job `j`. -/
def Issues (ev : Event rpc) (j : String) (p : PendingTx) : Prop :=
  ∃ rec t, ev = ⟨.store (.update rec), .ok t⟩ ∧ rec.id = j ∧ rec.pending = some p

/-- The process `i` has stored the journal `p` for the job `j`. -/
def Issued (trace : List (Nat × Event rpc)) (i : ℕ) (j : String) (p : PendingTx) : Prop :=
  ∃ ev, (i, ev) ∈ trace ∧ Issues ev j p

/-- The last thing the process did was to prepare `tx`. -/
def Prepares (h : History rpc) (tx : PreparedTx) : Prop :=
  ∃ call signer rest, h = ⟨.chain (.prepare call signer), .ok tx⟩ :: rest

section Trace

variable {trace : List (Nat × Event rpc)} {i k : ℕ} {ev : Event rpc} {j j' : String}
  {p p' : PendingTx} {tx : PreparedTx}

theorem Issues.inj (h : Issues ev j p) (h' : Issues ev j' p') : j = j' ∧ p = p' := by
  obtain ⟨rec, t, rfl, rfl, hp⟩ := h
  obtain ⟨rec', t', heq, rfl, hp'⟩ := h'
  cases heq
  exact ⟨rfl, Option.some.inj (hp.symm.trans hp')⟩

theorem issued_cons :
    Issued ((k, ev) :: trace) i j p ↔ i = k ∧ Issues ev j p ∨ Issued trace i j p := by
  constructor
  · rintro ⟨ev', hmem, hi⟩
    rcases List.mem_cons.mp hmem with heq | hmem
    · cases heq
      exact .inl ⟨rfl, hi⟩
    · exact .inr ⟨ev', hmem, hi⟩
  · rintro (⟨rfl, hi⟩ | ⟨ev', hmem, hi⟩)
    · exact ⟨ev, .head _, hi⟩
    · exact ⟨ev', .tail _ hmem, hi⟩

theorem Issued.cons (h : Issued trace i j p) : Issued ((k, ev) :: trace) i j p :=
  issued_cons.mpr (.inr h)

theorem not_issued_nil : ¬ Issued [] i j p := by
  rintro ⟨ev, hmem, -⟩
  cases hmem

/-- The history of a process after an event is the event on its history, or its history. -/
theorem prepares_cons (h : Prepares (historyOf ((k, ev) :: trace) i) tx) :
    (i = k ∧ ∃ call signer, ev = ⟨.chain (.prepare call signer), .ok tx⟩) ∨
      (i ≠ k ∧ Prepares (historyOf trace i) tx) := by
  by_cases hik : i = k
  · subst hik
    obtain ⟨call, signer, rest, heq⟩ := h
    rw [historyOf_cons_self] at heq
    exact .inl ⟨rfl, call, signer, (List.cons.inj heq).1⟩
  · rw [historyOf_cons_ne (Ne.symm hik)] at h
    exact .inr ⟨hik, h⟩

end Trace

variable [Ss58] {set : Setting}

/-- How a journal comes to be stored: the process has reserved the signer and
prepared the extrinsic, and the job has none in flight. -/
structure Launch (w : World) (h : History rpc) (j : String) (p : PendingTx) : Prop where
  prepared : ∃ call signer tx token r action rest,
    h = ⟨.chain (.prepare call signer), .ok tx⟩ ::
      ⟨.store (.reserveSignerForRecord (ss58 signer) r), .ok token⟩ :: rest ∧
    r.id = j ∧ tx.signer = ss58 signer ∧ p = tx.journal action call token
  old : ∃ r, w.store.get j = some r ∧ r.Sound ∧ r.pending = none ∧ r.quarantined = none

theorem Effect.launch {w w' : World} {e : Entry} {h : History rpc} {ev : Event rpc} {j : String}
    {p : PendingTx} (he : Effect set w e h ev w') (hi : Issues ev j p) : Launch w h j p := by
  obtain ⟨rec, t, rfl, rfl, hp⟩ := hi
  cases he with
  | silent hs _ => cases hs
  | @wrote r _ _ _ _ hcur hid hs _ hw _ _ =>
      cases hs.flight hw with
      | none _ hnone _ => rw [hnone] at hp; cases hp
      | booked _ _ _ hnone _ _ => rw [hnone] at hp; cases hp
      | dropped _ _ hnone _ => rw [hnone] at hp; cases hp
      | issued hh hr' hsigner hpending hquarantined hnew _ =>
          rw [hnew] at hp
          cases hp
          exact ⟨⟨_, _, _, _, _, _, _, hh, hr'.trans hid.symm, hsigner, rfl⟩,
            ⟨r, hid ▸ hcur, hs, hpending, hquarantined⟩⟩

/-- What the records of the store have was once journaled. -/
structure Traced (v : View set) : Prop where
  pending : ∀ j r p, v.state.store.get j = some r → r.pending = some p → ∃ i, Issued v.trace i j p
  receipts : ∀ j r t, v.state.store.get j = some r → t ∈ r.txs →
    ∃ i p, Issued v.trace i j p ∧ p.txHash = t.txHash

/-- The journals of a run and the extrinsics that were prepared, signed and sent. -/
structure Journals (v : View set) : Prop where
  backs : ∀ i j p, Issued v.trace i j p → v.state.chain.Backs p
  holds : ∀ i tx, Prepares (historyOf v.trace i) tx →
    tx ∈ v.state.chain.signed ∧ ∀ k j p, Issued v.trace k j p → p.txHash ≠ tx.txHash
  apart : ∀ i i' tx tx', i ≠ i' → Prepares (historyOf v.trace i) tx →
    Prepares (historyOf v.trace i') tx' → tx.txHash ≠ tx'.txHash
  unique : ∀ i j p i' j' p', Issued v.trace i j p → Issued v.trace i' j' p' →
    p.txHash = p'.txHash → i = i' ∧ j = j' ∧ p = p'
  sent : ∀ tx ∈ v.state.chain.submitted, ∃ i j p, Issued v.trace i j p ∧ p.txHash = tx.txHash
  unsent : ∀ i ev rest j p, historyOf v.trace i = ev :: rest → Issues ev j p →
    ∀ tx ∈ v.state.chain.submitted, tx.txHash ≠ p.txHash

theorem Traced.event {v : View set} (ht : Traced v) {i : ℕ} {e : Entry} {ev : Event rpc}
    {w' : World} (he : Effect set v.state e (historyOf v.trace i) ev w') :
    Traced (⟨w', v.entries, (i, ev) :: v.trace⟩ : View set) where
  pending j r p hr hp := by
    rcases he.origin hr with hold | ⟨hc, -⟩ | ⟨old, new, now, -, hid, -, -, -, rfl, rfl⟩
    · obtain ⟨k, h⟩ := ht.pending j r p hold hp
      exact ⟨k, h.cons⟩
    · cases hc <;> cases hp
    · exact ⟨i, _, .head _, new, now, rfl, hid, hp⟩
  receipts j r t hr htx := by
    rcases he.origin hr with hold | ⟨hc, -⟩ | ⟨old, new, now, hold, -, hs, -, hw, rfl, rfl⟩
    · obtain ⟨k, p, h, hhash⟩ := ht.receipts j r t hold htx
      exact ⟨k, p, h.cons, hhash⟩
    · cases hc <;> cases htx
    · have hold_of {t : TxRef} (htx : t ∈ old.txs) :
          ∃ k p, Issued ((i, ⟨.store (.update new), .ok now⟩) :: v.trace) k j p ∧
            p.txHash = t.txHash := by
        obtain ⟨k, p, h, hhash⟩ := ht.receipts j old t hold htx
        exact ⟨k, p, h.cons, hhash⟩
      cases hs.flight hw with
      | none _ _ htxs => exact hold_of (htxs ▸ htx)
      | issued _ _ _ _ _ _ htxs => exact hold_of (htxs ▸ htx)
      | dropped _ _ _ htxs => exact hold_of (htxs ▸ htx)
      | booked hp _ _ _ htxs _ =>
          have htx : t ∈ new.txs := htx
          rw [htxs] at htx
          rcases List.mem_append.mp htx with htx | htx
          · exact hold_of htx
          · obtain ⟨k, h⟩ := ht.pending j old _ hold hp
            rw [List.mem_singleton] at htx
            exact ⟨k, _, h.cons, htx ▸ rfl⟩

theorem Runs.traced {v : View set} (h : Runs set v) : Traced v := by
  refine h.rule (P := Traced) ?_ ?_ ?_ ?_
  · intro w hw
    have hget {j : String} {r : PaymentRecord} : w.store.get j ≠ some r := by
      rw [hw.1]
      exact nofun
    exact ⟨fun j r p hr => absurd hr hget, fun j r t hr => absurd hr hget⟩
  · exact fun v e _ ih => ⟨ih.pending, ih.receipts⟩
  · exact fun v i e ev w' _ ih _ _ he => ih.event he
  · exact fun v b free _ ih _ => ⟨ih.pending, ih.receipts⟩

namespace Journals

variable {v : View set}

/-- Nothing is submitted but by the process that has just stored its journal. -/
theorem submits {e : Entry} {i : ℕ} {tx : PreparedTx}
    (hg : e.Allows (historyOf v.trace i) (.chain (.submitAndWatch tx))) :
    ∃ ev rest j p, historyOf v.trace i = ev :: rest ∧ Issues ev j p ∧ p.txHash = tx.txHash := by
  generalize historyOf v.trace i = h at hg
  cases hg with
  | plain _ hplain => cases hplain
  | submit => exact ⟨_, _, _, _, rfl, ⟨_, _, rfl, rfl, rfl⟩, rfl⟩

theorem issued_head {i : ℕ} {ev : Event rpc} {rest : History rpc} {j : String} {p : PendingTx}
    (h : historyOf v.trace i = ev :: rest) (hi : Issues ev j p) : Issued v.trace i j p :=
  ⟨ev, mem_historyOf.mp (h ▸ List.mem_cons_self), hi⟩

variable {i : ℕ} {e : Entry} {ev : Event rpc} {w' : World}

/-- The hash of a journal that is stored is new. -/
theorem fresh (hj : Journals v) (he : Effect set v.state e (historyOf v.trace i) ev w')
    {j : String} {p : PendingTx} (hi : Issues ev j p) :
    ∃ tx, Prepares (historyOf v.trace i) tx ∧ p.txHash = tx.txHash ∧ v.state.chain.Backs p ∧
      ∀ k j' p', Issued v.trace k j' p' → p'.txHash ≠ p.txHash := by
  obtain ⟨call, signer, tx, token, r, action, rest, hh, -, -, rfl⟩ := (he.launch hi).prepared
  have hprep : Prepares (historyOf v.trace i) tx := ⟨call, signer, _, hh⟩
  obtain ⟨hsigned, hnew⟩ := hj.holds i tx hprep
  exact ⟨tx, hprep, rfl, ⟨tx, hsigned, rfl, rfl, rfl⟩, hnew⟩

/-- A request signs a new extrinsic, or the signed ones are the same. -/
theorem signed_cases (htruth : set.truthful)
    (he : Effect set v.state e (historyOf v.trace i) ev w') :
    v.state.chain.signed ⊆ w'.chain.signed ∧
      ∀ call signer tx, ev = ⟨.chain (.prepare call signer), .ok tx⟩ →
        tx ∈ w'.chain.signed ∧ ∀ tx' ∈ v.state.chain.signed, tx'.txHash ≠ tx.txHash := by
  cases he with
  | silent hs _ =>
      refine ⟨List.Subset.refl _, ?_⟩
      rintro call signer tx rfl
      cases hs with
      | answered ha => cases ha
      | claimed hfalse => exact absurd htruth hfalse
  | prepared hs =>
      refine ⟨List.subset_cons_self _ _, ?_⟩
      rintro call signer tx heq
      cases heq
      exact ⟨.head _, hs.fresh⟩
  | _ => exact ⟨List.Subset.refl _, by rintro _ _ _ ⟨⟩⟩

theorem submitted_cases (he : Effect set v.state e (historyOf v.trace i) ev w') {tx : PreparedTx}
    (htx : tx ∈ w'.chain.submitted) :
    tx ∈ v.state.chain.submitted ∨ ∃ a, ev = ⟨.chain (.submitAndWatch tx), a⟩ := by
  cases he with
  | submitted =>
      cases htx with
      | head => exact .inr ⟨_, rfl⟩
      | tail _ htx => exact .inl htx
  | _ => exact .inl htx

theorem event (htruth : set.truthful) (hj : Journals v) (hg : e.Allows (historyOf v.trace i) ev.1)
    (he : Effect set v.state e (historyOf v.trace i) ev w') :
    Journals (⟨w', v.entries, (i, ev) :: v.trace⟩ : View set) := by
  obtain ⟨hsigned, hprepared⟩ := signed_cases htruth he
  have hbacks {p : PendingTx} (h : v.state.chain.Backs p) : w'.chain.Backs p := by
    obtain ⟨tx, htx, hrest⟩ := h
    exact ⟨tx, hsigned htx, hrest⟩
  constructor
  case backs =>
    intro k j p h
    rcases issued_cons.mp h with ⟨rfl, hi⟩ | hold
    · obtain ⟨tx, -, -, hp, -⟩ := hj.fresh he hi
      exact hbacks hp
    · exact hbacks (hj.backs k j p hold)
  case holds =>
    intro k tx hprep
    rcases prepares_cons hprep with ⟨rfl, call, signer, rfl⟩ | ⟨hne, hold⟩
    · obtain ⟨hin, hnew⟩ := hprepared call signer tx rfl
      refine ⟨hin, fun k' j p h => ?_⟩
      rcases issued_cons.mp h with ⟨-, rec, t, heq, -⟩ | hissued
      · cases heq
      · obtain ⟨tx', htx', hhash, -⟩ := hj.backs k' j p hissued
        exact hhash ▸ hnew tx' htx'
    · obtain ⟨hin, hnew⟩ := hj.holds k tx hold
      refine ⟨hsigned hin, fun k' j p h => ?_⟩
      rcases issued_cons.mp h with ⟨-, hi⟩ | hissued
      · obtain ⟨tx', hprep', hhash, -⟩ := hj.fresh he hi
        exact hhash ▸ hj.apart _ _ _ _ (Ne.symm hne) hprep' hold
      · exact hnew k' j p hissued
  case apart =>
    intro k k' tx tx' hne hprep hprep'
    rcases prepares_cons hprep with ⟨hk, call, signer, rfl⟩ | ⟨-, hold⟩
    · rcases prepares_cons hprep' with ⟨hk', -⟩ | ⟨-, hold'⟩
      · exact absurd (hk.trans hk'.symm) hne
      · exact ((hprepared call signer tx rfl).2 tx' (hj.holds k' tx' hold').1).symm
    · rcases prepares_cons hprep' with ⟨-, call, signer, rfl⟩ | ⟨-, hold'⟩
      · exact (hprepared call signer tx' rfl).2 tx (hj.holds k tx hold).1
      · exact hj.apart k k' tx tx' hne hold hold'
  case unique =>
    intro k j p k' j' p' h h' hhash
    rcases issued_cons.mp h with ⟨hk, hi⟩ | hold
    · rcases issued_cons.mp h' with ⟨hk', hi'⟩ | hold'
      · exact ⟨hk.trans hk'.symm, hi.inj hi'⟩
      · obtain ⟨-, -, -, -, hnew⟩ := hj.fresh he hi
        exact absurd hhash.symm (hnew k' j' p' hold')
    · rcases issued_cons.mp h' with ⟨-, hi'⟩ | hold'
      · obtain ⟨-, -, -, -, hnew⟩ := hj.fresh he hi'
        exact absurd hhash (hnew k j p hold)
      · exact hj.unique k j p k' j' p' hold hold' hhash
  case sent =>
    intro tx htx
    rcases submitted_cases he htx with htx | ⟨a, rfl⟩
    · obtain ⟨k, j, p, h, hhash⟩ := hj.sent tx htx
      exact ⟨k, j, p, h.cons, hhash⟩
    · obtain ⟨ev, rest, j, p, hhead, hi, hhash⟩ := submits hg
      exact ⟨i, j, p, (issued_head hhead hi).cons, hhash⟩
  case unsent =>
    intro k ev' rest j p hhead hi tx htx
    by_cases hki : k = i
    · subst hki
      rw [historyOf_cons_self] at hhead
      cases hhead
      rcases submitted_cases he htx with htx | ⟨a, rfl⟩
      · obtain ⟨k', j', p', h', hhash'⟩ := hj.sent tx htx
        obtain ⟨-, -, -, -, hnew⟩ := hj.fresh he hi
        exact hhash' ▸ hnew k' j' p' h'
      · obtain ⟨rec, t, heq, -⟩ := hi
        cases heq
    · rw [historyOf_cons_ne (Ne.symm hki)] at hhead
      rcases submitted_cases he htx with htx | ⟨a, rfl⟩
      · exact hj.unsent k ev' rest j p hhead hi tx htx
      · obtain ⟨ev'', rest', j', p', hhead', hi', hhash'⟩ := submits hg
        intro heq
        obtain ⟨hik, -⟩ := hj.unique _ _ _ _ _ _ (issued_head hhead' hi') (issued_head hhead hi)
          (hhash'.trans heq)
        exact hki hik.symm

end Journals

theorem Runs.journals (htruth : set.truthful) {v : View set} (h : Runs set v) : Journals v := by
  refine h.rule (P := Journals) ?_ ?_ ?_ ?_
  · intro w hw
    constructor
    case backs => exact fun i j p h => absurd h not_issued_nil
    case holds => rintro i tx ⟨call, signer, rest, heq⟩; cases heq
    case apart => rintro i i' tx tx' _ ⟨call, signer, rest, heq⟩; cases heq
    case unique => exact fun i j p i' j' p' h => absurd h not_issued_nil
    case sent => intro tx htx; rw [hw.2.2] at htx; cases htx
    case unsent => intro i ev rest j p heq; cases heq
  · intro v e _ ih
    exact ⟨ih.backs, ih.holds, ih.apart, ih.unique, ih.sent, ih.unsent⟩
  · exact fun v i e ev w' _ ih _ hg he => ih.event htruth hg he
  · intro v b free _ ih _
    exact ⟨ih.backs, ih.holds, ih.apart, ih.unique, ih.sent, ih.unsent⟩

end Buyback
