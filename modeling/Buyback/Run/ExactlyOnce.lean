import Buyback.Run.Issued
import Buyback.System.Script

/-!
# Journaled actions take effect exactly once

`Fate` says what has become of a journal: it is in flight, or it is booked by one
receipt and has succeeded, or it is void and has none.  A journal that fits is
never one whose action was done.  So of two journals of one job and one key, one
is void.
-/

namespace Buyback

open Resumption

/-- The receipts of an extrinsic. -/
def PaymentRecord.receiptsOf (r : PaymentRecord) (hash : String) : List TxRef :=
  r.txs.filter fun t => t.txHash == hash

/-- What has become of the journal `p` of the record `r`. -/
inductive Fate (c : Finalized) (r : PaymentRecord) (p : PendingTx) : Prop where
  | flying :
      r.pending = some p →
      r.receiptsOf p.txHash = [] →
      Fate c r p
  | booked {blockHash : String} :
      r.pending ≠ some p →
      r.receiptsOf p.txHash = [p.receipt blockHash] →
      c.Succeeded p.txHash →
      r.quarantined = some p ∨ r.Did p.action.key →
      Fate c r p
  | void :
      r.pending ≠ some p →
      r.receiptsOf p.txHash = [] →
      c.Void p →
      Fate c r p

namespace Fate

variable {c c' : Finalized} {r new : PaymentRecord} {p : PendingTx}

/-- The chain goes on. -/
theorem mono (h : Fate c r p) (hs : c.Succeeded p.txHash → c'.Succeeded p.txHash)
    (hv : c.Void p → c'.Void p) : Fate c' r p := by
  cases h with
  | flying hp hr => exact .flying hp hr
  | booked hp hr hok hdone => exact .booked hp hr (hs hok) hdone
  | void hp hr hvoid => exact .void hp hr (hv hvoid)

/-- What is not in flight stays as it is when the record goes on. -/
theorem settled (h : Fate c r p) (hp : r.pending ≠ some p) (hp' : new.pending ≠ some p)
    (hr : new.receiptsOf p.txHash = r.receiptsOf p.txHash) (hprogress : r.Progress new) :
    Fate c new p := by
  cases h with
  | flying hf _ => exact absurd hf hp
  | booked _ hb hok hdone =>
      exact .booked hp' (hr.trans hb) hok
        (hdone.imp (hprogress.quarantined p) (·.mono hprogress))
  | void _ hb hvoid => exact .void hp' (hr.trans hb) hvoid

end Fate

namespace PaymentRecord

variable {r new : PaymentRecord} {p : PendingTx} {hash : String} {t : TxRef}

theorem receiptsOf_congr (h : new.txs = r.txs) : new.receiptsOf hash = r.receiptsOf hash := by
  rw [receiptsOf, receiptsOf, h]

theorem receiptsOf_append (h : new.txs = r.txs ++ [t]) :
    new.receiptsOf hash = r.receiptsOf hash ++ if t.txHash = hash then [t] else [] := by
  by_cases ht : t.txHash = hash <;> simp [receiptsOf, h, List.filter_append, ht]

end PaymentRecord

section

variable [Ss58] {set : Setting}

/-- What has become of the journals of a run. -/
structure Fates (v : View set) : Prop where
  fate : ∀ i j p, Issued v.trace i j p →
    ∃ r, v.state.store.get j = some r ∧ Fate v.state.chain r p
  clash : ∀ i j p i' q, Issued v.trace i j p → Issued v.trace i' j q → p.txHash ≠ q.txHash →
    p.action.key = q.action.key → v.state.chain.Void p ∨ v.state.chain.Void q

namespace Fates

variable {v : View set} {i : ℕ} {e : Entry} {ev : Event rpc} {w' : World}

/-- A journal that was stored before a write over its job has its fate after it. -/
theorem written (htruth : set.truthful) (hr : Runs set v) (hj : Journals v) {k : ℕ} {j : String}
    {q : PendingTx} {r new : PaymentRecord} {now : UInt64} (hq : Issued v.trace k j q)
    (hget : v.state.store.get j = some r) (hs : r.Sound)
    (hw : e.Writes (historyOf v.trace i) r new)
    (hnew : ∀ p, new.pending = some p → r.pending = none → p.txHash ≠ q.txHash)
    (hf : Fate v.state.chain r q) : Fate v.state.chain (new.stamped now) q := by
  have hprogress : r.Progress (new.stamped now) :=
    (PaymentRecord.Progress.writes hs hw).trans (.stamped _ _)
  have hbacks := hj.backs k j q hq
  cases hs.flight hw with
  | none hp hp' htxs =>
      refine hf.settled (by rw [hp]; nofun) ?_ (PaymentRecord.receiptsOf_congr htxs) hprogress
      exact fun h => by cases hp'.symm.trans h
  | issued _ _ _ hp _ hp' htxs =>
      refine hf.settled (by rw [hp]; nofun) ?_ (PaymentRecord.receiptsOf_congr htxs) hprogress
      intro h
      exact hnew q h hp rfl
  | @booked p blockHash s hp hl hok hp' htxs hdone =>
      have hgone : (new.stamped now).pending ≠ some q := fun h => by cases hp'.symm.trans h
      have hreceipts : (new.stamped now).receiptsOf q.txHash = r.receiptsOf q.txHash ++ _ :=
        PaymentRecord.receiptsOf_append htxs
      by_cases hpq : p.txHash = q.txHash
      · -- the extrinsic in flight is booked
        obtain ⟨k', hp'⟩ := hr.traced.pending j r p hget hp
        obtain ⟨-, -, rfl⟩ := hj.unique _ _ _ _ _ _ hp' hq hpq
        cases hf with
        | flying _ hnone =>
            refine Fate.booked hgone (?_ : _ = [p.receipt blockHash])
              ((hr.told htruth).succeeded hl hok) hdone
            rw [hreceipts, hnone]
            exact if_pos rfl
        | booked h _ _ _ => exact absurd hp h
        | void h _ _ => exact absurd hp h
      · refine hf.settled ?_ hgone ?_ hprogress
        · intro h
          rw [hp] at h
          cases h
          exact hpq rfl
        · rw [hreceipts, if_neg (show (p.receipt blockHash).txHash ≠ _ from hpq), List.append_nil]
  | @dropped p hp hvoid hp' htxs =>
      have hgone : (new.stamped now).pending ≠ some q := fun h => by cases hp'.symm.trans h
      have hreceipts : (new.stamped now).receiptsOf q.txHash = r.receiptsOf q.txHash :=
        PaymentRecord.receiptsOf_congr htxs
      by_cases hpq : r.pending = some q
      · rw [hp] at hpq
        cases hpq
        cases hf with
        | flying _ hnone =>
            exact .void hgone (hreceipts.trans hnone) ((hr.told htruth).void hbacks hvoid)
        | booked h _ _ _ => exact absurd hp h
        | void h _ _ => exact absurd hp h
      · exact hf.settled hpq hgone hreceipts hprogress

/-- The fate of a journal stored before the request. -/
theorem older (htruth : set.truthful) (hr : Runs set v) (hf : Fates v)
    (he : Effect set v.state e (historyOf v.trace i) ev w') {k : ℕ} {j : String} {q : PendingTx}
    (hq : Issued v.trace k j q) : ∃ r, w'.store.get j = some r ∧ Fate w'.chain r q := by
  have hmono {r : PaymentRecord} (h : Fate v.state.chain r q) : Fate w'.chain r q :=
    h.mono (·.of_blocks he.blocks_eq) (·.of_blocks he.blocks_eq)
  obtain ⟨r, hget, hfate⟩ := hf.fate k j q hq
  rcases he.next hget with hsame | ⟨new, now, hid, hs, -, hw, -, rfl, hget'⟩
  · exact ⟨r, hsame, hmono hfate⟩
  · refine ⟨_, hget', hmono (written htruth hr (hr.journals htruth) hq hget hs hw ?_ hfate)⟩
    intro p hp _
    obtain ⟨-, -, -, -, hnew⟩ := (hr.journals htruth).fresh he ⟨new, now, rfl, hid, hp⟩
    exact (hnew k j q hq).symm

/-- A journal that is stored is in flight. -/
theorem newer (htruth : set.truthful) (hr : Runs set v)
    (he : Effect set v.state e (historyOf v.trace i) ev w') {j : String} {p : PendingTx}
    (hi : Issues ev j p) :
    ∃ r, w'.store.get j = some r ∧ Fate w'.chain r p := by
  obtain ⟨old, hold, -, -, -⟩ := (he.launch hi).old
  obtain ⟨-, -, -, -, hnew⟩ := (hr.journals htruth).fresh he hi
  obtain ⟨rec, t, rfl, rfl, hp⟩ := hi
  have hget := he.shows hr.known.fenced.keyed .update
  refine ⟨_, hget, .flying hp ?_⟩
  refine List.filter_eq_nil_iff.mpr fun t' ht' => ?_
  rcases he.next hold with hsame | ⟨new, now, -, hs, -, hw, -, heq, -⟩
  · cases hget.symm.trans hsame
    obtain ⟨k, q, hq, hhash⟩ := hr.traced.receipts _ _ t' hold ht'
    simpa [← hhash] using hnew k _ q hq
  · cases heq
    have htxs : rec.txs = old.txs := by
      cases hs.flight hw with
      | none _ _ htxs => exact htxs
      | issued _ _ _ _ _ _ htxs => exact htxs
      | booked _ _ _ hnone _ _ => cases hnone.symm.trans hp
      | dropped _ _ _ htxs => exact htxs
    obtain ⟨k, q, hq, hhash⟩ := hr.traced.receipts _ _ t' hold (htxs ▸ ht')
    simpa [← hhash] using hnew k _ q hq

/-- Of a journal that is stored and an older one of the same key, the older is void. -/
theorem clashes (hr : Runs set v) (hf : Fates v)
    (he : Effect set v.state e (historyOf v.trace i) ev w') {k : ℕ} {j : String}
    {p q : PendingTx} (hi : Issues ev j p) (hq : Issued v.trace k j q)
    (hkey : p.action.key = q.action.key) : v.state.chain.Void q := by
  obtain ⟨old, hold, -, hpending, hquarantined⟩ := (he.launch hi).old
  obtain ⟨r, hget, hfate⟩ := hf.fate k j q hq
  cases hold.symm.trans hget
  cases hfate with
  | flying h _ => cases hpending.symm.trans h
  | void _ _ hvoid => exact hvoid
  | booked _ _ _ hdone =>
      obtain ⟨rec, t, rfl, rfl, hp⟩ := hi
      have hdid : old.Did p.action.key := by
        rcases hdone with h | h
        · cases hquarantined.symm.trans h
        · exact hkey ▸ h
      obtain ⟨new, hnew, hbefore⟩ := he.progress hold
      cases (he.shows hr.known.fenced.keyed .update).symm.trans hnew
      have hsound := (hr.known.event he).sound _ _ hnew
      exact absurd (hsound.journal p hp).2.2 ((hdid.mono hbefore.progress).not_fits hsound)

theorem event (htruth : set.truthful) (hr : Runs set v) (hf : Fates v)
    (he : Effect set v.state e (historyOf v.trace i) ev w') :
    Fates (⟨w', v.entries, (i, ev) :: v.trace⟩ : View set) where
  fate k j p h := by
    rcases issued_cons.mp h with ⟨-, hi⟩ | hold
    · exact newer htruth hr he hi
    · exact older htruth hr hf he hold
  clash k j p k' q h h' hhash hkey := by
    rcases issued_cons.mp h with ⟨-, hi⟩ | hold
    · rcases issued_cons.mp h' with ⟨-, hi'⟩ | hold'
      · exact absurd (congrArg PendingTx.txHash (hi.inj hi').2) hhash
      · exact .inr ((clashes hr hf he hi hold' hkey).of_blocks he.blocks_eq)
    · rcases issued_cons.mp h' with ⟨-, hi'⟩ | hold'
      · exact .inl ((clashes hr hf he hi' hold hkey.symm).of_blocks he.blocks_eq)
      · exact (hf.clash k j p k' q hold hold' hhash hkey).imp (·.of_blocks he.blocks_eq)
          (·.of_blocks he.blocks_eq)

end Fates

theorem Runs.fates (htruth : set.truthful) {v : View set} (h : Runs set v) : Fates v := by
  refine h.rule (P := Fates) ?_ ?_ ?_ ?_
  · exact fun w _ =>
      ⟨fun i j p h => absurd h not_issued_nil, fun i j p i' q h => absurd h not_issued_nil⟩
  · exact fun v e _ ih => ⟨ih.fate, ih.clash⟩
  · exact fun v i e ev w' hr ih _ _ he => ih.event htruth hr he
  · intro v b free hr ih ha
    have hvoid {i : ℕ} {j : String} {p : PendingTx} (h : Issued v.trace i j p)
        (hv : v.state.chain.Void p) : (v.state.chain.append b free).Void p :=
      hv.append ((hr.journals htruth).backs i j p h) ha
    refine ⟨fun i j p h => ?_, fun i j p i' q h h' hhash hkey => ?_⟩
    · obtain ⟨r, hget, hfate⟩ := ih.fate i j p h
      exact ⟨r, hget, hfate.mono (·.append) (hvoid h)⟩
    · exact (ih.clash i j p i' q h h' hhash hkey).imp (hvoid h) (hvoid h')

/-! ## The effect of every extrinsic -/

/-- The journals, the blocks and the receipts agree. -/
structure ExactlyOnce (w : World) (trace : List (Nat × Event rpc)) : Prop where
  /-- What a key of the engines signed is on chain only if it was journaled. -/
  journaled : ∀ tx ∈ w.chain.signed, ∀ evs, w.chain.Included tx.txHash evs →
    ∃ i j p, Issued trace i j p ∧ p.txHash = tx.txHash
  /-- An extrinsic is of one job. -/
  job : ∀ i j p i' j' p', Issued trace i j p → Issued trace i' j' p' → p.txHash = p'.txHash →
    j = j' ∧ p = p'
  /-- An extrinsic on chain is the one in flight, or has exactly one receipt, or has
  failed on chain and has none. -/
  recorded : ∀ i j p evs, Issued trace i j p → w.chain.Included p.txHash evs →
    ∃ r, w.store.get j = some r ∧
      (r.pending = some p ∧ r.receiptsOf p.txHash = [] ∨
        r.pending ≠ some p ∧ Events.failed evs = false ∧
          (∃ blockHash, r.receiptsOf p.txHash = [p.receipt blockHash]) ∨
        r.pending ≠ some p ∧ Events.failed evs = true ∧ r.receiptsOf p.txHash = [])
  /-- Two extrinsics of one job and one key do not both succeed. -/
  once : ∀ i j p i' q, Issued trace i j p → Issued trace i' j q → p.action.key = q.action.key →
    w.chain.Succeeded p.txHash → w.chain.Succeeded q.txHash → p = q
  /-- A receipt is of an extrinsic that succeeded. -/
  receipts : ∀ j r t, w.store.get j = some r → t ∈ r.txs →
    ∃ i p blockHash, Issued trace i j p ∧ t = p.receipt blockHash ∧ w.chain.Succeeded p.txHash

theorem Runs.recorded (htruth : set.truthful) {v : View set} (h : Runs set v) {i : ℕ} {j : String}
    {p : PendingTx} {evs : Events} (hp : Issued v.trace i j p)
    (hin : v.state.chain.Included p.txHash evs) :
    ∃ r, v.state.store.get j = some r ∧
      (r.pending = some p ∧ r.receiptsOf p.txHash = [] ∨
        r.pending ≠ some p ∧ Events.failed evs = false ∧
          (∃ blockHash, r.receiptsOf p.txHash = [p.receipt blockHash]) ∨
        r.pending ≠ some p ∧ Events.failed evs = true ∧ r.receiptsOf p.txHash = []) := by
  obtain ⟨r, hget, hfate⟩ := (h.fates htruth).fate i j p hp
  obtain ⟨tx, htx, hhash, -⟩ := (h.journals htruth).backs i j p hp
  have honce {evs' : Events} (hin' : v.state.chain.Included p.txHash evs') : evs = evs' :=
    (h.told htruth).consistent.once tx htx evs evs' (hhash ▸ hin) (hhash ▸ hin')
  refine ⟨r, hget, ?_⟩
  cases hfate with
  | flying hpending hnone => exact .inl ⟨hpending, hnone⟩
  | booked hpending hone hok _ =>
      obtain ⟨evs', hin', hevs⟩ := hok
      exact .inr (.inl ⟨hpending, honce hin' ▸ hevs, _, hone⟩)
  | void hpending hnone hvoid =>
      rcases hvoid with hlost | ⟨evs', hin', hevs⟩
      · exact absurd hin (hlost.absent evs)
      · exact .inr (.inr ⟨hpending, honce hin' ▸ hevs, hnone⟩)

/-- In every state that any processes reach over a truthful chain, whatever crashes,
faults and delays they suffer, journaled actions have taken effect exactly once. -/
theorem exactly_once (htruth : set.truthful) {c : Resumption.Config (processes set)}
    (h : Resumption.Reachable (processes set) c) : ExactlyOnce c.state c.trace := by
  have hr : Runs set c.view := runs_view h
  constructor
  case journaled =>
    intro tx htx evs hin
    exact (hr.journals htruth).sent tx ((hr.told htruth).consistent.sent tx htx evs hin)
  case job =>
    intro i j p i' j' p' hp hp' hhash
    exact ((hr.journals htruth).unique i j p i' j' p' hp hp' hhash).2
  case recorded => exact fun i j p evs hp hin => hr.recorded htruth hp hin
  case once =>
    intro i j p i' q hp hq hkey hok hok'
    by_contra hne
    have hhash : p.txHash ≠ q.txHash := fun heq =>
      hne ((hr.journals htruth).unique i j p i' j q hp hq heq).2.2
    rcases (hr.fates htruth).clash i j p i' q hp hq hhash hkey with hvoid | hvoid
    · exact hvoid.not_succeeded (hr.told htruth).consistent
        ((hr.journals htruth).backs i j p hp) hok
    · exact hvoid.not_succeeded (hr.told htruth).consistent
        ((hr.journals htruth).backs i' j q hq) hok'
  case receipts =>
    intro j r t hget ht
    obtain ⟨i, p, hp, hhash⟩ := hr.traced.receipts j r t hget ht
    obtain ⟨r', hget', hfate⟩ := (hr.fates htruth).fate i j p hp
    cases hget.symm.trans hget'
    have hmem : t ∈ r.receiptsOf p.txHash := List.mem_filter.mpr ⟨ht, by simp [hhash]⟩
    cases hfate with
    | flying _ hnone => rw [hnone] at hmem; cases hmem
    | void _ hnone _ => rw [hnone] at hmem; cases hmem
    | booked _ hone hok _ =>
        rw [hone, List.mem_singleton] at hmem
        exact ⟨i, p, _, hp, hmem, hok⟩

end

theorem sampleFunded_receipt : (playSample sampleFunded).any (fun c =>
    (c.state.store.get "job").any fun r =>
      r.txs == [⟨"transfer_keep_alive", "0x", "#'", 1500⟩] && r.state == .funded) = true := by
  decide

/-- A run in which an extrinsic was journaled, included and booked. -/
theorem sampleFunded_exactly_once : ∃ c : Resumption.Config (processes calm),
    (∃ r, c.state.store.get "job" = some r ∧ r.txs ≠ []) ∧ ExactlyOnce c.state c.trace := by
  obtain ⟨c, hc, htest⟩ := playSample_any sampleFunded_receipt
  simp only [Option.any_eq_true, Bool.and_eq_true, beq_iff_eq] at htest
  obtain ⟨r, hget, htxs, -⟩ := htest
  exact ⟨c, ⟨r, hget, by rw [htxs]; nofun⟩, exactly_once trivial hc⟩

end Buyback
