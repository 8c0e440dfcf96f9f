import Buyback.Record.Paths
import Buyback.Run.ExactlyOnce

/-!
# Quarantined jobs

A quarantine keeps the extrinsic and its receipt and changes nothing else of the
accounts.  After it no process writes more than the bookkeeping of failed
attempts, so no extrinsic is journaled.  An engine that stalled right after it
stored a journal may still send it.  That extrinsic was dead before the
quarantine.
-/

namespace Buyback

open Resumption

/-- Only the failure bookkeeping and the version differ. -/
def PaymentRecord.Frozen (r new : PaymentRecord) : Prop :=
  new = { r with
    attempts := new.attempts, nextAttemptAt := new.nextAttemptAt, lastError := new.lastError
    version := new.version, updatedAt := new.updatedAt }

namespace PaymentRecord

variable {r new : PaymentRecord} {e : Entry} {h : History rpc} {q : PendingTx}

theorem Frozen.refl (r : PaymentRecord) : r.Frozen r := rfl

theorem Frozen.trans {a b c : PaymentRecord} (h₁ : a.Frozen b) (h₂ : b.Frozen c) : a.Frozen c := by
  unfold Frozen at *
  rw [h₁] at h₂
  exact h₂

theorem Frozen.stamped (hf : r.Frozen new) (t : UInt64) : r.Frozen (new.stamped t) := by
  refine hf.trans ?_
  rfl

theorem Frozen.quarantined_eq (hf : r.Frozen new) : new.quarantined = r.quarantined := by
  rw [hf]

/-- The record `reconcile_journaled` makes of `r` when the receipt of `p` does not apply. -/
def QuarantinedAs (r : PaymentRecord) (p : PendingTx) (blockHash : String)
    (new : PaymentRecord) : Prop :=
  new = { r with
    pending := none, quarantined := some p, txs := r.txs ++ [p.receipt blockHash]
    state := .failed, failedFrom := some r.state, attempts := r.attempts + 1
    lastError := new.lastError, nextAttemptAt := new.nextAttemptAt }

variable [Ss58]

namespace Sound

theorem failed_of_quarantined (hs : r.Sound) (hq : r.quarantined = some q) :
    r.state = .failed ∧ r.pending = none := by
  obtain ⟨hf, -⟩ := hs.quarantine q hq
  exact ⟨hf, hs.pending_of_failed hf⟩

/-- Over a quarantined record only failed attempts are counted. -/
theorem frozen (hs : r.Sound) (hq : r.quarantined = some q) (hw : e.Writes h r new) :
    r.Frozen new := by
  obtain ⟨hf, hp⟩ := hs.failed_of_quarantined hq
  have hnone : r.quarantined ≠ none := by rw [hq]; nofun
  have hunsettled : r.state ≠ .settled := by rw [hf]; decide
  cases hw with
  | tick _ hw =>
      cases hw with
      | detected hd _ _ _ => exact absurd hd.quarantined hnone
      | expired hd _ => exact absurd hd.quarantined hnone
      | funded hd _ => exact absurd hd.quarantined hnone
      | swept hd _ => exact absurd hd.quarantined hnone
      | consolidated hd _ _ _ => exact absurd hd.quarantined hnone
      | bought hd _ _ _ _ => exact absurd hd.quarantined hnone
      | settled hd _ _ _ _ => exact absurd hd.quarantined hnone
      | applied hpending _ _ _ _ => cases hp.symm.trans hpending
      | dead hpending _ => cases hp.symm.trans hpending
      | failedOnChain hpending _ _ => cases hp.symm.trans hpending
      | quarantined hpending _ _ _ => cases hp.symm.trans hpending
      | notified hstate => exact absurd hstate hunsettled
      | postponed hstate => exact absurd hstate hunsettled
      | @attempted _ text t _ _ _ _ =>
          obtain ⟨lastError, nextAttemptAt, ⟨-, heq⟩ | ⟨hcan, -⟩⟩ :=
            r.recordFailure_cases text _ t
          · rw [heq]
            rfl
          · rw [hf] at hcan
            cases hcan
  | journal hd _ _ _ => exact absurd hd.quarantined hnone
  | retry _ _ hfree _ _ => exact absurd hfree hnone
  | forceSweep _ _ hcan hresume =>
      rcases hs.forceSweep_cases hcan hresume with (h | h) | ⟨-, hstage⟩
      · cases hf.symm.trans h
      · cases hf.symm.trans h
      · exact absurd (hs.quarantined_of_detected hstage) hnone

/-- A quarantine changes no account of the record. -/
theorem quarantinedAs (hs : r.Sound) {p : PendingTx} (hp : r.pending = some p)
    (blockHash : String) (err : Error) (now : UInt64) :
    r.QuarantinedAs p blockHash (r.quarantine p blockHash err now) := by
  obtain ⟨lastError, nextAttemptAt, heq⟩ := hs.quarantine_eq hp blockHash err now
  rw [heq]
  rfl

end Sound

end PaymentRecord

section

variable [Ss58] {set : Setting}

/-! ## What happens after a quarantine -/

/-- The job `j`, quarantined as `r` in `c`, is frozen in the later configuration `c'`. -/
structure Frozen (c c' : Resumption.Config (processes set)) (j : String) (r : PaymentRecord) :
    Prop where
  /-- The state, the receipts, the quarantine and the accounts are the same. -/
  record : ∃ r', c'.state.store.get j = some r' ∧ r.Frozen r'
  /-- No extrinsic of the job was journaled in between. -/
  journals : ∀ i p, Issued c'.trace i j p → Issued c.trace i j p
  /-- Extrinsics of the job that were sent in between were dead before. -/
  sent : ∃ later, c'.trace = later ++ c.trace ∧ (set.truthful →
    ∀ i tx a, (i, ⟨.chain (.submitAndWatch tx), a⟩) ∈ later →
      ∀ k p, Issued c'.trace k j p → p.txHash = tx.txHash → c.state.chain.Lost p)

variable {c c' : Resumption.Config (processes set)} {j : String} {r : PaymentRecord}

/-- What is included stays included. -/
theorem included_run (hrun : Run (processes set) c c') {hash : String} {evs : Events}
    (h : c.state.chain.Included hash evs) : c'.state.chain.Included hash evs := by
  induction hrun with
  | refl => exact h
  | tail _ hs ih =>
      cases hs with
      | spawn e => exact ih
      | crash _ _ => exact ih
      | env hf => cases hf with | block _ => exact ih.append
      | exec _ hserve =>
          cases hserve with
          | store _ _ => exact ih
          | fault _ => exact ih
          | host => exact ih
          | chain hc =>
              cases hc with
              | read _ => exact ih
              | prepare _ => exact ih
              | submit => exact ih
          | hearsay _ _ => exact ih

/-- A journal of a quarantined job that is in no block is dead. -/
theorem lost_of_absent (htruth : set.truthful) {v : View set} (hr : Runs set v) {q : PendingTx}
    (hget : v.state.store.get j = some r) (hq : r.quarantined = some q) {i : ℕ} {p : PendingTx}
    (hp : Issued v.trace i j p) (habsent : ∀ evs, ¬ v.state.chain.Included p.txHash evs) :
    v.state.chain.Lost p := by
  obtain ⟨r', hget', hfate⟩ := (hr.fates htruth).fate i j p hp
  cases hget.symm.trans hget'
  cases hfate with
  | flying hpending _ =>
      cases ((hr.known.sound j r hget).failed_of_quarantined hq).2.symm.trans hpending
  | booked _ _ hok _ =>
      obtain ⟨evs, hin, -⟩ := hok
      exact absurd hin (habsent evs)
  | void _ _ hvoid =>
      rcases hvoid with hlost | ⟨evs, hin, -⟩
      · exact hlost
      · exact absurd hin (habsent evs)

/-- What a process is about to send is in no block yet. -/
theorem absent_of_submits (htruth : set.truthful) {v : View set} (hr : Runs set v) {e : Entry}
    {i k : ℕ} {tx : PreparedTx} {p : PendingTx}
    (hg : e.Allows (historyOf v.trace i) (.chain (.submitAndWatch tx)))
    (hp : Issued v.trace k j p) (hhash : p.txHash = tx.txHash) :
    ∀ evs, ¬ v.state.chain.Included p.txHash evs := by
  intro evs hin
  obtain ⟨ev, rest, j', p', hhead, hi, hhash'⟩ := Journals.submits hg
  obtain ⟨tx', htx', hhash'', -⟩ := (hr.journals htruth).backs k j p hp
  have hsent := (hr.told htruth).consistent.sent tx' htx' evs (hhash'' ▸ hin)
  exact (hr.journals htruth).unsent i ev rest j' p' hhead hi tx' hsent
    (hhash''.trans (hhash.trans hhash'.symm))

/-- One more step keeps a quarantined job frozen. -/
theorem Frozen.step (h : Resumption.Reachable (processes set) c) (hrun : Run (processes set) c c')
    {c'' : Resumption.Config (processes set)} (hs : Step (processes set) c' c'') {q : PendingTx}
    (hget : c.state.store.get j = some r) (hq : r.quarantined = some q) (hf : Frozen c c' j r) :
    Frozen c c'' j r := by
  have hr : Runs set c.view := runs_view h
  have hr' : Runs set c'.view := runs_view (h.run hrun)
  obtain ⟨r', hget', hfrozen⟩ := hf.record
  obtain ⟨later, htrace, hsent⟩ := hf.sent
  cases serving (h.run hrun) hs with
  | quiet hstore hsame =>
      refine ⟨⟨r', by rw [hstore]; exact hget', hfrozen⟩, ?_, later, hsame.trans htrace, ?_⟩
      · rw [hsame]
        exact hf.journals
      · rw [hsame]
        exact hsent
  | @event i e ev _ hg he hcons =>
      have hq' : r'.quarantined = some q := hfrozen.quarantined_eq.trans hq
      have hold {k : ℕ} {p : PendingTx} (hp : Issued c''.trace k j p) : Issued c'.trace k j p := by
        rw [hcons] at hp
        rcases issued_cons.mp hp with ⟨-, hi⟩ | hp
        · obtain ⟨old, hold, -, -, hnone⟩ := (he.launch hi).old
          cases hget'.symm.trans hold
          cases hq'.symm.trans hnone
        · exact hp
      refine ⟨?_, fun k p hp => hf.journals k p (hold hp), (i, ev) :: later, ?_, ?_⟩
      · rcases he.next hget' with hsame | ⟨new, now, -, hsound, -, hw, -, -, hnew⟩
        · exact ⟨r', hsame, hfrozen⟩
        · exact ⟨_, hnew, hfrozen.trans ((hsound.frozen hq' hw).stamped now)⟩
      · rw [hcons, htrace, List.cons_append]
      · intro htruth k tx a hmem k' p hp hhash
        have hp' := hold hp
        rcases List.mem_cons.mp hmem with heq | hmem
        · cases heq
          refine lost_of_absent htruth hr hget hq (hf.journals k' p hp') fun evs hin => ?_
          exact absent_of_submits htruth hr' hg hp' hhash evs (included_run hrun hin)
        · exact hsent htruth k tx a hmem k' p hp' hhash

theorem frozen_run (h : Resumption.Reachable (processes set) c) (hrun : Run (processes set) c c')
    {q : PendingTx} (hget : c.state.store.get j = some r) (hq : r.quarantined = some q) :
    Frozen c c' j r := by
  induction hrun with
  | refl => exact ⟨⟨r, hget, .refl r⟩, fun _ _ hp => hp, [], rfl, fun _ => nofun⟩
  | tail hrun hs ih => exact ih.step h hrun hs hget hq

/-- What a quarantine does, and what can happen after it. -/
structure Quarantine (c : Resumption.Config (processes set)) : Prop where
  /-- A finalized extrinsic whose receipt does not apply makes `reconcile_journaled` store
  exactly the quarantine. -/
  atomic : ∀ j r p oracle blockHash s err maxAttempts, c.state.store.get j = some r →
    r.pending = some p →
    oracle (.chain (.findPending p)) = .ok (.included blockHash s) →
    s.failed = false →
    r.apply (p.receipt blockHash) s = .error err →
    ∃ new, Prog.written oracle (reconcileJournaled r p maxAttempts) = [new] ∧
      r.QuarantinedAs p blockHash new
  /-- Whatever the processes do next, the job stays as it is. -/
  final : ∀ c' j r q, Run (processes set) c c' → c.state.store.get j = some r →
    r.quarantined = some q → Frozen c c' j r

/-- A quarantine is atomic, and final up to extrinsics that were dead before it. -/
theorem quarantine_final {c : Resumption.Config (processes set)}
    (h : Resumption.Reachable (processes set) c) : Quarantine c where
  atomic j r p oracle blockHash s err maxAttempts hget hp hfound hok happly := by
    have hr : Runs set c.view := runs_view h
    refine ⟨_, ?_, (hr.known.sound j r hget).quarantinedAs hp blockHash err (oracle (.host .now))⟩
    rw [written_reconcile hp hfound hok]
    simp only [happly]
  final _ _ _ _ hrun hget hq := frozen_run h hrun hget hq

end

/-- An engine journals the fees and stalls before it sends them.  When that journal is
dead, the others fund the job, send its sweep, and find it without its events. -/
def lateSweep : List (Move (player calm)) :=
  sampleJob ++ sampleTick 1 ++ serves 1 2 ++ List.replicate 67 (finalize [] none) ++
    start (.tick (sampleEngine none)) :: serves 2 4 ++ sampleTick 3 ++ serves 3 3 ++
    finalize [("0x'", samplePaid)] none :: serves 3 2 ++
    start (.tick (sampleEngine none)) :: serves 4 2 ++
    serve 4 (.stake 10000000000 samplePositions) :: serves 4 5 ++
    finalize [("0x''", silentEvents)] none :: serves 4 2 ++
    start (.tick (sampleEngine none)) :: serves 5 5

/-- Whether the event stores a journal of the extrinsic `hash` for the job `j`. -/
def journals (j hash : String) (ev : Event rpc) : Bool :=
  match ev with
  | ⟨.store (.update rec), .ok _⟩ => rec.id == j && rec.pending.any fun p => p.txHash == hash
  | _ => false

/-- Whether a program is about to send the extrinsic `hash`. -/
def sends (hash : String) (p : Option (Prog Unit)) : Bool :=
  match p with
  | some (.ask (.chain (.submitAndWatch tx)) _) => tx.txHash == hash
  | _ => false

theorem issues_of_journals {j hash : String} {ev : Event rpc} (h : journals j hash ev = true) :
    ∃ p, Issues ev j p ∧ p.txHash = hash := by
  unfold journals at h
  split at h
  next rec t =>
    rw [Bool.and_eq_true, Option.any_eq_true, beq_iff_eq] at h
    obtain ⟨hid, p, hp, hhash⟩ := h
    exact ⟨p, ⟨rec, t, rfl, hid, hp⟩, by simpa using hhash⟩
  next => cases h

theorem of_sends {hash : String} {p : Option (Prog Unit)} (h : sends hash p = true) :
    ∃ tx next, p = some (.ask (.chain (.submitAndWatch tx)) next) ∧ tx.txHash = hash := by
  unfold sends at h
  split at h
  next tx next => exact ⟨tx, next, rfl, by simpa using h⟩
  next => cases h

theorem lateSweep_waits : (playSample lateSweep).any (fun c =>
    ((c.state.store.get "job").any fun r => r.quarantined.isSome) &&
      (c.trace.any fun x => journals "job" "0x" x.2) &&
      (c.procs[1]?.any fun x => sends "0x" x.2)) = true := by
  decide +kernel

/-- The engine that stalled sends its extrinsic when the job is quarantined. -/
theorem lateSweep_sends : ∃ c c' : Resumption.Config (processes calm),
    Resumption.Reachable (processes calm) c ∧ Step (processes calm) c c' ∧
      (∃ r q, c.state.store.get "job" = some r ∧ r.quarantined = some q) ∧
      ∃ i k p tx a, Issued c.trace k "job" p ∧ p.txHash = tx.txHash ∧
        c'.trace = (i, ⟨.chain (.submitAndWatch tx), a⟩) :: c.trace := by
  obtain ⟨c, hc, htest⟩ := playSample_any lateSweep_waits
  simp only [Bool.and_eq_true, Option.any_eq_true, List.any_eq_true] at htest
  obtain ⟨⟨⟨r, hget, hq⟩, ⟨k, ev⟩, hmem, hissues⟩, ⟨e, prog⟩, hproc, hsends⟩ := htest
  obtain ⟨q, hq⟩ := Option.isSome_iff_exists.mp hq
  obtain ⟨p, hp, hhash⟩ := issues_of_journals hissues
  obtain ⟨tx, next, rfl, htx⟩ := of_sends hsends
  have hserve : Serves calm c.state (.chain (.submitAndWatch tx)) (Except.ok ()) _ := .chain .submit
  exact ⟨c, _, hc, .exec hproc hserve, ⟨r, q, hget, hq⟩, 1, k, p, tx, _, ⟨ev, hmem, hp⟩,
    hhash.trans htx.symm, rfl⟩

/-- The late sweep is quarantined for good. -/
theorem lateSweep_final : ∃ c : Resumption.Config (processes calm),
    (∃ r q, c.state.store.get "job" = some r ∧ r.quarantined = some q) ∧ Quarantine c := by
  obtain ⟨c, hc, htest⟩ := playSample_any lateSweep_waits
  simp only [Bool.and_eq_true, Option.any_eq_true] at htest
  obtain ⟨⟨⟨r, hget, hq⟩, -⟩, -⟩ := htest
  obtain ⟨q, hq⟩ := Option.isSome_iff_exists.mp hq
  exact ⟨c, ⟨r, q, hget, hq⟩, quarantine_final hc⟩

end Buyback
