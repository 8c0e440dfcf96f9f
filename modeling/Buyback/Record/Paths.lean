import Buyback.Process.Obeys
import Buyback.Record.Preserved
import Buyback.System.Script

/-!
# The direct and the recovery path

A finalized extrinsic is recorded by the process that broadcast it, or after a
crash by one that looks for it.  Both paths apply the same receipt.  The direct
path also requires the event its call is known for, and the recovery path does
not.  `EventsTell` says on which events this makes no difference.
-/

namespace Buyback

open Resumption

/-! ## What the summary of events knows -/

theorem EventSummary.readFields_names {s s' : EventSummary} {ev : RuntimeEvent}
    (h : s.readFields ev = .ok s') : s'.names = s.names ∧
      (s'.stakeAdded = s.stakeAdded ∨ ev.palletName = pallet ∧ ev.eventName = "StakeAdded") := by
  unfold EventSummary.readFields at h
  dsimp only at h
  split_ifs at h with _ hadded
  · cases h
    exact ⟨rfl, .inl rfl⟩
  · split at h
    next => cases h; exact ⟨rfl, .inr hadded⟩
    next => cases h
  all_goals first
    | (cases h; exact ⟨rfl, .inl rfl⟩)
    | (split at h <;> cases h; exact ⟨rfl, .inl rfl⟩)

theorem EventSummary.addEvents_stakeAdded {evs : Events} {s s' : EventSummary}
    (h : s.addEvents evs = .ok s')
    (hs : s.stakeAdded.isSome = true → s.has pallet "StakeAdded" = true)
    (hs' : s'.stakeAdded.isSome = true) : s'.has pallet "StakeAdded" = true := by
  induction evs generalizing s with
  | nil => cases h; exact hs hs'
  | cons x evs ih =>
      cases x with
      | error e => cases h
      | ok ev =>
          simp only [EventSummary.addEvents] at h
          split at h
          next => cases h
          next s₁ h₁ =>
            obtain ⟨hnames, hadded⟩ := EventSummary.readFields_names h₁
            refine ih h fun hsome => ?_
            simp only [EventSummary.has, List.any_append, hnames, Bool.or_eq_true]
            rcases hadded with heq | ⟨hpallet, hname⟩
            · exact .inl (hs (heq ▸ hsome))
            · right
              simp [hpallet, hname]

/-- A purchase is only read off a `StakeAdded` event. -/
theorem EventSummary.fromEvents_stakeAdded {evs : Events} {s : EventSummary}
    (h : EventSummary.fromEvents evs = .ok s) (hs : s.stakeAdded.isSome = true) :
    s.has pallet "StakeAdded" = true :=
  EventSummary.addEvents_stakeAdded h nofun hs

/-- The summary has the event the call is known for. -/
def EventSummary.Shows (s : EventSummary) (call : ChainCall) : Prop :=
  s.has call.expectedEvent.1 call.expectedEvent.2 = true

instance (s : EventSummary) (call : ChainCall) : Decidable (s.Shows call) :=
  inferInstanceAs (Decidable (_ = _))

theorem PaymentRecord.apply_eq {r : PaymentRecord} {p : PendingTx} (hp : r.pending = some p)
    {tx : TxRef} {s : EventSummary} : r.apply tx s =
      ({ r with pending := none }.applyAction tx s p.action).map
        fun r : PaymentRecord => r.receive tx := by
  unfold PaymentRecord.apply
  rw [hp]
  dsimp only
  cases { r with pending := none }.applyAction tx s p.action <;> rfl

/-- A quarantine keeps the extrinsic it is for. -/
theorem PaymentRecord.quarantine_quarantined (r : PaymentRecord) (p : PendingTx)
    (blockHash : String) (err : Error) (now : UInt64) :
    (r.quarantine p blockHash err now).quarantined = some p := by
  unfold PaymentRecord.quarantine
  obtain ⟨lastError, nextAttemptAt, ⟨-, heq⟩ | ⟨-, heq⟩⟩ := PaymentRecord.recordFailure_cases
    { r with pending := none, quarantined := some p, txs := r.txs ++ [p.receipt blockHash] }
    ("finalized receipt mismatch: " ++ err.display) 1 now
  all_goals rw [heq]

/-! ## The two paths -/

/-- The records a program asks the store to write. -/
def Prog.written {α : Type} (oracle : (o : Op) → o.Ans) (p : Prog α) : List PaymentRecord :=
  (Program.requests (I := rpc) oracle p).filterMap fun
    | .store (.update r) => some r
    | _ => none

namespace Prog

variable {α : Type} {oracle : (o : Op) → o.Ans}

@[simp] theorem written_done (x : Result α) : written oracle (.done x : Prog α) = [] := rfl

@[simp] theorem written_chain (o : ChainOp) (next : Result o.Ret → Prog α) :
    written oracle (.ask (.chain o) next) = written oracle (next (oracle (.chain o))) := rfl

@[simp] theorem written_host (o : HostOp) (next : o.Ans → Prog α) :
    written oracle (.ask (.host o) next) = written oracle (next (oracle (.host o))) := rfl

@[simp] theorem written_list (states : List PaymentState)
    (next : Result (List PaymentRecord) → Prog α) :
    written oracle (.ask (.store (.list states)) next) =
      written oracle (next (oracle (.store (.list states)))) := rfl

/-- A program that ends with a write writes that record. -/
@[simp] theorem written_update (new : PaymentRecord) (f : PaymentRecord → Result α) :
    written oracle ((Prog.update new).bind fun r => .done (f r)) = [new] := by
  simp only [written, Prog.update, Program.request, Program.bind_ask, Program.requests_ask]
  cases oracle (.store (.update new)) <;> rfl

end Prog

/-- The extrinsic `tx` is reported as finalized in `blockHash` with the events `evs`,
to the process that sent it and to the one that looks for it. -/
structure Reports (oracle : (o : Op) → o.Ans) (tx : PreparedTx) (p : PendingTx)
    (blockHash : String) (evs : Events) (s : EventSummary) : Prop where
  submitted : oracle (.chain (.submitAndWatch tx)) = .ok ()
  waited : oracle (.chain (.waitForSuccess tx)) = .ok (blockHash, evs)
  found : oracle (.chain (.findPending p)) = .ok (.included blockHash s)
  summary : EventSummary.fromEvents evs = .ok s
  ok : s.failed = false

/-- The recovery path writes what `apply` makes of the receipt, or quarantines. -/
theorem written_reconcile {oracle : (o : Op) → o.Ans} {r : PaymentRecord} {p : PendingTx}
    {blockHash : String} {s : EventSummary} (hp : r.pending = some p)
    (hfound : oracle (.chain (.findPending p)) = .ok (.included blockHash s))
    (hok : s.failed = false) (maxAttempts : UInt32) :
    Prog.written oracle (reconcileJournaled r p maxAttempts) =
      match r.apply (p.receipt blockHash) s with
      | .ok new => [new]
      | .error e => [r.quarantine p blockHash e (oracle (.host .now))] := by
  cases happly : r.apply (p.receipt blockHash) s <;>
    simp [reconcileJournaled, hp, Prog.chain, Prog.now, Program.request, hfound,
      PaymentRecord.reconciled, hok, happly]

section

variable [Ss58]

/-- The record after an engine has journaled the extrinsic it built for an action. -/
inductive Journaled (tx : PreparedTx) (p : PendingTx) (r : PaymentRecord) : Prop where
  | intro {E : Engine} {h : History rpc} {r₀ r' : PaymentRecord} {action : Action}
      {signer : Keypair} {token : String} {t : UInt64} :
      E.Drives r₀ →
      E.Builds h r₀ r' action tx.call signer →
      p = tx.journal action tx.call token →
      r = { r' with pending := some p }.stamped t →
      Journaled tx p r

/-- The two paths agree on a finalized extrinsic, and record it only with its event. -/
structure PathsAgree (oracle : (o : Op) → o.Ans) (r : PaymentRecord) (tx : PreparedTx)
    (p : PendingTx) (s : EventSummary) (maxAttempts : UInt32) : Prop where
  iff : (∃ new, Prog.written oracle (deliver r tx) = [new]) ↔
    ∃ new, Prog.written oracle (reconcileJournaled r p maxAttempts) = [new] ∧ new.quarantined = none
  eq : ∀ new new', Prog.written oracle (deliver r tx) = [new] →
    Prog.written oracle (reconcileJournaled r p maxAttempts) = [new'] → new'.quarantined = none →
    new = new'
  event : ∀ new, Prog.written oracle (deliver r tx) = [new] ∨
    Prog.written oracle (reconcileJournaled r p maxAttempts) = [new] ∧ new.quarantined = none →
    s.Shows tx.call

/-- The events by which recovery does not go wrong.  A sweep and a purchase check
their event in `apply`.  A destruction accepts the event of the other call. -/
def EventsTell (r : PaymentRecord) (tx : PreparedTx) (s : EventSummary) : Action → Prop
  | .sweep _ | .buyStake .. => True
  | .destroy .. => (∃ b, r.buyback = some b ∧ b.alphaBought ≠ 0 ∧
      s.alphaDestroyed = some b.alphaBought) → s.Shows tx.call
  | .fund | .consolidate _ | .returnDust => s.Shows tx.call

namespace Journaled

variable {tx : PreparedTx} {p : PendingTx} {r : PaymentRecord} {oracle : (o : Op) → o.Ans}
  {blockHash : String} {evs : Events} {s : EventSummary}

theorem pending_eq (hj : Journaled tx p r) : r.pending = some p := by
  obtain ⟨-, -, -, rfl⟩ := hj
  rfl

theorem quarantined_eq (hj : Journaled tx p r) : r.quarantined = none := by
  obtain ⟨hd, hb, -, rfl⟩ := hj
  generalize tx.call = call at hb
  cases hb <;> exact hd.quarantined

/-- Both paths make the same receipt. -/
theorem finalized_eq (hj : Journaled tx p r) (hs : EventSummary.fromEvents evs = .ok s) :
    tx.finalized blockHash evs = if s.Shows tx.call then .ok ⟨p.receipt blockHash, s⟩
      else .error (.eventMissing tx.call.expectedEvent.2) := by
  obtain ⟨-, hb, rfl, -⟩ := hj
  simp only [PreparedTx.finalized, hs, EventSummary.Shows, PendingTx.receipt, PreparedTx.journal,
    hb.name_eq]
  rfl

/-- The direct path writes what `apply` makes of the receipt, if the event is there. -/
theorem written_deliver (hj : Journaled tx p r) (ho : Reports oracle tx p blockHash evs s) :
    Prog.written oracle (deliver r tx) =
      if s.Shows tx.call then (r.apply (p.receipt blockHash) s).toOption.toList else [] := by
  have hfin : tx.finalized blockHash evs = _ := hj.finalized_eq ho.summary
  by_cases hshows : s.Shows tx.call
  · rw [if_pos hshows] at hfin ⊢
    cases happly : r.apply (p.receipt blockHash) s <;>
      simp [deliver, Prog.broadcast, Prog.chain, Program.request, ho.submitted, ho.waited, hfin,
        happly, Except.toOption]
  · rw [if_neg hshows] at hfin ⊢
    simp [deliver, Prog.broadcast, Prog.chain, Program.request, ho.submitted, ho.waited, hfin]

/-- A receipt that applies to a record without a quarantine leaves it without one. -/
theorem quarantined_apply (hj : Journaled tx p r) {new : PaymentRecord}
    (h : r.apply (p.receipt blockHash) s = .ok new) : new.quarantined = none := by
  have ha := PaymentRecord.apply_ok h hj.pending_eq
  have hq := hj.quarantined_eq
  generalize p.action = action at ha
  cases ha <;> exact hq

/-- What the recovery path counts as done is what `apply` makes of the receipt. -/
theorem recovered_iff (hj : Journaled tx p r) (ho : Reports oracle tx p blockHash evs s)
    {maxAttempts : UInt32} {new : PaymentRecord} :
    (Prog.written oracle (reconcileJournaled r p maxAttempts) = [new] ∧ new.quarantined = none) ↔
      r.apply (p.receipt blockHash) s = .ok new := by
  rw [written_reconcile hj.pending_eq ho.found ho.ok]
  cases happly : r.apply (p.receipt blockHash) s with
  | ok applied =>
      constructor
      · rintro ⟨heq, -⟩
        exact congrArg Except.ok (List.cons.inj heq).1
      · intro heq
        cases heq
        exact ⟨rfl, hj.quarantined_apply happly⟩
  | error e =>
      constructor
      · rintro ⟨heq, hnone⟩
        cases heq
        rw [PaymentRecord.quarantine_quarantined] at hnone
        cases hnone
      · exact nofun

/-- What the direct path records is what `apply` makes of the receipt, if the event is there. -/
theorem delivered_iff (hj : Journaled tx p r) (ho : Reports oracle tx p blockHash evs s)
    {new : PaymentRecord} : Prog.written oracle (deliver r tx) = [new] ↔
      s.Shows tx.call ∧ r.apply (p.receipt blockHash) s = .ok new := by
  rw [hj.written_deliver ho]
  by_cases hshows : s.Shows tx.call
  · rw [if_pos hshows]
    cases r.apply (p.receipt blockHash) s <;> simp [hshows, Except.toOption]
  · simp [hshows]

/-- The paths agree if a receipt only applies when the event is there. -/
theorem agree_iff_apply (hj : Journaled tx p r) (ho : Reports oracle tx p blockHash evs s)
    {maxAttempts : UInt32} : PathsAgree oracle r tx p s maxAttempts ↔
      ∀ new, r.apply (p.receipt blockHash) s = .ok new → s.Shows tx.call := by
  constructor
  · exact fun h new happly => h.event new (.inr ((hj.recovered_iff ho).mpr happly))
  · intro h
    constructor
    · simp only [hj.delivered_iff ho, hj.recovered_iff ho]
      exact exists_congr fun new => ⟨fun hnew => hnew.2, fun hnew => ⟨h new hnew, hnew⟩⟩
    · intro new new' hnew hnew' hnone
      have hnew := ((hj.delivered_iff ho).mp hnew).2
      have hnew' := (hj.recovered_iff ho).mp ⟨hnew', hnone⟩
      exact Except.ok.inj (hnew.symm.trans hnew')
    · rintro new (hnew | hnew)
      · exact ((hj.delivered_iff ho).mp hnew).1
      · exact h new ((hj.recovered_iff ho).mp hnew)

/-- When a receipt applies, by the action. -/
theorem tell_iff (hj : Journaled tx p r) (hs : EventSummary.fromEvents evs = .ok s) :
    (∀ new, r.apply (p.receipt blockHash) s = .ok new → s.Shows tx.call) ↔
      EventsTell r tx s p.action := by
  have hp := hj.pending_eq
  have hok {new : PaymentRecord} (h : r.apply (p.receipt blockHash) s = .ok new) :
      PaymentRecord.Applies r (p.receipt blockHash) s p.action new := PaymentRecord.apply_ok h hp
  obtain ⟨-, hb, haction, hr⟩ := hj
  have haction : p.action = _ := congrArg PendingTx.action haction
  simp only [PreparedTx.journal] at haction
  have hstate : r.state = _ := congrArg PaymentRecord.state hr
  have happlies (hdone : ∃ new, r.apply (p.receipt blockHash) s = .ok new) :
      (∀ new, r.apply (p.receipt blockHash) s = .ok new → s.Shows tx.call) ↔ s.Shows tx.call := by
    obtain ⟨new, hnew⟩ := hdone
    exact ⟨fun h => h new hnew, fun h _ _ => h⟩
  unfold EventsTell
  rw [haction] at hok ⊢
  generalize tx.call = call at hb happlies ⊢
  cases hb with
  | fund hdetected _ =>
      exact happlies (PaymentRecord.apply_fund hp haction (hstate.trans hdetected))
  | consolidate _ _ _ _ =>
      exact happlies ⟨_, by rw [PaymentRecord.apply_eq hp, haction]; rfl⟩
  | returnDust _ _ _ =>
      exact happlies ⟨_, by rw [PaymentRecord.apply_eq hp, haction]; rfl⟩
  | sweep _ _ =>
      refine ⟨fun _ => trivial, fun _ new h => ?_⟩
      cases hok h with
      | sweep hhas => exact hhas
  | buyStake _ _ _ _ _ _ _ _ _ _ =>
      refine ⟨fun _ => trivial, fun _ new h => ?_⟩
      cases hok h with
      | buyStake hadded _ =>
          exact EventSummary.fromEvents_stakeAdded hs (hadded ▸ rfl)
  | destroy _ _ _ _ _ _ _ _ _ _ _ =>
      constructor
      · rintro h ⟨b, hb, hne, hdestroyed⟩
        obtain ⟨new, hnew⟩ : ∃ new, r.apply (p.receipt blockHash) s = .ok new := by
          rw [PaymentRecord.apply_eq hp, haction]
          simp [PaymentRecord.applyAction, hdestroyed, hb, hne, Except.map]
        exact h new hnew
      · intro h new hnew
        cases hok hnew with
        | destroy hdestroyed hb hne => exact h ⟨_, hb, hne, hdestroyed⟩

end Journaled

/-- The direct and the recovery path agree on a finalized extrinsic exactly if its
events tell the action. -/
theorem paths_agree_iff {oracle : (o : Op) → o.Ans} {tx : PreparedTx} {p : PendingTx}
    {r : PaymentRecord} {blockHash : String} {evs : Events} {s : EventSummary}
    (hj : Journaled tx p r) (ho : Reports oracle tx p blockHash evs s) (maxAttempts : UInt32) :
    PathsAgree oracle r tx p s maxAttempts ↔ EventsTell r tx s p.action :=
  (hj.agree_iff_apply ho).trans (hj.tell_iff ho.summary)

end

/-! ## The funding of a sample job -/

/-- The extrinsic that pays the fees of the sample job. -/
def feesTx : PreparedTx := ⟨.transferTao 3 1500, "xx", 0, "0x", 0⟩

def feesJournal : PendingTx := feesTx.journal .fund feesTx.call "t"

/-- The sample job before its funding is journaled. -/
def feesJob : PaymentRecord :=
  (sampleEngine none).sweepRecord "job" "xxx" "path" none ⟨1, "", "", none⟩ 0

/-- The answers for an extrinsic that finalized with the events `evs`. -/
def feesOracle (evs : Events) (s : EventSummary) : (o : Op) → o.Ans
  | .chain (.submitAndWatch _) => .ok ()
  | .chain (.waitForSuccess _) => .ok ("#", evs)
  | .chain (.findPending _) => .ok (.included "#" s)
  | .chain _ => .error (.chain "offline")
  | .store _ => .error (.store "offline")
  | .host .now => 0
  | .host .newId => ""
  | .host .generateWallet => .ok 0
  | .host (.sealWith ..) => .ok ⟨1, "", "", none⟩
  | .host (.post ..) => .ok ()

/-- The record after the funding was journaled. -/
def feesRecord : PaymentRecord := { feesJob with pending := some feesJournal }.stamped 0

theorem fees_journaled : Journaled feesTx feesJournal feesRecord := by
  have hd : (sampleEngine none).Drives feesJob := ⟨rfl, rfl, rfl, false, rfl, nofun⟩
  have hb : (sampleEngine none).Builds [] feesJob { feesJob with detectedAlpha := 0 } .fund
      feesTx.call 2 := .fund rfl (by decide)
  exact .intro hd hb rfl rfl

theorem fees_reports {evs : Events} {s : EventSummary} (hs : EventSummary.fromEvents evs = .ok s)
    (hok : s.failed = false) : Reports (feesOracle evs s) feesTx feesJournal "#" evs s :=
  ⟨rfl, rfl, rfl, hs, hok⟩

/-- The events of a transfer that was not made. -/
def silentEvents : Events := [.ok ⟨"System", "ExtrinsicSuccess", [], ""⟩]

/-- Only the recovery path takes this funding for done. -/
theorem fees_paths_disagree : ∃ oracle r tx p blockHash evs s, Journaled tx p r ∧
    Reports oracle tx p blockHash evs s ∧ ¬ PathsAgree oracle r tx p s 3 := by
  have hs : EventSummary.fromEvents silentEvents =
      .ok { names := [("System", "ExtrinsicSuccess")] } := rfl
  refine ⟨_, _, _, _, _, _, _, fees_journaled, fees_reports hs rfl, fun h => ?_⟩
  have hshows := ((fees_journaled.agree_iff_apply (fees_reports hs rfl)).mp h) _ rfl
  revert hshows
  decide

/-- With the event of the transfer both paths take the funding for done. -/
theorem fees_paths_agree :
    let s : EventSummary := { names := [("Balances", "Transfer")], transferred := some 1500 }
    PathsAgree (feesOracle samplePaid s) feesRecord feesTx feesJournal s 3 :=
  (paths_agree_iff fees_journaled (fees_reports rfl rfl) 3).mpr rfl

end Buyback
