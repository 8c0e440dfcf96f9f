import Buyback.Record.Progress

/-!
# The terms of a job

What is fixed when a job is created: who pays for what and until when, the wallet and how
it is opened, the budget, and the engines that may work on it.  No write of a process
changes any of it, so an engine opens the same wallet for every version of a record.

A settled record has also its report fixed, which is its public view without the text of
the last error.
-/

namespace Buyback

open Resumption

/-- What is fixed when a job is created. -/
structure Terms where
  request : PaymentRequest
  createdAt : UInt64
  sealedSecret : SealedSecret
  derivationPath : Option String
  metadata : Option String
  callbackUrl : Option String
  buybackBudget : Option BuybackBudget
  autoRequired : Option Bool
  identity : Option JobIdentity
deriving DecidableEq, Repr

namespace PaymentRecord

variable {r new : PaymentRecord} {E : Engine} {e : Entry} {h : History rpc}

/-- The terms of the job of a record. -/
def terms (r : PaymentRecord) : Terms where
  request := r.request
  createdAt := r.createdAt
  sealedSecret := r.sealedSecret
  derivationPath := r.derivationPath
  metadata := r.metadata
  callbackUrl := r.callbackUrl
  buybackBudget := r.buybackBudget
  autoRequired := r.autoRequired
  identity := r.identity

theorem recordFailure_terms {text : String} {maxAttempts : UInt32} {now : UInt64} :
    (r.recordFailure text maxAttempts now).terms = r.terms := by
  obtain ⟨lastError, nextAttemptAt, ⟨-, heq⟩ | ⟨-, heq⟩⟩ :=
    r.recordFailure_cases text maxAttempts now
  · rw [heq]
    rfl
  · rw [heq]
    rfl

theorem Applies.terms {tx : TxRef} {s : EventSummary} {action : Action}
    (ha : Applies r tx s action new) : new.terms = r.terms := by
  cases ha <;> rfl

variable [Ss58]

theorem terms_tick (hw : E.Writes h r new) : new.terms = r.terms := by
  cases hw with
  | applied hp _ _ _ happly => exact (apply_ok happly hp).terms
  | failedOnChain _ _ _ => exact recordFailure_terms (r := { r with pending := none })
  | quarantined _ _ _ _ => exact recordFailure_terms
  | attempted _ _ _ _ => exact recordFailure_terms
  | _ => rfl

/-- No write changes the terms. -/
theorem terms_writes (hw : e.Writes h r new) : new.terms = r.terms := by
  cases hw with
  | tick _ hw => exact terms_tick hw
  | journal _ hb _ _ => cases hb <;> rfl
  | retry _ _ _ _ _ => rfl
  | forceSweep _ _ _ _ => rfl

/-- The wallet of a job depends on its terms only. -/
theorem wallet_congr {r' : PaymentRecord} (h : r'.terms = r.terms) :
    E.wallet r' = E.wallet r := by
  have hid : r'.id = r.id := congrArg (·.request.id) h
  have haddress : r'.address = r.address := congrArg (·.request.address) h
  have hsecret : r'.sealedSecret = r.sealedSecret := congrArg Terms.sealedSecret h
  have hpath : r'.derivationPath = r.derivationPath := congrArg Terms.derivationPath h
  unfold Engine.wallet
  rw [hid, haddress, hsecret, hpath]

omit [Ss58] in
theorem netuid_congr {r' : PaymentRecord} (h : r'.terms = r.terms) : r'.netuid = r.netuid :=
  congrArg (·.request.netuid) h

omit [Ss58] in
theorem identity_congr {r' : PaymentRecord} (h : r'.terms = r.terms) :
    r'.identity = r.identity := congrArg Terms.identity h

/-! ## Settled records -/

/-- The public view of a record without its last error. -/
def report (r : PaymentRecord) : PaymentStatus := { r.status with lastError := none }

/-- A settled record stays as it is, up to its bookkeeping. -/
structure Fixed (r cur : PaymentRecord) : Prop where
  terms : cur.terms = r.terms
  settled : r.state = .settled → cur.state = .settled
  report : r.state = .settled → cur.report = r.report

omit [Ss58] in
theorem Fixed.refl (r : PaymentRecord) : r.Fixed r := ⟨rfl, fun h => h, fun _ => rfl⟩

omit [Ss58] in
theorem Fixed.trans {a b c : PaymentRecord} (h₁ : a.Fixed b) (h₂ : b.Fixed c) :
    a.Fixed c where
  terms := h₂.terms.trans h₁.terms
  settled h := h₂.settled (h₁.settled h)
  report h := (h₂.report (h₁.settled h)).trans (h₁.report h)

omit [Ss58] in
theorem settled_final (target : PaymentState) :
    ¬ PaymentState.settled.canTransition target = true := by
  cases target <;> decide

omit [Ss58] in
/-- A failed attempt leaves a settled record settled. -/
theorem recordFailure_settled {text : String} {maxAttempts : UInt32} {now : UInt64}
    (h : r.state = .settled) : (r.recordFailure text maxAttempts now).state = .settled ∧
      (r.recordFailure text maxAttempts now).report = r.report := by
  obtain ⟨lastError, nextAttemptAt, ⟨-, heq⟩ | ⟨hcan, -⟩⟩ :=
    r.recordFailure_cases text maxAttempts now
  · rw [heq]
    exact ⟨h, rfl⟩
  · rw [h] at hcan
    cases hcan

/-- What may still be written over a settled record. -/
theorem settled_writes (hs : r.Sound) (hstate : r.state = .settled) (hw : e.Writes h r new) :
    (∃ text maxAttempts now, new = r.recordFailure text maxAttempts now) ∨
      new = { r with notified := true } ∨ ∃ t, new = { r with nextAttemptAt := t } := by
  have hidle {p : PendingTx} (hp : r.pending = some p) : False := by
    rcases hs.working_of_pending hp with h | h | h <;> cases h.symm.trans hstate
  cases hw with
  | tick _ hw =>
      cases hw with
      | applied hp _ _ _ _ => exact (hidle hp).elim
      | dead hp _ => exact (hidle hp).elim
      | failedOnChain hp _ _ => exact (hidle hp).elim
      | quarantined hp _ _ _ => exact (hidle hp).elim
      | detected _ h _ _ => cases h.symm.trans hstate
      | expired _ h => cases h.symm.trans hstate
      | funded _ h => cases h.symm.trans hstate
      | swept _ h => cases h.symm.trans hstate
      | consolidated _ h _ _ => cases h.symm.trans hstate
      | bought _ h _ _ _ => cases h.symm.trans hstate
      | settled _ h _ _ _ => cases h.symm.trans hstate
      | attempted _ _ _ _ => exact .inl ⟨_, _, _, rfl⟩
      | notified _ => exact .inr (.inl rfl)
      | postponed _ => exact .inr (.inr ⟨_, rfl⟩)
  | journal _ hb _ _ =>
      cases hb with
      | fund h _ => cases h.symm.trans hstate
      | sweep h _ => cases h.symm.trans hstate
      | consolidate h _ _ _ => cases h.symm.trans hstate
      | returnDust h _ _ => cases h.symm.trans hstate
      | buyStake h _ _ _ _ _ _ _ _ _ => cases h.symm.trans hstate
      | destroy h _ _ _ _ _ _ _ _ _ _ => cases h.symm.trans hstate
  | retry _ _ _ hcan _ => exact absurd (hstate ▸ hcan) (settled_final _)
  | forceSweep _ _ hcan _ => exact absurd (hstate ▸ hcan) (settled_final _)

/-- Every write keeps the terms, and the report of a settled record. -/
theorem Fixed.writes (hs : r.Sound) (hw : e.Writes h r new) : r.Fixed new := by
  have hkeeps (hstate : r.state = .settled) : new.state = .settled ∧ new.report = r.report := by
    rcases settled_writes hs hstate hw with ⟨_, _, _, rfl⟩ | rfl | ⟨_, rfl⟩
    · exact recordFailure_settled hstate
    · exact ⟨hstate, rfl⟩
    · exact ⟨hstate, rfl⟩
  exact ⟨terms_writes hw, fun h => (hkeeps h).1, fun h => (hkeeps h).2⟩

end PaymentRecord

end Buyback
