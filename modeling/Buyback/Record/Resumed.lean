import Buyback.Record.Preserved
import Buyback.Recovery.Steps

/-!
# Resumed records

What stays true of a job after its recovery, one write at a time.  `Resumes` says
that the accounts of the record have grown from the replayed ones, that the job
is past the stage it was recovered in, and that a journaled action is new to the
accounts.  Every write keeps it, and an engine builds only new actions.
-/

namespace Buyback

open Resumption

/-- A working state that the recovered stage leads to. -/
def PaymentState.Follows (stage s : PaymentState) : Prop :=
  s = .swept ∨ s = .funded ∧ stage = .funded

namespace PaymentRecord

/-- The job is at its recovered stage or past it, or failed there. -/
def Past (r : PaymentRecord) (stage : PaymentState) : Prop :=
  r.state = .settled ∨ stage.Follows r.state ∨
    r.state = .failed ∧ ∃ s, r.failedFrom = some s ∧ stage.Follows s

/-- The accounts of the record. -/
def accounting (r : PaymentRecord) : Replayed :=
  { funded := r.fundedTao, positions := r.sweptPositions, consolidated := r.consolidated
    dust := r.dustReturned, buyback := r.buyback }

variable {r new : PaymentRecord} {stage target : PaymentState}

theorem Past.moved (hp : r.Past stage) (hcan : r.state.canTransition target = true)
    (hresume : r.ResumeOk target) : (r.moved target).Past stage := by
  rcases hp with hstate | (hstate | ⟨hstate, hstage⟩) | ⟨hstate, s, hfrom, hs⟩
  · rw [hstate] at hcan
    cases target <;> cases hcan
  · rw [hstate] at hcan
    cases target with
    | settled => exact .inl rfl
    | failed => exact .inr (.inr ⟨rfl, .swept, by simp [PaymentRecord.moved, hstate], .inl rfl⟩)
    | _ => cases hcan
  · rw [hstate] at hcan
    cases target with
    | swept => exact .inr (.inl (.inl rfl))
    | failed =>
        exact .inr (.inr ⟨rfl, .funded, by simp [PaymentRecord.moved, hstate], .inr ⟨rfl, hstage⟩⟩)
    | _ => cases hcan
  · rcases hresume with hne | heq | ⟨heq, -⟩
    · exact absurd hstate hne
    · cases hfrom.symm.trans heq
      exact .inr (.inl hs)
    · cases hfrom.symm.trans heq
      rcases hs with hs | ⟨hs, -⟩ <;> cases hs

theorem Past.not_pending (hp : r.Past stage) : r.state ≠ .pending := by
  intro h
  rcases hp with hstate | (hstate | ⟨hstate, -⟩) | ⟨hstate, -⟩
  all_goals cases h.symm.trans hstate

theorem Past.not_detected (hp : r.Past stage) : r.state ≠ .detected := by
  intro h
  rcases hp with hstate | (hstate | ⟨hstate, -⟩) | ⟨hstate, -⟩
  all_goals cases h.symm.trans hstate

/-- Only a job recovered before its sweep is at the sweep again. -/
theorem Past.funded (hp : r.Past stage) (h : r.state = .funded) : stage = .funded := by
  rcases hp with hstate | (hstate | ⟨-, hstage⟩) | ⟨hstate, -⟩
  · cases h.symm.trans hstate
  · cases h.symm.trans hstate
  · exact hstage
  · cases h.symm.trans hstate

/-- A failed attempt leaves a job where it is, or fails it there. -/
theorem Past.recordFailure (hp : r.Past stage) (text : String) (maxAttempts : UInt32)
    (now : UInt64) : (r.recordFailure text maxAttempts now).Past stage := by
  obtain ⟨lastError, nextAttemptAt, ⟨-, heq⟩ | ⟨hcan, heq⟩⟩ :=
    r.recordFailure_cases text maxAttempts now
  · rw [heq]
    exact hp
  · rw [heq]
    rcases hp with hstate | hstate | ⟨hstate, -⟩
    · rw [hstate] at hcan
      cases hcan
    · exact .inr (.inr ⟨rfl, r.state, rfl, hstate⟩)
    · rw [hstate] at hcan
      cases hcan

end PaymentRecord

/-! ## The invariant of a resumed record -/

variable [Ss58]

/-- An action that the accounts do not contain, for a job recovered at `stage`. -/
structure Action.NewTo (action : Action) (stage : PaymentState) (accounts : Replayed) : Prop where
  fresh : ¬ accounts.Has action
  not_fund : action ≠ .fund
  sweep : ∀ h, action = .sweep h → stage = .funded ∧ ∃ a, h = ss58 a

/-- The job goes on from the accounting `st` that it was recovered with at `stage`. -/
structure PaymentRecord.Resumes (r : PaymentRecord) (st : Replayed) (stage : PaymentState) :
    Prop where
  past : r.Past stage
  grows : st.Grows r.accounting
  canonical : r.accounting.Canonical
  pending : ∀ p, r.pending = some p → p.action.NewTo stage r.accounting

namespace PaymentRecord.Resumes

variable {r r' new : PaymentRecord} {st : Replayed} {stage : PaymentState} {E : Engine}
  {e : Entry} {h : History rpc} {action : Action} {call : ChainCall} {signer : Keypair}

/-- The next position to consolidate is none of those that were. -/
theorem next_position (hr : r.Resumes st stage) {position : String × UInt64} {hotkey : AccountId32}
    (hnext : r.sweptPositions[r.consolidated]? = some position)
    (hparse : parseSs58 position.1 = .ok hotkey) :
    ¬ r.accounting.Has (.consolidate (ss58 hotkey)) := by
  have hget : r.accounting.hotkeys[r.consolidated]? = some position.1 := by
    rw [Replayed.hotkeys, List.getElem?_map]
    exact congrArg (Option.map Prod.fst) hnext
  obtain ⟨a, ha⟩ := hr.canonical.address position.1 (List.mem_of_getElem? hget)
  rw [ha, parseSs58_ss58] at hparse
  cases hparse
  rintro ⟨k, hk, hold⟩
  rw [← ha] at hold
  have hlt := (List.getElem?_eq_some_iff.mp hold).1
  have heq := (List.getElem?_inj hlt hr.canonical.nodup).mp (hold.trans hget.symm)
  exact absurd heq hk.ne

/-- An engine builds only new actions. -/
theorem builds (hr : r.Resumes st stage) (hb : E.Builds h r r' action call signer) :
    action.NewTo stage r'.accounting := by
  cases hb with
  | fund hstate _ => exact absurd hstate hr.past.not_detected
  | sweep hstate hnew =>
      refine ⟨hnew, nofun, fun h heq => ?_⟩
      cases heq
      exact ⟨hr.past.funded hstate, _, rfl⟩
  | consolidate _ _ hnext hparse => exact ⟨hr.next_position hnext hparse, nofun, nofun⟩
  | returnDust _ _ hdust => exact ⟨fun h => absurd (hdust.symm.trans h) nofun, nofun, nofun⟩
  | buyStake _ _ _ _ _ _ _ hnone _ _ =>
      refine ⟨fun h => ?_, nofun, nofun⟩
      rw [Replayed.Has, PaymentRecord.accounting, hnone] at h
      cases h
  | destroy _ _ _ _ _ _ _ hb _ _ hnone =>
      refine ⟨fun h => ?_, nofun, nofun⟩
      rw [Replayed.Has, PaymentRecord.accounting, hb, Option.any_some, hnone] at h
      cases h

/-- A write that changes none of the accounts and moves on or fails. -/
theorem keep (hr : r.Resumes st stage) (hpast : new.Past stage)
    (haccounts : new.accounting = r.accounting)
    (hpending : new.pending = none ∨ new.pending = r.pending) : new.Resumes st stage where
  past := hpast
  grows := haccounts ▸ hr.grows
  canonical := haccounts ▸ hr.canonical
  pending p hp := by
    rcases hpending with hnone | hsame
    · rw [hnone] at hp
      cases hp
    · rw [haccounts]
      exact hr.pending p (hsame ▸ hp)

theorem recordFailure (hr : r.Resumes st stage) (text : String) (maxAttempts : UInt32)
    (now : UInt64) : (r.recordFailure text maxAttempts now).Resumes st stage := by
  have hpast := hr.past.recordFailure text maxAttempts now
  obtain ⟨lastError, nextAttemptAt, ⟨-, heq⟩ | ⟨-, heq⟩⟩ :=
    r.recordFailure_cases text maxAttempts now
  all_goals
    rw [heq] at hpast ⊢
    exact hr.keep hpast rfl (.inr rfl)

/-- The journaled action is new, so its receipt only adds to the accounts. -/
theorem applied (hr : r.Resumes st stage) {p : PendingTx} (hp : r.pending = some p) {tx : TxRef}
    {s : EventSummary} (ha : PaymentRecord.Applies r tx s p.action new) :
    new.Resumes st stage := by
  have hnew := hr.pending p hp
  generalize p.action = action at ha hnew
  cases ha with
  | fund _ _ => exact absurd rfl hnew.not_fund
  | @sweep hotkey _ =>
      obtain ⟨-, a, rfl⟩ := hnew.sweep _ rfl
      refine ⟨hr.past, hr.grows.trans ?_, hr.canonical.append hnew.fresh, nofun⟩
      exact { Replayed.Grows.refl r.accounting with positions := List.prefix_append .. }
  | consolidate =>
      refine ⟨hr.past, hr.grows.trans ?_, ⟨hr.canonical.nodup, hr.canonical.address⟩, nofun⟩
      exact { Replayed.Grows.refl r.accounting with consolidated := Nat.le_succ _ }
  | returnDust =>
      refine ⟨hr.past, hr.grows.trans ?_, ⟨hr.canonical.nodup, hr.canonical.address⟩, nofun⟩
      exact { Replayed.Grows.refl r.accounting with dust := fun _ => rfl }
  | buyStake _ _ =>
      have hnone : r.buyback = none := Option.not_isSome_iff_eq_none.mp hnew.fresh
      refine ⟨hr.past, hr.grows.trans ?_, ⟨hr.canonical.nodup, hr.canonical.address⟩, nofun⟩
      refine
        { Replayed.Grows.refl r.accounting with bought := fun _ => rfl, destroyed := fun h => ?_ }
      rw [PaymentRecord.accounting, hnone] at h
      cases h
  | destroy _ _ _ =>
      refine ⟨hr.past, hr.grows.trans ?_, ⟨hr.canonical.nodup, hr.canonical.address⟩, nofun⟩
      exact { Replayed.Grows.refl r.accounting with
        bought := fun _ => rfl, destroyed := fun _ => rfl }

/-- Setting the flag of the dust adds to the accounts. -/
theorem dusted (hr : r.Resumes st stage) {d : Bool} (hd : E.Dusted r d) :
    st.Grows { r with dustReturned := d }.accounting :=
  hr.grows.trans { Replayed.Grows.refl r.accounting with dust := hd.keeps }

theorem ticked (hr : r.Resumes st stage) (hw : E.Writes h r new) : new.Resumes st stage := by
  cases hw with
  | detected _ hstate _ _ => exact absurd hstate hr.past.not_pending
  | expired _ hstate => exact absurd hstate hr.past.not_pending
  | funded _ hstate => exact absurd hstate hr.past.not_detected
  | swept hd hstate =>
      exact hr.keep (.inr (.inl (.inl rfl))) rfl (.inr rfl)
  | consolidated hd hstate _ _ =>
      refine ⟨hr.past, hr.grows.trans ?_, ⟨hr.canonical.nodup, hr.canonical.address⟩, ?_⟩
      · exact { Replayed.Grows.refl r.accounting with consolidated := Nat.le_succ _ }
      · exact fun p hp => (nomatch hd.pending.symm.trans hp)
  | bought hd hstate hdust _ _ =>
      exact ⟨hr.past, hr.dusted hdust, ⟨hr.canonical.nodup, hr.canonical.address⟩,
        fun p hp => (nomatch hd.pending.symm.trans hp)⟩
  | settled hd hstate _ hdust _ =>
      exact ⟨.inl rfl, hr.dusted hdust, ⟨hr.canonical.nodup, hr.canonical.address⟩,
        fun p hp => (nomatch hd.pending.symm.trans hp)⟩
  | applied hp _ _ _ happly => exact hr.applied hp (PaymentRecord.apply_ok happly hp)
  | dead _ _ => exact hr.keep hr.past rfl (.inl rfl)
  | failedOnChain _ _ _ =>
      have hcleared : { r with pending := none }.Resumes st stage :=
        hr.keep hr.past rfl (.inl rfl)
      exact hcleared.recordFailure ..
  | @quarantined p blockHash s err t _ _ _ _ =>
      have hkept : { r with
          pending := none, quarantined := some p
          txs := r.txs ++ [p.receipt blockHash] }.Resumes st stage :=
        hr.keep hr.past rfl (.inl rfl)
      exact hkept.recordFailure ..
  | attempted _ _ _ _ => exact hr.recordFailure ..
  | notified _ => exact hr.keep hr.past rfl (.inr rfl)
  | postponed _ => exact hr.keep hr.past rfl (.inr rfl)

theorem journaled (hr : r.Resumes st stage) (hb : E.Builds h r r' action call signer)
    {p : PendingTx} (hp : p.action = action) :
    { r' with pending := some p }.Resumes st stage := by
  have hnew : ∀ q, some p = some q → q.action.NewTo stage r'.accounting := by
    rintro _ ⟨⟩
    exact hp ▸ hr.builds hb
  cases hb with
  | fund hstate _ => exact absurd hstate hr.past.not_detected
  | sweep _ _ => exact ⟨hr.past, hr.grows, hr.canonical, hnew⟩
  | consolidate _ _ _ _ => exact ⟨hr.past, hr.grows, hr.canonical, hnew⟩
  | returnDust _ _ _ => exact ⟨hr.past, hr.grows, hr.canonical, hnew⟩
  | buyStake _ _ hdust _ _ _ _ _ _ _ =>
      exact ⟨hr.past, hr.dusted hdust, ⟨hr.canonical.nodup, hr.canonical.address⟩, hnew⟩
  | destroy _ _ hdust _ _ _ _ _ _ _ _ =>
      exact ⟨hr.past, hr.dusted hdust, ⟨hr.canonical.nodup, hr.canonical.address⟩, hnew⟩

/-- Every write keeps the invariant. -/
theorem writes (hr : r.Resumes st stage) (hw : e.Writes h r new) : new.Resumes st stage := by
  cases hw with
  | tick _ hw => exact hr.ticked hw
  | journal _ hb _ _ => exact hr.journaled hb rfl
  | retry _ _ _ hcan hresume => exact hr.keep (hr.past.moved hcan hresume) rfl (.inr rfl)
  | forceSweep _ _ hcan hresume => exact hr.keep (hr.past.moved hcan hresume) rfl (.inr rfl)

end PaymentRecord.Resumes

end Buyback
