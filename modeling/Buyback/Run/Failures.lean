import Buyback.Run.Resting

/-!
# Failed attempts are counted

When no engine tries a step more than `N` times, a payment in work has less than `N` failed
attempts since it entered its step, or none.  So it is given up no later than its `N`th
failure, and not before it has failed at all.  A failed payment says why, and so does one
whose attempts have failed, in at most 500 characters.  A payment that was not paid has no
failure to show.
-/

namespace Buyback

open Resumption

/-- The failure bookkeeping of a record, when no engine tries a step more than `N` times. -/
structure PaymentRecord.Counted (N : UInt32) (r : PaymentRecord) : Prop where
  working : r.state.Working → r.attempts = 0 ∨ r.attempts < N
  unpaid : r.state = .pending ∨ r.state = .expired →
    r.attempts = 0 ∧ r.nextAttemptAt = 0 ∧ r.lastError = none
  told : r.state = .failed ∨ r.attempts ≠ 0 → r.lastError ≠ none
  short : ∀ text, r.lastError = some text → text.length ≤ 500

namespace PaymentRecord

variable {N : UInt32} {r new : PaymentRecord} {target : PaymentState} {text : String}
  {maxAttempts : UInt32} {now : UInt64} {E : Engine} {e : Entry} {h : History rpc}

theorem recordFailure_attempts : (r.recordFailure text maxAttempts now).attempts =
    r.attempts + 1 := by
  obtain ⟨lastError, nextAttemptAt, ⟨-, heq⟩ | ⟨-, heq⟩⟩ :=
    r.recordFailure_cases text maxAttempts now
  · rw [heq]
  · rw [heq]

theorem recordFailure_lastError : (r.recordFailure text maxAttempts now).lastError =
    some (String.ofList (text.toList.take 500)) := by
  unfold recordFailure
  dsimp only
  split <;> rfl

namespace Counted

/-- A record without failed attempts. -/
theorem cleared (hattempts : r.attempts = 0) (hnext : r.nextAttemptAt = 0)
    (herror : r.lastError = none) (hstate : r.state ≠ .failed) : r.Counted N where
  working _ := .inl hattempts
  unpaid _ := ⟨hattempts, hnext, herror⟩
  told h := absurd h (not_or.mpr ⟨hstate, not_not.mpr hattempts⟩)
  short _ h := absurd (herror.symm.trans h) nofun

/-- A step that is entered has no failed attempts. -/
theorem moved (ht : target ≠ .failed) : (r.moved target).Counted N :=
  .cleared rfl rfl (if_neg ht) ht

/-- What keeps the state and the bookkeeping. -/
theorem congr (hc : r.Counted N) (hstate : new.state = r.state)
    (hattempts : new.attempts = r.attempts)
    (hnext : new.nextAttemptAt = r.nextAttemptAt) (herror : new.lastError = r.lastError) :
    new.Counted N where
  working h := hattempts ▸ hc.working (hstate ▸ h)
  unpaid h := by
    rw [hattempts, hnext, herror]
    exact hc.unpaid (hstate ▸ h)
  told h := herror ▸ hc.told (h.imp (hstate ▸ ·) (hattempts ▸ ·))
  short text h := hc.short text (herror ▸ h)

/-- A failed attempt of an engine that tries at most `N` times, at a payment that was paid. -/
theorem recordFailure (hmax : maxAttempts ≤ N ∨ maxAttempts = 1)
    (hpaid : ¬ (r.state = .pending ∨ r.state = .expired)) :
    (r.recordFailure text maxAttempts now).Counted N := by
  have herror : (r.recordFailure text maxAttempts now).lastError =
      some (String.ofList (text.toList.take 500)) := recordFailure_lastError
  constructor
  case working =>
    intro hw
    rw [recordFailure_attempts]
    obtain ⟨_, _, ⟨hcase, heq⟩ | ⟨-, heq⟩⟩ := r.recordFailure_cases text maxAttempts now
    · rw [heq] at hw
      have hlt : r.attempts + 1 < maxAttempts :=
        hcase.resolve_right (by rw [PaymentState.Working.canFail hw]; nofun)
      rcases hmax with hle | rfl
      · exact .inr (UInt32.lt_of_lt_of_le hlt hle)
      · exact .inl (UInt32.toNat_inj.mp (Nat.lt_one_iff.mp hlt))
    · rw [heq] at hw
      exact absurd rfl hw.ne_failed
  case unpaid =>
    intro hstate
    obtain ⟨_, _, ⟨-, heq⟩ | ⟨-, heq⟩⟩ := r.recordFailure_cases text maxAttempts now
    · rw [heq] at hstate
      exact absurd hstate hpaid
    · rw [heq] at hstate
      rcases hstate with hstate | hstate <;> cases hstate
  case told => exact fun _ => herror ▸ nofun
  case short =>
    rintro _ htext
    cases herror.symm.trans htext
    rw [String.length_ofList]
    exact List.length_take_le 500 _

theorem stamped (hc : r.Counted N) (t : UInt64) : (r.stamped t).Counted N :=
  hc.congr rfl rfl rfl rfl

/-- An extrinsic that is applied ends the failures before it. -/
theorem applied {tx : TxRef} {s : EventSummary} {action : Action} (hne : r.state ≠ .failed)
    (ha : Applies r tx s action new) : new.Counted N := by
  cases ha with
  | fund _ _ => exact .cleared rfl rfl rfl nofun
  | _ => exact .cleared rfl rfl rfl hne

variable [Ss58]

theorem created (hc : e.Creates r) : r.Counted N := by
  cases hc with
  | payment _ => exact .cleared rfl rfl rfl nofun
  | sweep _ => exact .cleared rfl rfl rfl nofun

theorem tick (hs : r.Sound) (hk : Knows h r) (hmax : E.cfg.maxAttempts ≤ N)
    (hw : E.Writes h r new) (hc : r.Counted N) : new.Counted N := by
  have hpaid {s : PaymentState} (hstate : r.state = s) (hw : 2 ≤ s.rank) :
      ¬ (r.state = .pending ∨ r.state = .expired) := by
    rw [hstate]
    rintro (rfl | rfl) <;> exact absurd hw (by decide)
  cases hw with
  | detected _ _ _ _ => exact .moved nofun
  | expired _ _ => exact .moved nofun
  | funded _ _ => exact .moved nofun
  | swept _ _ => exact .moved nofun
  | settled _ _ _ _ _ => exact .moved nofun
  | applied hp _ _ _ happly =>
      exact .applied (hs.working_of_pending hp).ne_failed (apply_ok happly hp)
  | failedOnChain hp _ _ =>
      exact .recordFailure (.inl hmax) (hpaid rfl (hs.working_of_pending hp).two_le_rank)
  | quarantined hp _ _ _ =>
      exact .recordFailure (.inr rfl) (hpaid rfl (hs.working_of_pending hp).two_le_rank)
  | attempted _ hseen hworking hget =>
      refine .recordFailure (.inl hmax) fun hunpaid => ?_
      have hle := hk.older _ hseen (hk.gets _ _ hget).symm
      rw [stage_of_ne hworking.ne_failed] at hle
      have hrank := (hs.pending_of_unpaid hunpaid).2.2
      have := hworking.two_le_rank
      omega
  | consolidated _ _ _ _ => exact hc.congr rfl rfl rfl rfl
  | bought _ _ _ _ _ => exact hc.congr rfl rfl rfl rfl
  | dead _ _ => exact hc.congr rfl rfl rfl rfl
  | notified _ => exact hc.congr rfl rfl rfl rfl
  | postponed hstate =>
      refine ⟨hc.working, fun hunpaid => ?_, hc.told, hc.short⟩
      exact absurd hunpaid (hpaid hstate (by decide))

/-- Every write counts, when the engines try at most `N` times. -/
theorem writes (hs : r.Sound) (hk : Knows h r) (hmax : ∀ E, e = .tick E → E.cfg.maxAttempts ≤ N)
    (hw : e.Writes h r new) (hc : r.Counted N) : new.Counted N := by
  cases hw with
  | tick _ hw => exact hc.tick hs hk (hmax _ rfl) hw
  | journal _ hb _ _ => cases hb <;> exact hc.congr rfl rfl rfl rfl
  | retry _ _ _ hcan _ =>
      rcases hs.retry_cases hcan with ⟨-, ht, hw⟩ | ⟨-, ht⟩
      · exact .moved (ht ▸ hw.ne_failed)
      · exact .moved (ht ▸ nofun)
  | forceSweep _ _ _ _ => exact .moved nofun

end Counted

end PaymentRecord

section

variable [Ss58] {set : Setting} {N : UInt32}

/-- One request keeps the count of every payment. -/
theorem Effect.counted {w w' : World} {e : Entry} {h : History rpc} {ev : Event rpc}
    (he : Effect set w e h ev w') (hmax : ∀ E, e = .tick E → E.cfg.maxAttempts ≤ N)
    (hc : ∀ id r, w.store.get id = some r → r.Counted N) {id : String} {r : PaymentRecord}
    (hget : w'.store.get id = some r) : r.Counted N := by
  rcases he.origin hget with hold | ⟨hcreates, -⟩ | ⟨old, new, now, hold, -, hs, hk, hw, -, rfl⟩
  · exact hc id r hold
  · exact .created hcreates
  · exact (PaymentRecord.Counted.writes hs hk hmax hw (hc id old hold)).stamped now

/-- In a run whose engines try at most `N` times, every payment is counted. -/
theorem Runs.counted {v : View set} (h : Runs set v) :
    (∀ E, .tick E ∈ v.entries → E.cfg.maxAttempts ≤ N) →
      ∀ id r, v.state.store.get id = some r → r.Counted N := by
  refine h.rule (P := fun v => (∀ E, .tick E ∈ v.entries → E.cfg.maxAttempts ≤ N) →
    ∀ id r, v.state.store.get id = some r → r.Counted N) ?_ ?_ ?_ ?_
  · intro w hw _ id r hget
    rw [hw.1] at hget
    cases hget
  · exact fun v e _ ih hmax => ih fun E hE => hmax E (List.mem_append_left _ hE)
  · intro v i e ev w' _ ih he _ heffect hmax id r hget
    refine heffect.counted (fun E hE => hmax E ?_) (ih hmax) hget
    exact hE ▸ List.mem_of_getElem? he
  · exact fun v b free _ ih _ hmax => ih hmax

/-- No payment is tried more often than the engines are set to, and none fails in silence. -/
theorem failures_counted {c : Resumption.Config (processes set)}
    (h : Resumption.Reachable (processes set) c)
    (hmax : ∀ E p, (.tick E, p) ∈ c.procs → E.cfg.maxAttempts ≤ N) {id : String}
    {r : PaymentRecord} (hget : c.state.store.get id = some r) : r.Counted N := by
  refine Runs.counted (h.guarded (processes_meet set)) (fun E hE => ?_) id r hget
  obtain ⟨⟨_, p⟩, hp, rfl⟩ := List.mem_map.mp hE
  exact hmax E p hp

end

/-- Whether no engine of the point tries more than `N` times. -/
def triesAtMost (N : UInt32) (c : Resumption.Config (processes calm)) : Bool :=
  c.procs.all fun p =>
    match p.1 with
    | .tick E => E.cfg.maxAttempts ≤ N
    | _ => true

theorem givenUp_tries : (playSample givenUp).any (fun c =>
    ((c.state.store.get "job").any fun r => r.state == .failed && r.attempts == 3) &&
      triesAtMost 3 c) = true := by
  decide +kernel

/-- Three attempts are made at the sample job, and then it has failed. -/
theorem givenUp_counted : ∃ (c : Resumption.Config (processes calm)) (r : PaymentRecord),
    c.state.store.get "job" = some r ∧ r.state = .failed ∧ r.attempts = 3 ∧ r.Counted 3 := by
  obtain ⟨c, hc, htest⟩ := playSample_any givenUp_tries
  simp only [Bool.and_eq_true, Option.any_eq_true, beq_iff_eq] at htest
  obtain ⟨⟨r, hget, hstate, hattempts⟩, htries⟩ := htest
  refine ⟨c, r, hget, hstate, hattempts, failures_counted hc (fun E p hp => ?_) hget⟩
  exact of_decide_eq_true (List.all_eq_true.mp htries _ hp)

end Buyback
