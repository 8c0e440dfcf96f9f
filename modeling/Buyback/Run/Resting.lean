import Buyback.Run.Quarantine

/-!
# Payments at rest

A failed or an expired payment stays as it is until an operator resumes it.  No engine works
on it, and no stale process writes more over it than the bookkeeping of failed attempts.  Only
`retry` and `force_sweep` move it, and both resume it at the step it stopped in, with its
receipts, positions, counters and purchase.
-/

namespace Buyback

open Resumption

/-- The states in which a payment waits for an operator. -/
def PaymentState.Resting (s : PaymentState) : Prop := s = .failed ∨ s = .expired

namespace PaymentRecord

variable {r new : PaymentRecord} {e : Entry} {h : History rpc}

/-- The record is resumed: a failed one in the step it failed in, any other as detected. -/
def ResumedAs (r new : PaymentRecord) : Prop :=
  r.quarantined = none ∧ new = { r with
    state := if r.state = .failed then r.stage else .detected
    attempts := 0, nextAttemptAt := 0, lastError := none
    version := new.version, updatedAt := new.updatedAt }

theorem ResumedAs.stamped (hr : r.ResumedAs new) (t : UInt64) : r.ResumedAs (new.stamped t) := by
  obtain ⟨hq, heq⟩ := hr
  refine ⟨hq, ?_⟩
  conv_lhs => rw [heq]
  rfl

/-- What was frozen before it was resumed, was resumed. -/
theorem Frozen.resumed {a b c : PaymentRecord} (hf : a.Frozen b) (hr : b.ResumedAs c) :
    a.ResumedAs c := by
  obtain ⟨hq, heq⟩ := hr
  rw [hf] at hq heq
  exact ⟨hq, heq⟩

theorem Frozen.state_eq (hf : r.Frozen new) : new.state = r.state := by
  rw [hf]

theorem Frozen.pending_eq (hf : r.Frozen new) : new.pending = r.pending := by
  rw [hf]

variable [Ss58]

namespace Sound

theorem pending_of_resting (hs : r.Sound) (hrest : r.state.Resting) : r.pending = none := by
  rcases hrest with hf | hx
  · exact hs.pending_of_failed hf
  · exact (hs.pending_of_unpaid (.inr hx)).1

/-- The retry of a record resumes it. -/
theorem retry_resumes (hs : r.Sound) (hq : r.quarantined = none)
    (hcan : r.state.canTransition r.retryTarget = true) : r.ResumedAs (r.moved r.retryTarget) := by
  refine ⟨hq, ?_⟩
  rcases hs.retry_cases hcan with ⟨hf, ht, hw⟩ | ⟨hunpaid, ht⟩
  · rw [ht, if_pos hf]
    simp only [PaymentRecord.moved, if_neg hw.ne_failed]
  · have hne : r.state ≠ .failed := by
      rcases hunpaid with h | h <;> rw [h] <;> decide
    rw [ht, if_neg hne]
    rfl

/-- So does the forced sweep. -/
theorem forceSweep_resumes (hs : r.Sound) (hcan : r.state.canTransition .detected = true)
    (hresume : r.ResumeOk .detected) : r.ResumedAs (r.moved .detected) := by
  rcases hs.forceSweep_cases hcan hresume with hunpaid | ⟨hf, hstage⟩
  · have hne : r.state ≠ .failed := by
      rcases hunpaid with h | h <;> rw [h] <;> decide
    exact ⟨(hs.pending_of_unpaid hunpaid).2.1, by rw [if_neg hne]; rfl⟩
  · exact ⟨hs.quarantined_of_detected hstage, by rw [if_pos hf, hstage]; rfl⟩

/-- A tick only counts failed attempts over a record at rest. -/
theorem rests (hs : r.Sound) (hrest : r.state.Resting) {E : Engine}
    (hw : (Entry.tick E).Writes h r new) : r.Frozen new := by
  have hp := hs.pending_of_resting hrest
  have hidle {s : PaymentState} (hstate : r.state = s) (hs : ¬ s.Resting) : r.Frozen new :=
    absurd (hstate ▸ hrest) hs
  have hnot {s : PaymentState} (hf : s ≠ .failed) (hx : s ≠ .expired) : ¬ s.Resting :=
    fun h => h.elim hf hx
  cases hw with
  | tick _ hw =>
      cases hw with
      | detected _ hstate _ _ => exact hidle hstate (hnot nofun nofun)
      | expired _ hstate => exact hidle hstate (hnot nofun nofun)
      | funded _ hstate => exact hidle hstate (hnot nofun nofun)
      | swept _ hstate => exact hidle hstate (hnot nofun nofun)
      | consolidated _ hstate _ _ => exact hidle hstate (hnot nofun nofun)
      | bought _ hstate _ _ _ => exact hidle hstate (hnot nofun nofun)
      | settled _ hstate _ _ _ => exact hidle hstate (hnot nofun nofun)
      | applied hpending _ _ _ _ => cases hp.symm.trans hpending
      | dead hpending _ => cases hp.symm.trans hpending
      | failedOnChain hpending _ _ => cases hp.symm.trans hpending
      | quarantined hpending _ _ _ => cases hp.symm.trans hpending
      | notified hstate => exact hidle hstate (hnot nofun nofun)
      | postponed hstate => exact hidle hstate (hnot nofun nofun)
      | @attempted _ text t _ _ _ _ =>
          obtain ⟨lastError, nextAttemptAt, ⟨-, heq⟩ | ⟨hcan, -⟩⟩ := r.recordFailure_cases text _ t
          · rw [heq]
            rfl
          · rcases hrest with hf | hx
            · rw [hf] at hcan
              cases hcan
            · rw [hx] at hcan
              cases hcan
  | journal _ hb _ _ =>
      cases hb with
      | fund hstate _ => exact hidle hstate (hnot nofun nofun)
      | sweep hstate _ => exact hidle hstate (hnot nofun nofun)
      | consolidate hstate _ _ _ => exact hidle hstate (hnot nofun nofun)
      | returnDust hstate _ _ => exact hidle hstate (hnot nofun nofun)
      | buyStake hstate _ _ _ _ _ _ _ _ _ => exact hidle hstate (hnot nofun nofun)
      | destroy hstate _ _ _ _ _ _ _ _ _ _ => exact hidle hstate (hnot nofun nofun)

/-- A write over a record at rest counts a failed attempt, or an operator resumes it. -/
theorem rests_or_resumes (hs : r.Sound) (hrest : r.state.Resting) (hw : e.Writes h r new) :
    r.Frozen new ∨ (∀ E, e ≠ .tick E) ∧ r.ResumedAs new := by
  cases hw with
  | tick hi hw => exact .inl (hs.rests hrest (.tick hi hw))
  | journal hd hb hcall hsigner => exact .inl (hs.rests hrest (.journal hd hb hcall hsigner))
  | retry _ _ hq hcan _ => exact .inr ⟨fun _ => nofun, hs.retry_resumes hq hcan⟩
  | forceSweep _ _ hcan hresume => exact .inr ⟨fun _ => nofun, hs.forceSweep_resumes hcan hresume⟩

end Sound

end PaymentRecord

section

variable [Ss58] {set : Setting}

/-- The step is not the write of an operator's call over the payment `id`. -/
def LeftAlone (id : String) (c c' : Resumption.Config (processes set)) : Prop :=
  ∀ i rec t e, c'.trace = (i, ⟨.store (.update rec), .ok t⟩) :: c.trace → rec.id = id →
    c.view.entries[i]? = some e → ∃ E, e = .tick E

/-- The payment `id`, at rest as `r` in `c`, is at rest in `c'`. -/
structure Rests (c c' : Resumption.Config (processes set)) (id : String) (r : PaymentRecord) :
    Prop where
  /-- It is as it was, but for the bookkeeping of failed attempts. -/
  record : ∃ r', c'.state.store.get id = some r' ∧ r.Frozen r'
  /-- No extrinsic was journaled for it. -/
  journals : ∀ i p, Issued c'.trace i id p → Issued c.trace i id p

/-- It is at rest, and stays so or is resumed where it stopped, whatever the next step is. -/
structure AtRest (c c' : Resumption.Config (processes set)) (id : String) (r : PaymentRecord) :
    Prop where
  rests : Rests c c' id r
  next : ∀ c'', Step (processes set) c' c'' →
    ∃ r'', c''.state.store.get id = some r'' ∧ (r.Frozen r'' ∨ r.ResumedAs r'')

variable {c c' : Resumption.Config (processes set)} {id : String} {r : PaymentRecord}

/-- One request leaves a payment at rest as it is, or an operator resumes it. -/
theorem Effect.rests {w w' : World} {e : Entry} {h : History rpc} {ev : Event rpc}
    (he : Effect set w e h ev w') (hget : w.store.get id = some r) (hrest : r.state.Resting) :
    (∃ r', w'.store.get id = some r' ∧ r.Frozen r') ∨
      (∃ rec t, ev = ⟨.store (.update rec), .ok t⟩ ∧ rec.id = id) ∧ (∀ E, e ≠ .tick E) ∧
        ∃ r', w'.store.get id = some r' ∧ r.ResumedAs r' := by
  rcases he.next hget with hsame | ⟨new, now, hid, hs, -, hw, -, hev, hnew⟩
  · exact .inl ⟨r, hsame, .refl r⟩
  · rcases hs.rests_or_resumes hrest hw with hfrozen | ⟨hoperator, hresumed⟩
    · exact .inl ⟨_, hnew, hfrozen.stamped now⟩
    · exact .inr ⟨⟨new, now, hev, hid⟩, hoperator, _, hnew, hresumed.stamped now⟩

/-- No journal is stored for a payment at rest. -/
theorem Effect.not_issues {w w' : World} {e : Entry} {h : History rpc} {ev : Event rpc}
    (he : Effect set w e h ev w') (hget : w.store.get id = some r) (hrest : r.state.Resting)
    {p : PendingTx} : ¬ Issues ev id p := by
  rintro ⟨rec, t, rfl, hid, hp⟩
  cases he with
  | silent hs _ => cases hs
  | wrote hcur hid' hs _ hw _ _ =>
      rw [← hid', hid, hget] at hcur
      cases hcur
      rcases hs.rests_or_resumes hrest hw with hfrozen | ⟨-, -, hresumed⟩
      · rw [hfrozen.pending_eq, hs.pending_of_resting hrest] at hp
        cases hp
      · rw [hresumed] at hp
        cases (hs.pending_of_resting hrest).symm.trans hp

/-- One step keeps a payment at rest, unless it is an operator's. -/
theorem Rests.step {a b : Resumption.Config (processes set)}
    (ha : Resumption.Reachable (processes set) a) (hs : Step (processes set) a b)
    (hrest : r.state.Resting) (halone : LeftAlone id a b) (hr : Rests c a id r) :
    Rests c b id r := by
  obtain ⟨r', hget, hfrozen⟩ := hr.record
  have hrest' : r'.state.Resting := hfrozen.state_eq ▸ hrest
  cases serving ha hs with
  | quiet hstore htrace =>
      exact ⟨⟨r', by rw [hstore]; exact hget, hfrozen⟩, by rw [htrace]; exact hr.journals⟩
  | event hentry _ he htrace =>
      refine ⟨?_, fun i p hp => ?_⟩
      · rcases he.rests hget hrest' with ⟨r'', hr'', hf⟩ | ⟨⟨rec, t, rfl, hid⟩, hoperator, -⟩
        · exact ⟨r'', hr'', hfrozen.trans hf⟩
        · obtain ⟨E, heq⟩ := halone _ rec t _ htrace hid hentry
          exact absurd heq (hoperator E)
      · rw [htrace] at hp
        rcases issued_cons.mp hp with ⟨-, hi⟩ | hp
        · exact absurd hi (he.not_issues hget hrest')
        · exact hr.journals i p hp

/-- A failed or expired payment stays as it is until an operator resumes it. -/
theorem rest_until_resumed (h : Resumption.Reachable (processes set) c)
    (hrun : RunIf (processes set) (LeftAlone id) c c') (hget : c.state.store.get id = some r)
    (hrest : r.state.Resting) : AtRest c c' id r := by
  have hrests : Rests c c' id r := by
    refine RunIf.rule (P := fun a => Rests c a id r) hrun h
      ⟨⟨r, hget, .refl r⟩, fun _ _ hp => hp⟩ ?_
    exact fun a b ha hrests hs halone => hrests.step ha hs hrest halone
  obtain ⟨r', hget', hfrozen⟩ := hrests.record
  refine ⟨hrests, fun c'' hs => ?_⟩
  have hrest' : r'.state.Resting := hfrozen.state_eq ▸ hrest
  cases serving (h.run (RunIf.run hrun)) hs with
  | quiet hstore _ => exact ⟨r', by rw [hstore]; exact hget', .inl hfrozen⟩
  | event _ _ he _ =>
      rcases he.rests hget' hrest' with ⟨r'', hr'', hf⟩ | ⟨-, -, r'', hr'', hr⟩
      · exact ⟨r'', hr'', .inl (hfrozen.trans hf)⟩
      · exact ⟨r'', hr'', .inr (hfrozen.resumed hr)⟩

end

/-- A tick at time `t` of the process `i` fails, since the chain is not there. -/
def offlineTick (i : ℕ) (t : UInt64) : List (Move (player calm)) :=
  [start (.tick (sampleEngine none)), serve i .usual, serve i (.time t),
    serve i (.refuse (.chain "offline"))] ++ serves i 3

/-- The sample job is given up. -/
def givenUp : List (Move (player calm)) :=
  sampleJob ++ offlineTick 1 0 ++ offlineTick 2 20 ++ offlineTick 3 50

/-- Whether a step that writes is one of a tick. -/
def writesByTick (c c' : Resumption.Config (processes calm)) : Bool :=
  match c'.trace with
  | (i, ⟨.store (.update _), .ok _⟩) :: _ =>
      match c.procs[i]? with
      | some (.tick _, _) => true
      | _ => false
  | _ => true

theorem leftAlone_of_writesByTick {id : String} (c c' : Resumption.Config (processes calm))
    (h : writesByTick c c' = true) : LeftAlone id c c' := by
  intro i rec t e htrace _ he
  rw [Resumption.Config.view, List.getElem?_map, Option.map_eq_some_iff] at he
  obtain ⟨⟨e, p⟩, hp, rfl⟩ := he
  rw [writesByTick, htrace] at h
  simp only [hp] at h
  split at h
  next E _ heq =>
    cases heq
    exact ⟨E, rfl⟩
  next => cases h

theorem givenUp_fails : (playSample givenUp).any (fun c =>
    ((c.state.store.get "job").any fun r => r.state == .failed) &&
      (Config.playIf (player calm) writesByTick c (offlineTick 4 90)).isSome) = true := by
  decide +kernel

/-- The sample job is given up, and a later tick leaves it at rest. -/
theorem givenUp_rests : ∃ (c c' : Resumption.Config (processes calm)) (r : PaymentRecord),
    c.state.store.get "job" = some r ∧ r.state = .failed ∧ AtRest c c' "job" r := by
  obtain ⟨c, hc, htest⟩ := playSample_any givenUp_fails
  simp only [Bool.and_eq_true, Option.any_eq_true, beq_iff_eq, Option.isSome_iff_exists] at htest
  obtain ⟨⟨r, hget, hstate⟩, c', hplay⟩ := htest
  exact ⟨c, c', r, hget, hstate, rest_until_resumed hc
    (Config.playIf_run leftAlone_of_writesByTick hplay) hget (.inl hstate)⟩

end Buyback
