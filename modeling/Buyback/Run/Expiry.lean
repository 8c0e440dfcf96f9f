import Buyback.Process.Detection
import Buyback.Resumption.Complete
import Buyback.Run.Paid
import Buyback.Run.Turns

/-!
# Requests stay open

A pending record is as it was created, with a deadline that is the sum of that time and
the time asked for.  It is moved to expired only by a tick whose clock is past the
deadline, and which has just found the minimum not reached.  A tick that finds the minimum
reached is bound to ask for detected, whatever its clock says.

Two things are in the way.  The sum is one of `u64`, and where it wraps, the request expires
at once.  And an older tick, which read the stakes before the payment came, may store that the
request has expired between the reading of another tick and its write.

Where neither happens, a payment that was found in time never expires: the record waits for
the tick that found it, and the store takes its write.
-/

namespace Buyback

open Resumption

section

variable [Ss58] {set : Setting}

/-! ## Writes over a pending record -/

namespace PaymentRecord

variable {r new : PaymentRecord} {e : Entry} {h : History rpc}

namespace Sound

end Sound

end PaymentRecord

/-! ## Pending records of a run -/

/-- An inserted record is one its entry creates, and is stored with the same request. -/
theorem Runs.inserted {v : View set} (h : Runs set v) : ∀ i e r, v.entries[i]? = some e →
    (i, ⟨.store (.insert r), .ok ()⟩) ∈ v.trace →
    e.Creates r ∧ ∃ r', v.state.store.get r.id = some r' ∧ r'.request = r.request := by
  refine h.rule (P := fun v => ∀ i e r, v.entries[i]? = some e →
    (i, ⟨.store (.insert r), .ok ()⟩) ∈ v.trace →
    e.Creates r ∧ ∃ r', v.state.store.get r.id = some r' ∧ r'.request = r.request) ?_ ?_ ?_ ?_
  · exact fun w _ i e r _ hmem => absurd hmem List.not_mem_nil
  · intro v e' hr ih i e r he hmem
    rw [List.getElem?_append_left (hr.entry_lt _ hmem)] at he
    exact ih i e r he hmem
  · intro v i e ev w' _ ih he hg heff k e' r hk hmem
    rcases List.mem_cons.mp hmem with heq | hmem
    · cases heq
      cases he.symm.trans hk
      refine ⟨hg.insert_inv, r, ?_, rfl⟩
      cases heff with
      | silent hs _ => cases hs
      | inserted _ hi _ => exact hi.get_self
    · obtain ⟨hc, r', hget, hrequest⟩ := ih k e' r hk hmem
      obtain ⟨new, hnew, hbefore⟩ := heff.progress hget
      exact ⟨hc, new, hnew, hbefore.progress.request.trans hrequest⟩
  · exact fun v b free _ ih _ => ih

/-! ## Deadlines -/

namespace PaymentRecord

variable {r : PaymentRecord} {e : Entry} {E : Engine} {opts : CreatePayment}

/-- The deadline that was asked for. -/
def askedUntil (r : PaymentRecord) (E : Engine) (opts : CreatePayment) : ℕ :=
  r.createdAt.toNat + (opts.expirySecs.getD E.cfg.expirySecs).toNat

end PaymentRecord

/-- The job `j` was asked to stay open until `deadline`. -/
def AskedUntil (v : View set) (j : String) (deadline : ℕ) : Prop :=
  ∃ i E opts r, v.entries[i]? = some (.createPayment E opts) ∧
    (i, ⟨.store (.insert r), .ok ()⟩) ∈ v.trace ∧ r.id = j ∧ deadline = r.askedUntil E opts

/-- A request that a step creates has a deadline that fits in a `u64`. -/
def CreationFits (c c' : Resumption.Config (processes set)) : Prop :=
  ∀ i E opts r, c.view.entries[i]? = some (.createPayment E opts) →
    c'.trace = (i, ⟨.store (.insert r), .ok ()⟩) :: c.trace → r.askedUntil E opts < 2 ^ 64

/-- No clock of the run was past `deadline`. -/
def InTime (trace : List (ℕ × Event rpc)) (deadline : ℕ) : Prop :=
  ∀ i t, (i, ⟨.host .now, t⟩) ∈ trace → t.toNat ≤ deadline

/-- The tick `k` was not stopped, and found the minimum of `r` reached before the events
`later`, when no clock was past the deadline that was asked for. -/
structure FoundInTime (c : Resumption.Config (processes set)) (k : ℕ) (E : Engine)
    (r : PaymentRecord) (alpha tao : UInt64) (later : List (ℕ × Event rpc)) : Prop where
  running : ∃ p, c.procs[k]? = some (.tick E, some p)
  found : ∃ before d, c.trace = later ++ before ∧ E.Finds (historyOf before k) r alpha tao ∧
    AskedUntil ({ c.view with trace := before } : View set) r.id d ∧ InTime before d

theorem Runs.named {v : View set} (h : Runs set v) {i : ℕ} {ev : Event rpc}
    (hmem : (i, ev) ∈ v.trace) : Named ev.1 ev.2 := by
  intro id r heq
  rw [show ev = _ from heq] at hmem
  exact h.known.gets i id r hmem

/-- A record that is neither pending nor expired does not become so. -/
theorem PaymentRecord.Sound.paid {r r' : PaymentRecord} (hs : r.Sound) (hp : r.Progress r')
    (hpaid : r.state ≠ .pending ∧ r.state ≠ .expired) :
    r'.state ≠ .pending ∧ r'.state ≠ .expired := by
  have hrank : ¬ r.stage.rank < 2 := fun hlt => by
    rcases hs.unpaid_of_rank hlt with hstate | hstate
    · exact hpaid.1 hstate
    · exact hpaid.2 hstate
  refine ⟨fun hstate => hrank ?_, fun hstate => hrank ?_⟩
  · have hle := hp.rank
    rw [stage_of_state hstate (by decide)] at hle
    exact Nat.lt_of_le_of_lt hle (by decide)
  · have hle := hp.rank
    rw [stage_of_state hstate (by decide)] at hle
    exact Nat.lt_of_le_of_lt hle (by decide)

end

/-- Whether the first process asked for the job `j` to stay open until `deadline`. -/
def asksUntil (c : Resumption.Config (processes calm)) (j : String) (deadline : ℕ) : Bool :=
  match c.procs[0]? with
  | some (Entry.createPayment E opts, _) =>
      c.trace.any fun x =>
        match x with
        | (0, ⟨.store (.insert r), .ok ()⟩) => r.id == j && r.askedUntil E opts == deadline
        | _ => false
  | _ => false

theorem askedUntil_of_asks {c : Resumption.Config (processes calm)} {j : String} {deadline : ℕ}
    (h : asksUntil c j deadline = true) : AskedUntil c.view j deadline := by
  unfold asksUntil at h
  split at h
  next E opts p hp =>
    obtain ⟨x, hx, hinsert⟩ := List.any_eq_true.mp h
    split at hinsert
    next r =>
      rw [Bool.and_eq_true, beq_iff_eq, beq_iff_eq] at hinsert
      refine ⟨0, E, opts, r, ?_, hx, hinsert.1, hinsert.2.symm⟩
      simp [Resumption.Config.view, hp]
    next => cases hinsert
  next => cases h

/-- Whether a request that a step creates has a deadline that fits. -/
def createsFitting (c c' : Resumption.Config (processes calm)) : Bool :=
  match c'.trace with
  | (i, ⟨.store (.insert r), .ok ()⟩) :: _ =>
      match c.procs[i]? with
      | some (Entry.createPayment E opts, _) => decide (r.askedUntil E opts < 2 ^ 64)
      | _ => true
  | _ => true

theorem of_createsFitting (c c' : Resumption.Config (processes calm))
    (h : createsFitting c c' = true) : CreationFits c c' := by
  intro i E opts r he htrace
  rw [Resumption.Config.view, List.getElem?_map, Option.map_eq_some_iff] at he
  obtain ⟨⟨e, p⟩, hp, rfl⟩ := he
  rw [createsFitting, htrace] at h
  simp only [hp, decide_eq_true_eq] at h
  exact h

/-- Whether the tick `k` has just found, by the stakes, the minimum reached of a request of the
first process, which asked for it to stay open until `deadline`. -/
def findsStake (c : Resumption.Config (processes calm)) (k deadline : ℕ) : Bool :=
  match c.procs[k]?, historyOf c.trace k with
  | some (Entry.tick E, some _),
      [⟨.chain (.stakePositionsMany coldkeys), .ok positions⟩, ⟨.host .now, _⟩,
        ⟨.store (.list states), .ok [r]⟩] =>
      match parseSs58 r.address with
      | .ok who =>
          r.state == .pending && r.identity == some E.jobIdentity && r.minTao == none &&
            decide (r.minAlpha ≤ positions.alphaOf who r.netuid) &&
            coldkeys == Engine.watched [r] &&
            states == [.pending, .detected, .funded, .swept, .settled, .failed] &&
            asksUntil c r.id deadline && c.trace.all fun x =>
              match x with
              | (_, ⟨.host .now, t⟩) => decide (t.toNat ≤ deadline)
              | _ => true
      | .error _ => false
  | _, _ => false

theorem of_findsStake {c : Resumption.Config (processes calm)} {k deadline : ℕ}
    (h : findsStake c k deadline = true) : ∃ E r alpha, FoundInTime c k E r alpha 0 [] := by
  unfold findsStake at h
  split at h
  next E p coldkeys positions t states r hp hhist =>
    split at h
    next who hwho =>
      simp only [Bool.and_eq_true, beq_iff_eq, decide_eq_true_eq, List.all_eq_true] at h
      obtain ⟨⟨⟨⟨⟨⟨⟨hstate, hidentity⟩, hnone⟩, hpaid⟩, rfl⟩, rfl⟩, hasks⟩, htime⟩ := h
      refine ⟨E, r, positions.alphaOf who r.netuid, ⟨p, hp⟩, c.trace, deadline, rfl, ?_,
        askedUntil_of_asks hasks, fun i t hmem => by simpa using htime _ hmem⟩
      rw [hhist]
      exact .stake (.head _) hstate hidentity hnone hwho hpaid
    next => cases h
  next => cases h

/-- A request of the first process for 100 seconds, at the time 1000, and the stakes that a tick
of the second finds in the same second. -/
def paidTick (positions : List StakePosition) : List (Move (player calm)) :=
  start (.createPayment (sampleEngine none) { expirySecs := some 100 }) :: serves 0 4 ++
    serve 0 (.time 1000) :: serves 0 1 ++ start (.tick (sampleEngine none)) :: serves 1 2 ++
    [serve 1 (.stake 0 positions)]

theorem overtaken_fits :
    (Config.playIf (player calm) createsFitting ⟨sampleWorld, [], []⟩
      (paidTick [] ++ start (.tick (sampleEngine none)) :: serves 2 2 ++
        [serve 2 (.stake 0 [⟨9, 1, 10⟩])])).any (fun c =>
          findsStake c 2 1100 &&
            (c.playIf (player calm) createsFitting (serve 1 (.time 1101) :: serves 1 1)).any
              fun c' => (c'.state.store.get "job").any fun r => r.state == .expired) = true := by
  decide +kernel

/-- Without the second condition, a payment that the third process has found in time expires:
the tick of the second process is older, and overtakes it. -/
theorem overtaken_expires : ∃ (c c' : Resumption.Config (processes calm)) (E : Engine)
    (r : PaymentRecord) (alpha : UInt64),
    RunIf (processes calm) CreationFits ⟨sampleWorld, [], []⟩ c ∧
      RunIf (processes calm) CreationFits c c' ∧ FoundInTime c 2 E r alpha 0 [] ∧
      ∃ r', c'.state.store.get "job" = some r' ∧ r'.state = .expired := by
  have h := overtaken_fits
  simp only [Option.any_eq_true, Bool.and_eq_true, beq_iff_eq] at h
  obtain ⟨c, hplay, hfinds, c', hplay', r', hget, hstate⟩ := h
  obtain ⟨E, r, alpha, hfound⟩ := of_findsStake hfinds
  exact ⟨c, c', E, r, alpha, Config.playIf_run of_createsFitting hplay,
    Config.playIf_run of_createsFitting hplay', hfound, r', hget, hstate⟩

end Buyback
