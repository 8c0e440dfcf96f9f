import Buyback.Resumption.Complete
import Buyback.System.Script

/-!
# What a tick serves

A tick that has ended made, after its listing, the time and the one read of stake, the
requests of one step for each payment that was due, in the order of the listing, each step
to its end.  So no payment stops the others: a step that fails, for whatever reason, is
followed by the next.  The tick itself fails only if the listing or the read of stake does.
-/

namespace Buyback

open Resumption Program

section

variable [Ss58] (E : Engine)

/-- The states a tick lists. -/
def openStates : List PaymentState := [.pending, .detected, .funded, .swept, .settled, .failed]

/-- What a step adds to the result of its tick. -/
def advanced : Result Bool → ℕ
  | .ok true => 1
  | _ => 0

/-- The requests for the records of a listing, and how many payments were advanced. -/
inductive Engine.Driven (positions : Positions) (t : UInt64) :
    List PaymentRecord → List (Event rpc) → ℕ → Prop where
  | nil : Driven positions t [] [] 0
  | skip {r : PaymentRecord} {rs : List PaymentRecord} {es : List (Event rpc)} {n : ℕ} :
      Engine.skips r t = true →
      Driven positions t rs es n →
      Driven positions t (r :: rs) es n
  | step {r : PaymentRecord} {rs : List PaymentRecord} {es es' : List (Event rpc)} {n : ℕ}
      {result : Result Bool} :
      Engine.skips r t = false →
      (E.step r positions).Ends es result →
      Driven positions t rs es' n →
      Driven positions t (r :: rs) (es ++ es') (advanced result + n)

/-- The requests of a tick that has ended, and its result. -/
inductive Engine.Ticked : List (Event rpc) → Result ℕ → Prop where
  | unlisted {e : Error} :
      Ticked [⟨.store (.list openStates), .error e⟩] (.error e)
  | unread {recs : List PaymentRecord} {t : UInt64} {e : Error} :
      Engine.watched recs ≠ [] →
      Ticked [⟨.store (.list openStates), .ok recs⟩, ⟨.host .now, t⟩,
        ⟨.chain (.stakePositionsMany (Engine.watched recs)), .error e⟩] (.error e)
  | unwatched {recs : List PaymentRecord} {t : UInt64} {es : List (Event rpc)} {n : ℕ} :
      Engine.watched recs = [] →
      E.Driven [] t recs es n →
      Ticked (⟨.store (.list openStates), .ok recs⟩ :: ⟨.host .now, t⟩ :: es) (.ok n)
  | watched {recs : List PaymentRecord} {t : UInt64} {positions : Positions}
      {es : List (Event rpc)} {n : ℕ} :
      Engine.watched recs ≠ [] →
      E.Driven positions t recs es n →
      Ticked (⟨.store (.list openStates), .ok recs⟩ :: ⟨.host .now, t⟩ ::
        ⟨.chain (.stakePositionsMany (Engine.watched recs)), .ok positions⟩ :: es) (.ok n)

variable {E} {positions : Positions} {t : UInt64} {es : List (Event rpc)}

/-- The loop drives every record, and does not fail. -/
theorem Engine.drive_ends {rs : List PaymentRecord} {n : ℕ} {x : Result ℕ}
    (h : (E.drive positions t rs n).Ends es x) :
    ∃ m, E.Driven positions t rs es m ∧ x = .ok (n + m) := by
  induction rs generalizing n es with
  | nil =>
      obtain ⟨rfl, rfl⟩ := h.done
      exact ⟨0, .nil, rfl⟩
  | cons r rs ih =>
      rw [Engine.drive] at h
      split at h
      next hskips =>
        obtain ⟨m, hm, rfl⟩ := ih h
        exact ⟨m, .skip hskips hm, rfl⟩
      next hskips =>
        have hskips : Engine.skips r t = false := Bool.of_not_eq_true hskips
        obtain ⟨result, es₁, es₂, rfl, hstep, hrest⟩ := Ends.attempt_bind h
        split at hrest
        next =>
          obtain ⟨m, hm, rfl⟩ := ih hrest
          exact ⟨_, .step hskips hstep hm, by simp [advanced, Nat.add_assoc]⟩
        next =>
          obtain ⟨m, hm, rfl⟩ := ih hrest
          exact ⟨_, .step hskips hstep hm, by simp [advanced]⟩
        next =>
          obtain ⟨m, hm, rfl⟩ := ih hrest
          exact ⟨_, .step hskips hstep hm, by simp [advanced]⟩

/-- The read of stake, and then the loop. -/
theorem Engine.read_ends {recs : List PaymentRecord} {x : Result ℕ}
    (h : (Program.bind (if (Engine.watched recs).isEmpty then pure []
      else Prog.chain (.stakePositionsMany (Engine.watched recs)))
        fun positions => E.drive positions t recs 0).Ends es x) :
    E.Ticked (⟨.store (.list openStates), .ok recs⟩ :: ⟨.host .now, t⟩ :: es) x := by
  by_cases hwatched : Engine.watched recs = []
  · rw [hwatched, List.isEmpty_nil, if_pos rfl] at h
    obtain ⟨n, hn, rfl⟩ := Engine.drive_ends h
    rw [Nat.zero_add]
    exact .unwatched hwatched hn
  · rw [List.isEmpty_eq_false_iff.mpr hwatched, if_neg Bool.false_ne_true] at h
    obtain ⟨answer, es', rfl, hrest⟩ := Ends.request_bind h
    cases answer with
    | error e =>
        obtain ⟨rfl, rfl⟩ := Ends.done hrest
        exact .unread hwatched
    | ok positions =>
        obtain ⟨n, hn, rfl⟩ := Engine.drive_ends hrest
        rw [Nat.zero_add]
        exact .watched hwatched hn

theorem Engine.tick_ends {x : Result ℕ} (h : E.tick.Ends es x) : E.Ticked es x := by
  obtain ⟨listed, es', rfl, hlisted⟩ := Ends.request_bind h
  cases listed with
  | error e =>
      obtain ⟨rfl, rfl⟩ := Ends.done hlisted
      exact .unlisted
  | ok recs =>
      obtain ⟨t, es'', rfl, htime⟩ := Ends.request_bind hlisted
      exact Engine.read_ends htime

/-- A tick that has ended has served every payment that was due, and `result` is what it
returned. -/
theorem tick_served {set : Setting} {c : Resumption.Config (processes set)}
    (h : Resumption.Reachable (processes set) c) {i : ℕ} {x : Result Unit}
    (hi : c.procs[i]? = some (.tick E, some (.done x))) :
    ∃ result, E.tick.Ends (historyOf c.trace i).reverse result ∧
      E.Ticked (historyOf c.trace i).reverse result ∧ x = result.map fun _ => () := by
  have hends : (E.tick.bind fun _ => pure ()).Ends (historyOf c.trace i).reverse x := h.leads hi
  rcases Ends.bind hends with ⟨e, he, rfl⟩ | ⟨n, es₁, es₂, heq, hn, hrest⟩
  · exact ⟨.error e, he, Engine.tick_ends he, rfl⟩
  · obtain ⟨rfl, rfl⟩ := Ends.done hrest
    rw [heq, List.append_nil]
    exact ⟨.ok n, hn, Engine.tick_ends hn, rfl⟩

end

/-! ## A payment that fails -/

/-- Two jobs, and a tick that cannot read the stake of the one it serves first. -/
def oneFails : List (Move (player calm)) :=
  sampleJob ++ start (.createSweepJob (sampleEngine none) "other" "path" "xxx" none) ::
    serves 1 4 ++ start (.tick (sampleEngine none)) :: serves 2 2 ++
      serve 2 (.refuse (.chain "no node")) :: serves 2 8

/-- The tick has ended. -/
def tickEnded (c : Resumption.Config (processes calm)) : Bool :=
  match c.procs[2]? with
  | some (Entry.tick _, some (Program.done _)) => true
  | _ => false

/-- The step of the job that is listed first has failed, and the other job is funded. -/
def secondFunded (c : Resumption.Config (processes calm)) : Bool :=
  tickEnded c && (c.state.store.get "other").any (fun r => r.attempts == 1) &&
    (c.state.store.get "job").any fun r => r.state == .funded

theorem oneFails_funded : (playSample oneFails).any secondFunded = true := by
  decide

/-- The tick has served both jobs. -/
theorem oneFails_served : ∃ (c : Resumption.Config (processes calm)) (E : Engine)
    (result : Result ℕ), E.tick.Ends (historyOf c.trace 2).reverse result ∧
      E.Ticked (historyOf c.trace 2).reverse result ∧
      ((c.state.store.get "job").any fun r => r.state == .funded) = true := by
  obtain ⟨c, hc, htest⟩ := playSample_any oneFails_funded
  simp only [secondFunded, Bool.and_eq_true] at htest
  obtain ⟨⟨hended, -⟩, hfunded⟩ := htest
  unfold tickEnded at hended
  split at hended
  next E x hproc =>
    obtain ⟨result, hends, hticked, -⟩ := tick_served hc hproc
    exact ⟨c, E, result, hends, hticked, hfunded⟩
  next => cases hended

end Buyback
