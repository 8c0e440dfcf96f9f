import Buyback.Attempts.First
import Buyback.Rpc.Redaction

/-!
# Failover

`connect_any` is the first attempt that succeeds, over its endpoints in their order, round
after round.  An endpoint that connects without an answer for its finalized head has failed.
What is left when all have failed is the error of the last, which does not depend on any key.
-/

namespace Buyback

open Attempts

variable {eps : List Endpoint}

/-- The endpoints in the order in which they are tried, numbered from `n`. -/
def schedule (eps : List Endpoint) (rounds n : ℕ) : List (Endpoint × ℕ) :=
  ((List.replicate rounds eps).flatten).zipIdx n

theorem schedule_succ (rounds n : ℕ) : schedule eps (rounds + 1) n =
    eps.zipIdx n ++ schedule eps rounds (n + eps.length) := by
  rw [schedule, List.replicate_succ, List.flatten_cons, List.zipIdx_append, schedule]

theorem mem_schedule {rounds n : ℕ} {x : Endpoint × ℕ} (h : x ∈ schedule eps rounds n) :
    x.1 ∈ eps := by
  induction rounds generalizing n with
  | zero => cases h
  | succ rounds ih =>
      rw [schedule_succ, List.mem_append] at h
      rcases h with h | h
      · exact List.fst_mem_of_mem_zipIdx h
      · exact ih h

/-- The rounds of `connect_any`. -/
def rounds (attempts : UInt32) : ℕ := max attempts.toNat 1

theorem schedule_eq_nil (attempts : UInt32) (h : schedule eps (rounds attempts) 0 = []) :
    eps = [] := by
  obtain ⟨k, hk⟩ : ∃ k, rounds attempts = k + 1 :=
    Nat.exists_eq_add_one.mpr (lt_max_of_lt_right Nat.one_pos)
  rw [hk, schedule_succ, List.append_eq_nil_iff] at h
  exact List.zipIdx_eq_nil_iff.mp h.1

section

variable [Websocket] [StdTexts] {visits : ℕ → Visit} {e : Error}

/-- One attempt: the endpoint connects and answers for its finalized head. -/
def attempt (visits : ℕ → Visit) (x : Endpoint × ℕ) : Result Websocket.Client := do
  let c ← connectEndpoint (visits x.2).network x.1
  let _ ← (visits x.2).bestFinalizedNumber c
  return c

/-- The two calls of a round are one attempt. -/
theorem tryRound_cons (ep : Endpoint) (n : ℕ) (last : Error) :
    tryRound visits (ep :: eps) n last =
      match attempt visits (ep, n) with
      | .ok c => .ok c
      | .error e => tryRound visits eps (n + 1) e := by
  simp only [tryRound, attempt]
  cases connectEndpoint (visits n).network ep with
  | error e => rfl
  | ok c =>
      rw [Result.ok_bind rfl]
      dsimp only
      cases (visits n).bestFinalizedNumber c with
      | ok number => rfl
      | error e => rfl

theorem tryRound_eq_first (n : ℕ) (last : Error) :
    tryRound visits eps n last = first (attempt visits) (eps.zipIdx n) last := by
  induction eps generalizing n last with
  | nil => rfl
  | cons ep eps ih =>
      rw [List.zipIdx_cons, tryRound_cons]
      cases hattempt : attempt visits (ep, n) with
      | ok c => rw [first_cons_ok hattempt]
      | error e => rw [first_cons_error hattempt, ← ih]

theorem tryRounds_eq_first (rounds n : ℕ) (last : Error) :
    tryRounds visits eps rounds n last =
      first (attempt visits) (schedule eps rounds n) last := by
  induction rounds generalizing n last with
  | zero => rfl
  | succ rounds ih =>
      rw [schedule_succ, first_append, tryRounds, tryRound_eq_first]
      cases first (attempt visits) (eps.zipIdx n) last with
      | ok c => rfl
      | error e => exact ih (n + eps.length) e

/-- The error of an attempt: that of a check, or the node's own. -/
inductive AttemptError (visits : ℕ → Visit) (ep : Endpoint) (n : ℕ) : Error → Prop where
  | check {check : Check} :
      FailsAt (visits n).network ep check →
      AttemptError visits ep n (check.error ep)
  | backend {transport : Websocket.Transport} {text : String} :
      (visits n).network.fromBackend transport = .error text →
      AttemptError visits ep n (.chain text)
  | head {c : Websocket.Client} {e : Error} :
      connectEndpoint (visits n).network ep = .ok c →
      (visits n).bestFinalizedNumber c = .error e →
      AttemptError visits ep n e

theorem attempt_error {x : Endpoint × ℕ} (h : attempt visits x = .error e) :
    AttemptError visits x.1 x.2 e := by
  rcases Result.bind_error h with h | ⟨c, hconnect, h⟩
  · obtain ⟨check, hcheck, rfl⟩ | ⟨transport, text, htext, rfl⟩ := connectEndpoint_error h
    · exact .check hcheck
    · exact .backend htext
  · rcases Result.bind_error h with h | ⟨number, -, h⟩
    · exact .head hconnect h
    · cases h

/-- The client is the one of the first attempt that succeeds.  Without one, every attempt of
every round has failed, and the error is that of the last. -/
theorem connectAny_first (visits : ℕ → Visit) (eps : List Endpoint) (attempts : UInt32) :
    (∀ client, connectAny visits eps attempts = .ok client ↔
      ∃ before x after, schedule eps (rounds attempts) 0 = before ++ x :: after ∧
        AllFail (attempt visits) before ∧ attempt visits x = .ok client) ∧
    ∀ e, connectAny visits eps attempts = .error e →
      AllFail (attempt visits) (schedule eps (rounds attempts) 0) ∧
        (eps = [] ∧ e = noEndpoint ∨
          ∃ before x, schedule eps (rounds attempts) 0 = before ++ [x] ∧ x.1 ∈ eps ∧
            attempt visits x = .error e ∧ AttemptError visits x.1 x.2 e) := by
  have hfirst : connectAny visits eps attempts =
      first (attempt visits) (schedule eps (rounds attempts) 0) noEndpoint :=
    tryRounds_eq_first _ _ _
  rw [hfirst]
  refine ⟨fun client => first_ok_iff, fun e he => ?_⟩
  obtain ⟨hfail, ⟨hnil, rfl⟩ | ⟨before, x, heq, hx⟩⟩ := first_error he
  · exact ⟨hfail, .inl ⟨schedule_eq_nil attempts hnil, rfl⟩⟩
  · have hmem : x ∈ schedule eps (rounds attempts) 0 := heq ▸ List.mem_append_right _ (.head _)
    exact ⟨hfail, .inr ⟨before, x, heq, mem_schedule hmem, hx, attempt_error hx⟩⟩

end

/-! ## An endpoint that is down -/

/-- A network with a node behind every host. -/
def online : Network := ⟨fun _ _ => some (), fun _ => .ok ()⟩

/-- Hosts that are down in the first round. -/
def downOnce (n : ℕ) : Visit := ⟨if n < 2 then offline else online, fun _ => .ok 7⟩

def twoEndpoints : List Endpoint := [.new "wss://a.io", .new "wss://b.io"]

/-- The second round finds the first endpoint. -/
theorem downOnce_connects :
    @connectAny plainWebsocket plainTexts downOnce twoEndpoints 3 = .ok () ∧
    ∃ before x after, schedule twoEndpoints (rounds 3) 0 = before ++ x :: after ∧
      AllFail (@attempt plainWebsocket plainTexts downOnce) before ∧
      @attempt plainWebsocket plainTexts downOnce x = .ok () := by
  have h : @connectAny plainWebsocket plainTexts downOnce twoEndpoints 3 = .ok () := rfl
  exact ⟨h, ((@connectAny_first plainWebsocket plainTexts downOnce twoEndpoints 3).1 ()).mp h⟩

end Buyback
