import Mathlib.Data.List.Basic

/-!
# Resumption programs

A program over an interface is a tree of requests.  `ask o next` makes the
request `o` and goes on as `next a` for the answer `a`.  `done` ends with a value
or an error.  Nothing here fixes what the answers are: a program is run by a
server that lives elsewhere, and two programs may be served in turns.

*Errors.*  Binding stops at the first error, so a do block over `Program` reads
as a function with early returns.  `attempt` hands the error back as a value.

*Guarantees.*  `Sat R G p h Q` says of a program `p`, with `h` the requests it
has made so far and their answers, that every request it still makes is allowed
by `G`, as long as the answers it gets are allowed by `R`, and that it ends with
`Q`.  The rules below follow the shape of the program: `sat_bind` for a
sequence, `Sat.mono` for a weaker end, and `Sat.grow` for the fact that a
history is only ever extended.

*Oracles.*  `result` and `requests` run a program whose answers are all given.

*Observations.*  `p.Leads es q` says that `p` makes the requests of `es` in turn
and goes on as `q` once it has the answers that stand there.
-/

namespace Resumption

/-- The requests a program may make, and the type of the answer to each. -/
structure Interface where
  /-- The requests. -/
  Op : Type
  /-- The answers to a request. -/
  Ans : Op → Type

/-- A program that makes requests and ends with a value or an error. -/
inductive Program (I : Interface) (ε α : Type) : Type where
  | done (result : Except ε α) : Program I ε α
  | ask (o : I.Op) (next : I.Ans o → Program I ε α) : Program I ε α

/-- A request with the answer it got. -/
abbrev Event (I : Interface) : Type := (o : I.Op) × I.Ans o

/-- The requests made so far with their answers, newest first. -/
abbrev History (I : Interface) : Type := List (Event I)

namespace Program

variable {I : Interface} {ε α β γ : Type}

/-- Sequencing: the first error ends the program. -/
def bind : Program I ε α → (α → Program I ε β) → Program I ε β
  | .done (.ok a), f => f a
  | .done (.error e), _ => .done (.error e)
  | .ask o next, f => .ask o fun a => (next a).bind f

/-- Run a program to its end and return how it ended. -/
def attempt : Program I ε α → Program I ε (Except ε α)
  | .done x => .done (.ok x)
  | .ask o next => .ask o fun a => (next a).attempt

/-- A single request whose answer may be an error. -/
def request (o : I.Op) (answer : I.Ans o → Except ε α) : Program I ε α :=
  .ask o fun a => .done (answer a)

instance : Monad (Program I ε) where
  pure a := .done (.ok a)
  bind := Program.bind

instance : MonadLift (Except ε) (Program I ε) where
  monadLift := .done

instance : MonadExceptOf ε (Program I ε) where
  throw e := .done (.error e)
  tryCatch p f := p.attempt.bind fun
    | .ok a => .done (.ok a)
    | .error e => f e

@[simp] theorem bind_done_ok (a : α) (f : α → Program I ε β) :
    (Program.done (.ok a)).bind f = f a := rfl

@[simp] theorem bind_done_error (e : ε) (f : α → Program I ε β) :
    (Program.done (.error e)).bind f = .done (.error e) := rfl

@[simp] theorem bind_ask (o : I.Op) (next : I.Ans o → Program I ε α) (f : α → Program I ε β) :
    (Program.ask o next).bind f = .ask o fun a => (next a).bind f := rfl

@[simp] theorem monad_bind_eq (p : Program I ε α) (f : α → Program I ε β) :
    (p >>= f) = p.bind f := rfl

@[simp] theorem pure_eq (a : α) : (pure a : Program I ε α) = .done (.ok a) := rfl

@[simp] theorem throw_eq (e : ε) : (throw e : Program I ε α) = .done (.error e) := rfl

@[simp] theorem lift_eq (x : Except ε α) :
    (MonadLift.monadLift x : Program I ε α) = .done x := rfl

@[simp] theorem liftM_eq (x : Except ε α) : (liftM x : Program I ε α) = .done x := rfl

theorem bind_assoc (p : Program I ε α) (f : α → Program I ε β) (g : β → Program I ε γ) :
    (p.bind f).bind g = p.bind fun a => (f a).bind g := by
  induction p with
  | done x => cases x <;> rfl
  | ask o next ih => exact congrArg (Program.ask o) (funext ih)

/-! ## Guarantees -/

/-- Every request of the program is allowed by `G` after the history it is made
in, whatever answers allowed by `R` it gets, and the program ends with `Q`. -/
def Sat (R : (o : I.Op) → I.Ans o → Prop) (G : History I → I.Op → Prop) :
    Program I ε α → History I → (History I → Except ε α → Prop) → Prop
  | .done x, h, Q => Q h x
  | .ask o next, h, Q => G h o ∧ ∀ a, R o a → (next a).Sat R G (⟨o, a⟩ :: h) Q

variable {R : (o : I.Op) → I.Ans o → Prop} {G : History I → I.Op → Prop}
  {h : History I}

@[simp] theorem sat_done (x : Except ε α) (Q : History I → Except ε α → Prop) :
    (Program.done x).Sat R G h Q ↔ Q h x := Iff.rfl

@[simp] theorem sat_ask (o : I.Op) (next : I.Ans o → Program I ε α)
    (Q : History I → Except ε α → Prop) :
    (Program.ask o next).Sat R G h Q ↔
      G h o ∧ ∀ a, R o a → (next a).Sat R G (⟨o, a⟩ :: h) Q := Iff.rfl

@[simp] theorem sat_request (o : I.Op) (answer : I.Ans o → Except ε α)
    (Q : History I → Except ε α → Prop) :
    (Program.request o answer).Sat R G h Q ↔
      G h o ∧ ∀ a, R o a → Q (⟨o, a⟩ :: h) (answer a) := Iff.rfl

/-- The end condition of a sequence, at the end of its first half. -/
def andThen (R : (o : I.Op) → I.Ans o → Prop) (G : History I → I.Op → Prop)
    (f : α → Program I ε β) (Q : History I → Except ε β → Prop) (h : History I) :
    Except ε α → Prop
  | .ok a => (f a).Sat R G h Q
  | .error e => Q h (.error e)

@[simp] theorem andThen_ok (f : α → Program I ε β) (Q : History I → Except ε β → Prop) (a : α) :
    andThen R G f Q h (.ok a) ↔ (f a).Sat R G h Q := Iff.rfl

@[simp] theorem andThen_error (f : α → Program I ε β) (Q : History I → Except ε β → Prop)
    (e : ε) : andThen R G f Q h (.error e) ↔ Q h (.error e) := Iff.rfl

theorem sat_bind (p : Program I ε α) (f : α → Program I ε β)
    (Q : History I → Except ε β → Prop) :
    (p.bind f).Sat R G h Q ↔ p.Sat R G h (andThen R G f Q) := by
  induction p generalizing h with
  | done x => cases x <;> rfl
  | ask o next ih =>
      simp only [bind_ask, sat_ask]
      exact and_congr_right fun _ => forall_congr' fun a => imp_congr_right fun _ => ih a

@[simp] theorem sat_request_bind (o : I.Op) (answer : I.Ans o → Except ε α)
    (f : α → Program I ε β) (Q : History I → Except ε β → Prop) :
    ((Program.request o answer).bind f).Sat R G h Q ↔
      G h o ∧ ∀ a, R o a → andThen R G f Q (⟨o, a⟩ :: h) (answer a) :=
  (sat_bind _ f Q).trans Iff.rfl

theorem sat_attempt (p : Program I ε α) (Q : History I → Except ε (Except ε α) → Prop) :
    p.attempt.Sat R G h Q ↔ p.Sat R G h fun h' x => Q h' (.ok x) := by
  induction p generalizing h with
  | done x => rfl
  | ask o next ih =>
      simp only [attempt, sat_ask]
      exact and_congr_right fun _ => forall_congr' fun a => imp_congr_right fun _ => ih a

/-- A weaker end condition. -/
theorem Sat.weaken {p : Program I ε α} {Q Q' : History I → Except ε α → Prop}
    (hp : p.Sat R G h Q) (hQ : ∀ h' x, Q h' x → Q' h' x) : p.Sat R G h Q' := by
  induction p generalizing h with
  | done x => exact hQ h x hp
  | ask o next ih => exact ⟨hp.1, fun a ha => ih a (hp.2 a ha)⟩

/-- Two guarantees at once. -/
theorem Sat.and {G' : History I → I.Op → Prop} {p : Program I ε α}
    {Q Q' : History I → Except ε α → Prop} (hp : p.Sat R G h Q) (hp' : p.Sat R G' h Q') :
    p.Sat R (fun h o => G h o ∧ G' h o) h fun h' x => Q h' x ∧ Q' h' x := by
  induction p generalizing h with
  | done x => exact ⟨hp, hp'⟩
  | ask o next ih => exact ⟨⟨hp.1, hp'.1⟩, fun a ha => ih a (hp.2 a ha) (hp'.2 a ha)⟩

/-- A history is only extended: the end history has the start as a suffix. -/
theorem Sat.grow {p : Program I ε α} {Q : History I → Except ε α → Prop}
    (hp : p.Sat R G h Q) : p.Sat R G h fun h' x => h <:+ h' ∧ Q h' x := by
  induction p generalizing h with
  | done x => exact ⟨List.suffix_refl h, hp⟩
  | ask o next ih =>
      refine ⟨hp.1, fun a ha => (ih a (hp.2 a ha)).weaken ?_⟩
      rintro h' x ⟨hs, hq⟩
      exact ⟨(List.suffix_cons _ h).trans hs, hq⟩

/-- A weaker end condition, at histories that extend the start. -/
theorem Sat.mono {p : Program I ε α} {Q Q' : History I → Except ε α → Prop}
    (hp : p.Sat R G h Q) (hQ : ∀ h' x, h <:+ h' → Q h' x → Q' h' x) : p.Sat R G h Q' :=
  hp.grow.weaken fun h' x hx => hQ h' x hx.1 hx.2

/-- The rule for a sequence: an end condition of the first half under which the
second half satisfies its own. -/
theorem Sat.bind {p : Program I ε α} {f : α → Program I ε β}
    {P : History I → Except ε α → Prop} {Q : History I → Except ε β → Prop}
    (hp : p.Sat R G h P)
    (hok : ∀ h' a, h <:+ h' → P h' (.ok a) → (f a).Sat R G h' Q)
    (herr : ∀ h' e, h <:+ h' → P h' (.error e) → Q h' (.error e)) :
    (p.bind f).Sat R G h Q := by
  rw [sat_bind]
  refine hp.mono fun h' x hs hx => ?_
  cases x with
  | ok a => exact hok h' a hs hx
  | error e => exact herr h' e hs hx

/-! ## Requests only -/

/-- Every request of the program is allowed, however it ends. -/
def Asks (R : (o : I.Op) → I.Ans o → Prop) (G : History I → I.Op → Prop) (h : History I)
    (p : Program I ε α) : Prop := p.Sat R G h fun _ _ => True

namespace Asks

theorem done {x : Except ε α} : Asks R G h (.done x : Program I ε α) := trivial

/-- A function without requests in the middle of a program. -/
theorem lift {x : Except ε α} {f : α → Program I ε β} (hf : ∀ a, x = .ok a → Asks R G h (f a)) :
    Asks R G h ((Program.done x).bind f) := by
  cases x with
  | ok a => exact hf a rfl
  | error e => trivial

/-- A sequence, with what its first half has learned. -/
theorem sat_bind {p : Program I ε α} {f : α → Program I ε β} {P : History I → Except ε α → Prop}
    (hp : p.Sat R G h P) (hf : ∀ h' a, h <:+ h' → P h' (.ok a) → Asks R G h' (f a)) :
    Asks R G h (p.bind f) :=
  Sat.bind hp hf fun _ _ _ _ => trivial

theorem bind {p : Program I ε α} {f : α → Program I ε β} (hp : Asks R G h p)
    (hf : ∀ h' a, h <:+ h' → Asks R G h' (f a)) : Asks R G h (p.bind f) :=
  sat_bind hp fun h' a hh _ => hf h' a hh

/-- A program whose error is handed on as a value. -/
theorem attempt {p : Program I ε α} {f : Except ε α → Program I ε β} (hp : Asks R G h p)
    (hf : ∀ h' x, h <:+ h' → Asks R G h' (f x)) : Asks R G h (p.attempt.bind f) :=
  sat_bind (P := fun _ _ => True) ((sat_attempt p _).mpr hp) fun h' x hh _ => hf h' x hh

theorem request {o : I.Op} {answer : I.Ans o → Except ε α} {f : α → Program I ε β} (hg : G h o)
    (hf : ∀ a x, R o a → answer a = .ok x → Asks R G (⟨o, a⟩ :: h) (f x)) :
    Asks R G h ((Program.request o answer).bind f) := by
  rw [Asks, sat_request_bind]
  refine ⟨hg, fun a ha => ?_⟩
  cases hx : answer a with
  | ok x => exact hf a x ha hx
  | error e => trivial

theorem ite {c : Prop} [Decidable c] {p q : Program I ε α} (hp : c → Asks R G h p)
    (hq : ¬ c → Asks R G h q) : Asks R G h (if c then p else q) := by
  split
  next hc => exact hp hc
  next hc => exact hq hc

end Asks

/-! ## Answers by an oracle -/

/-- How the program ends when an oracle answers its requests. -/
def result (oracle : (o : I.Op) → I.Ans o) : Program I ε α → Except ε α
  | .done x => x
  | .ask o next => (next (oracle o)).result oracle

/-- The requests the program makes when an oracle answers them, in order. -/
def requests (oracle : (o : I.Op) → I.Ans o) : Program I ε α → List I.Op
  | .done _ => []
  | .ask o next => o :: (next (oracle o)).requests oracle

variable {oracle : (o : I.Op) → I.Ans o}

@[simp] theorem requests_done (x : Except ε α) :
    (Program.done x : Program I ε α).requests oracle = [] := rfl

@[simp] theorem requests_ask (o : I.Op) (next : I.Ans o → Program I ε α) :
    (Program.ask o next).requests oracle = o :: (next (oracle o)).requests oracle := rfl

/-! ## Observations -/

/-- The program makes the requests of the list, gets the answers that stand
there, and goes on as `q`. -/
def Leads : Program I ε α → List (Event I) → Program I ε α → Prop
  | p, [], q => p = q
  | p, ⟨o, a⟩ :: es, q => ∃ next, p = .ask o next ∧ (next a).Leads es q

variable {p q q' : Program I ε α} {es fs : List (Event I)}

@[simp] theorem leads_nil : p.Leads [] q ↔ p = q := Iff.rfl

@[simp] theorem leads_ask {o : I.Op} {a : I.Ans o} {next : I.Ans o → Program I ε α} :
    (Program.ask o next).Leads (⟨o, a⟩ :: es) q ↔ (next a).Leads es q := by
  constructor
  · rintro ⟨next', heq, h⟩
    cases heq
    exact h
  · exact fun h => ⟨next, rfl, h⟩

/-- The answers decide how a program goes on. -/
theorem Leads.unique (h : p.Leads es q) (h' : p.Leads es q') : q = q' := by
  induction es generalizing p with
  | nil => exact h.symm.trans h'
  | cons e es ih =>
      obtain ⟨next, rfl, hn⟩ := h
      obtain ⟨next', heq, hn'⟩ := h'
      cases heq
      exact ih hn hn'

theorem Leads.append (h : p.Leads es q) (h' : q.Leads fs q') : p.Leads (es ++ fs) q' := by
  induction es generalizing p with
  | nil =>
      cases h
      exact h'
  | cons e es ih =>
      obtain ⟨next, rfl, hn⟩ := h
      exact ⟨next, rfl, ih hn⟩

theorem Leads.bind (h : p.Leads es q) (f : α → Program I ε β) :
    (p.bind f).Leads es (q.bind f) := by
  induction es generalizing p with
  | nil => exact congrArg (Program.bind · f) h
  | cons e es ih =>
      obtain ⟨next, rfl, hn⟩ := h
      exact ⟨fun a => (next a).bind f, rfl, ih hn⟩

end Program

end Resumption
