import Buyback.Resumption.Program

/-!
# Executions that may stop at any point

One program alone on a server.  `Executes serve p s out s'` says that `p`, started in
the state `s`, may come to be in `s'`, with its result if it has ended and with none if it
stops there.  So the states of `Executes serve p s none` are all states on the way.

`wp serve C p P s` is the weakest precondition with a crash condition: `C` holds in every
state on the way, also where the program fails, and `P` of the value and the state where it
succeeds.  `wp.sound` connects the two.  The rules follow the shape of the program, as those
of `Sat` do.

`Traces step s es s'` are the runs of a system whose steps show an event.  `Traces.simulates`
follows such a run by one of another system with the same events.
-/

namespace Resumption.Program

variable {I : Interface} {ε α β σ : Type} {serve : σ → (o : I.Op) → I.Ans o → σ → Prop}

/-- The program, started in `s`, may come to be in `s'`, where it has ended with a result
or has stopped. -/
inductive Executes (serve : σ → (o : I.Op) → I.Ans o → σ → Prop) :
    Program I ε α → σ → Option (Except ε α) → σ → Prop where
  | done {x : Except ε α} {s : σ} : Executes serve (.done x) s (some x) s
  | stop {p : Program I ε α} {s : σ} : Executes serve p s none s
  | ask {o : I.Op} {next : I.Ans o → Program I ε α} {a : I.Ans o} {s s' s'' : σ}
      {out : Option (Except ε α)} :
      serve s o a s' →
      Executes serve (next a) s' out s'' →
      Executes serve (.ask o next) s out s''

/-- The weakest precondition: `C` on the way and `P` at the end. -/
def wp (serve : σ → (o : I.Op) → I.Ans o → σ → Prop) (C : σ → Prop) :
    Program I ε α → (α → σ → Prop) → σ → Prop
  | .done (.ok a), P, s => C s ∧ P a s
  | .done (.error _), _, s => C s
  | .ask o next, P, s => C s ∧ ∀ a s', serve s o a s' → (next a).wp serve C P s'

variable {C : σ → Prop} {s s' : σ}

namespace wp

variable {p : Program I ε α} {P : α → σ → Prop}

theorem here (h : p.wp serve C P s) : C s :=
  match p, h with
  | .done (.ok _), h => h.1
  | .done (.error _), h => h
  | .ask _ _, h => h.1

theorem ok {a : α} (hc : C s) (hp : P a s) :
    (Program.done (.ok a) : Program I ε α).wp serve C P s := ⟨hc, hp⟩

theorem error {e : ε} (hc : C s) : (Program.done (.error e) : Program I ε α).wp serve C P s := hc

/-- A sequence: what the first half ends with lets the second half run. -/
theorem bind {f : α → Program I ε β} {Q : β → σ → Prop} (hp : p.wp serve C P s)
    (hf : ∀ a s', C s' → P a s' → (f a).wp serve C Q s') : (p.bind f).wp serve C Q s := by
  induction p generalizing s with
  | done x =>
      cases x with
      | ok a => exact hf a s hp.1 hp.2
      | error e => exact hp
  | ask o next ih => exact ⟨hp.1, fun a s' hserve => ih a (hp.2 a s' hserve)⟩

/-- A function without requests in the middle of a program. -/
theorem lift {x : Except ε α} {f : α → Program I ε β} {Q : β → σ → Prop} (hc : C s)
    (hf : ∀ a, x = .ok a → (f a).wp serve C Q s) :
    ((Program.done x).bind f).wp serve C Q s := by
  cases x with
  | ok a => exact hf a rfl
  | error e => exact hc

/-- A request, and what follows it. -/
theorem request {o : I.Op} {answer : I.Ans o → Except ε α} {f : α → Program I ε β}
    {Q : β → σ → Prop} (hc : C s)
    (hok : ∀ a s' x, serve s o a s' → answer a = .ok x → (f x).wp serve C Q s')
    (herr : ∀ a s' e, serve s o a s' → answer a = .error e → C s') :
    ((Program.request o answer).bind f).wp serve C Q s := by
  refine ⟨hc, fun a s' hserve => ?_⟩
  change wp serve C ((Program.done (answer a)).bind f) Q s'
  cases hx : answer a with
  | ok x => exact hok a s' x hserve hx
  | error e => exact herr a s' e hserve hx

/-- A request that is the last. -/
theorem last {o : I.Op} {answer : I.Ans o → Except ε α} (hc : C s)
    (hok : ∀ a s' x, serve s o a s' → answer a = .ok x → C s' ∧ P x s')
    (herr : ∀ a s' e, serve s o a s' → answer a = .error e → C s') :
    (Program.request o answer).wp serve C P s := by
  refine ⟨hc, fun a s' hserve => ?_⟩
  change wp serve C (Program.done (answer a)) P s'
  cases hx : answer a with
  | ok x => exact hok a s' x hserve hx
  | error e => exact herr a s' e hserve hx

theorem ite {c : Prop} [Decidable c] {q : Program I ε α} (hp : c → p.wp serve C P s)
    (hq : ¬ c → q.wp serve C P s) : (if c then p else q).wp serve C P s := by
  split
  next hc => exact hp hc
  next hc => exact hq hc

/-- Weaker conditions. -/
theorem mono {C' : σ → Prop} {Q : α → σ → Prop} (hp : p.wp serve C P s) (hC : ∀ s, C s → C' s)
    (hQ : ∀ a s, P a s → Q a s) : p.wp serve C' Q s := by
  induction p generalizing s with
  | done x =>
      cases x with
      | ok a => exact ⟨hC s hp.1, hQ a s hp.2⟩
      | error e => exact hC s hp
  | ask o next ih => exact ⟨hC s hp.1, fun a s' hserve => ih a (hp.2 a s' hserve)⟩

/-- What the precondition promises, holds of every execution. -/
theorem sound {out : Option (Except ε α)} (h : p.wp serve C P s)
    (he : Executes serve p s out s') : C s' ∧ ∀ a, out = some (.ok a) → P a s' := by
  induction he with
  | @done x s =>
      refine ⟨h.here, ?_⟩
      rintro a ⟨⟩
      exact h.2
  | stop => exact ⟨h.here, nofun⟩
  | ask hserve _ ih => exact ih (h.2 _ _ hserve)

end wp

end Resumption.Program

namespace Resumption

variable {σ τ E : Type} {step : σ → E → σ → Prop} {step' : τ → E → τ → Prop}

/-- The runs of a system, with the events they show. -/
inductive Traces (step : σ → E → σ → Prop) : σ → List E → σ → Prop where
  | nil {s : σ} : Traces step s [] s
  | cons {s s' s'' : σ} {e : E} {es : List E} :
      step s e s' → Traces step s' es s'' → Traces step s (e :: es) s''

namespace Traces

variable {s s' : σ} {t : τ} {e : E} {es es' : List E}

/-- A simulation of each step is one of every run. -/
theorem simulates {R : σ → τ → Prop} (h : Traces step s es s') (hR : R s t)
    (hstep : ∀ s e s' t, step s e s' → R s t → ∃ t', step' t e t' ∧ R s' t') :
    ∃ t', Traces step' t es t' ∧ R s' t' := by
  induction h generalizing t with
  | nil => exact ⟨t, .nil, hR⟩
  | cons he _ ih =>
      obtain ⟨t₁, ht, hR⟩ := hstep _ _ _ _ he hR
      obtain ⟨t', ht', hR'⟩ := ih hR
      exact ⟨t', .cons ht ht', hR'⟩

end Traces

end Resumption
