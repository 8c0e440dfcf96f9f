import Buyback.Resumption.Interleave

/-!
# Programs that have ended

The events of a program that has ended are those of its parts, in turn.  The laws below read
them off for each way to build a program.  In a configuration, what is left of a program is
where the history of its process leads, and a step only adds to the entries.
-/

namespace Resumption

namespace Program

variable {I : Interface} {ε α β : Type} {es : List (Event I)}

/-- The program makes the requests of `es` and ends with `x`. -/
def Ends (p : Program I ε α) (es : List (Event I)) (x : Except ε α) : Prop := p.Leads es (.done x)

namespace Ends

theorem done {x y : Except ε α} (h : (Program.done x : Program I ε α).Ends es y) :
    es = [] ∧ y = x := by
  cases es with
  | nil =>
      cases h
      exact ⟨rfl, rfl⟩
  | cons ev es =>
      obtain ⟨next, heq, -⟩ := h
      cases heq

/-- One event, and then those of the rest. -/
theorem ask {o : I.Op} {next : I.Ans o → Program I ε α} {x : Except ε α}
    (h : (Program.ask o next).Ends es x) : ∃ a es', es = ⟨o, a⟩ :: es' ∧ (next a).Ends es' x := by
  cases es with
  | nil => cases h
  | cons ev es =>
      obtain ⟨next', heq, h⟩ := h
      cases heq
      exact ⟨ev.2, es, rfl, h⟩

theorem request_bind {o : I.Op} {answer : I.Ans o → Except ε α} {f : α → Program I ε β}
    {x : Except ε β} (h : ((Program.request o answer).bind f).Ends es x) : ∃ a es',
      es = ⟨o, a⟩ :: es' ∧ ((Program.done (answer a)).bind f).Ends es' x :=
  h.ask

/-- The first half ends with an error, or the second half goes on from its value. -/
theorem bind {p : Program I ε α} {f : α → Program I ε β} {x : Except ε β}
    (h : (p.bind f).Ends es x) :
    (∃ e, p.Ends es (.error e) ∧ x = .error e) ∨
      ∃ a es₁ es₂, es = es₁ ++ es₂ ∧ p.Ends es₁ (.ok a) ∧ (f a).Ends es₂ x := by
  induction p generalizing es with
  | done y =>
      cases y with
      | ok a => exact .inr ⟨a, [], es, rfl, rfl, h⟩
      | error e =>
          obtain ⟨rfl, rfl⟩ := done h
          exact .inl ⟨e, rfl, rfl⟩
  | ask o next ih =>
      obtain ⟨a, es', rfl, hrest⟩ := ask h
      rcases ih a hrest with ⟨e, hp, rfl⟩ | ⟨b, es₁, es₂, rfl, hp, hf⟩
      · exact .inl ⟨e, leads_ask.mpr hp, rfl⟩
      · exact .inr ⟨b, ⟨o, a⟩ :: es₁, es₂, rfl, leads_ask.mpr hp, hf⟩

/-- A program whose error is handed on as a value, ends in any case. -/
theorem attempt_bind {p : Program I ε α} {f : Except ε α → Program I ε β} {x : Except ε β}
    (h : (p.attempt.bind f).Ends es x) : ∃ y es₁ es₂, es = es₁ ++ es₂ ∧ p.Ends es₁ y ∧
      (f y).Ends es₂ x := by
  induction p generalizing es with
  | done y => exact ⟨y, [], es, rfl, rfl, h⟩
  | ask o next ih =>
      obtain ⟨a, es', rfl, hrest⟩ := ask h
      obtain ⟨y, es₁, es₂, rfl, hp, hf⟩ := ih a hrest
      exact ⟨y, ⟨o, a⟩ :: es₁, es₂, rfl, leads_ask.mpr hp, hf⟩

end Ends

end Program

/-- What is left of a program is where its history leads. -/
theorem Reachable.leads {S : System} {c : Config S} (h : Reachable S c) :
    ∀ {i : Nat} {e : S.Entry} {p : Program S.interface S.Err Unit},
      c.procs[i]? = some (e, some p) → (S.body e).Leads (historyOf c.trace i).reverse p := by
  induction h with
  | init _ => intro i e p hp; cases hp
  | @step c _ hr hs ih =>
      cases hs with
      | spawn e₀ =>
          intro i e p hp
          rw [List.getElem?_append] at hp
          split at hp
          next => exact ih hp
          next hge =>
            obtain ⟨_, hget⟩ := List.getElem?_eq_some_iff.mp hp
            have heq : (e₀, some (S.body e₀)) = (e, some p) := by
              simpa using hget
            cases heq
            rw [historyOf_eq_nil fun x hx => by have := hr.trace_lt x hx; omega]
            rfl
      | @exec k e₀ o next a s' hk hserve =>
          intro i e p hp
          rw [List.getElem?_set] at hp
          split at hp
          next hki =>
            subst hki
            split at hp
            next =>
              cases hp
              rw [historyOf_cons_self, List.reverse_cons]
              exact (ih hk).append (Program.leads_ask.mpr rfl)
            next => cases hp
          next hki =>
            rw [historyOf_cons_ne hki]
            exact ih hp
      | @crash k e₀ p₀ _ hk =>
          intro i e p hp
          rw [List.getElem?_set] at hp
          split at hp
          next => split at hp <;> cases hp
          next => exact ih hp
      | env _ => exact ih

/-- A step starts entries after those there are. -/
theorem Step.entries {S : System} {c c' : Config S} (h : Step S c c') :
    ∃ es, c'.view.entries = c.view.entries ++ es := by
  cases h with
  | spawn e => exact ⟨[e], List.map_append⟩
  | exec hp _ => exact ⟨[], (map_fst_set hp _).trans (List.append_nil _).symm⟩
  | crash _ hp => exact ⟨[], (map_fst_set hp _).trans (List.append_nil _).symm⟩
  | env _ => exact ⟨[], (List.append_nil _).symm⟩

/-- A process that runs after a step ran before it, if it was started. -/
theorem Step.running {S : System} {c c' : Config S} (h : Step S c c') {i : Nat} {e : S.Entry}
    {p : Program S.interface S.Err Unit} (hi : i < c.procs.length)
    (hp : c'.procs[i]? = some (e, some p)) : ∃ p₀, c.procs[i]? = some (e, some p₀) := by
  cases h with
  | spawn _ => exact ⟨p, by rwa [List.getElem?_append_left hi] at hp⟩
  | @exec k e₀ o next a s' hk _ =>
      by_cases hki : k = i
      · subst hki
        rw [List.getElem?_set_self hi] at hp
        cases hp
        exact ⟨_, hk⟩
      · exact ⟨p, by rwa [List.getElem?_set_ne hki] at hp⟩
  | @crash k e₀ p₀ _ hk =>
      by_cases hki : k = i
      · subst hki
        rw [List.getElem?_set_self hi] at hp
        cases hp
      · exact ⟨p, by rwa [List.getElem?_set_ne hki] at hp⟩
  | env _ => exact ⟨p, hp⟩

end Resumption
