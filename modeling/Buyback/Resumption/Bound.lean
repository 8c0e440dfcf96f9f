import Buyback.Resumption.Program

/-!
# Programs bound to a request

`p.Bound R B o` says that on every path the program `p` makes the request `o`, and that no
request before it is in `B`.  Answers that `R` excludes are not followed.  So the program
cannot end before `o`, and its own requests do not get in the way.

A program stays bound until it makes the request: `Bound.leads`.  Since what is left of a
process is where its history leads, the request is made unless the process is stopped.
-/

namespace Resumption.Program

variable {I : Interface} {ε α β : Type} {R : (o : I.Op) → I.Ans o → Prop} {B : I.Op → Prop}
  {o : I.Op}

/-- On every path the program makes the request `o`, before any other request in `B`. -/
inductive Bound (R : (o : I.Op) → I.Ans o → Prop) (B : I.Op → Prop) (o : I.Op) :
    Program I ε α → Prop where
  | here {next : I.Ans o → Program I ε α} : Bound R B o (.ask o next)
  | later {o' : I.Op} {next : I.Ans o' → Program I ε α} :
      ¬ B o' →
      (∀ a, R o' a → Bound R B o (next a)) →
      Bound R B o (.ask o' next)

/-- What is left of a program after some of its events makes the others. -/
theorem Leads.after {p q q' : Program I ε α} {es fs : List (Event I)} (h : p.Leads es q)
    (h' : p.Leads (es ++ fs) q') : q.Leads fs q' := by
  induction es generalizing p with
  | nil =>
      cases h
      exact h'
  | cons e es ih =>
      obtain ⟨next, rfl, h⟩ := h
      obtain ⟨next', heq, h'⟩ := h'
      cases heq
      exact ih h h'

namespace Bound

variable {p : Program I ε α}

/-- A program that makes another request is still bound after the answer. -/
theorem next {o' : I.Op} {next : I.Ans o' → Program I ε α}
    (h : (Program.ask o' next).Bound R B o) (ho : o' ≠ o) {a : I.Ans o'} (ha : R o' a) :
    ¬ B o' ∧ (next a).Bound R B o := by
  cases h with
  | here => exact absurd rfl ho
  | later hb hnext => exact ⟨hb, hnext a ha⟩

theorem bind (h : p.Bound R B o) (f : α → Program I ε β) : (p.bind f).Bound R B o := by
  induction h with
  | here => exact .here
  | later hb _ ih => exact .later hb ih

theorem attempt (h : p.Bound R B o) : p.attempt.Bound R B o := by
  induction h with
  | here => exact .here
  | later hb _ ih => exact .later hb ih

/-- The program stays bound along the answers it gets. -/
theorem leads {q : Program I ε α} {es : List (Event I)} (h : p.Bound R B o) (hl : p.Leads es q)
    (hes : ∀ e ∈ es, R e.1 e.2 ∧ e.1 ≠ o) : q.Bound R B o ∧ ∀ e ∈ es, ¬ B e.1 := by
  induction es generalizing p with
  | nil =>
      cases hl
      exact ⟨h, nofun⟩
  | cons e es ih =>
      obtain ⟨nxt, rfl, hl⟩ := hl
      obtain ⟨⟨ha, ho⟩, hes⟩ := List.forall_mem_cons.mp hes
      obtain ⟨hb, hnext⟩ := h.next ho ha
      obtain ⟨hq, hrest⟩ := ih hnext hl hes
      exact ⟨hq, List.forall_mem_cons.mpr ⟨hb, hrest⟩⟩

end Bound

end Resumption.Program
