import Mathlib.Data.List.Basic

/-!
# The first attempt that succeeds

Attempts are made in order until one succeeds.  A failure is only remembered until the next
attempt fails, so what is left of all of them is the last one's.
-/

namespace Attempts

variable {ι ε α : Type} {attempt : ι → Except ε α} {xs ys : List ι} {last e : ε} {a : α}

/-- The first success, or the last failure. -/
def first (attempt : ι → Except ε α) : List ι → ε → Except ε α
  | [], last => .error last
  | x :: xs, _ =>
      match attempt x with
      | .ok a => .ok a
      | .error e => first attempt xs e

/-- Every attempt fails. -/
def AllFail (attempt : ι → Except ε α) (xs : List ι) : Prop :=
  ∀ x ∈ xs, ∃ e, attempt x = .error e

theorem first_cons_ok {x : ι} (h : attempt x = .ok a) : first attempt (x :: xs) last = .ok a := by
  rw [first, h]

theorem first_cons_error {x : ι} (h : attempt x = .error e) :
    first attempt (x :: xs) last = first attempt xs e := by
  rw [first, h]

theorem first_append : first attempt (xs ++ ys) last =
    match first attempt xs last with
    | .ok a => .ok a
    | .error e => first attempt ys e := by
  induction xs generalizing last with
  | nil => rfl
  | cons x xs ih =>
      rw [List.cons_append]
      cases h : attempt x with
      | ok a => rw [first_cons_ok h, first_cons_ok h]
      | error e => rw [first_cons_error h, first_cons_error h, ih]

/-- A success is the first one. -/
theorem first_ok_iff : first attempt xs last = .ok a ↔
    ∃ before x after, xs = before ++ x :: after ∧ AllFail attempt before ∧
      attempt x = .ok a := by
  induction xs generalizing last with
  | nil => simp [first]
  | cons x xs ih =>
      cases h : attempt x with
      | ok b =>
          rw [first_cons_ok h]
          constructor
          · rintro ⟨⟩
            exact ⟨[], x, xs, rfl, by simp [AllFail], h⟩
          · rintro ⟨before, y, after, heq, hfail, hy⟩
            cases before with
            | nil =>
                cases heq
                exact h.symm.trans hy
            | cons z before =>
                cases heq
                obtain ⟨e, he⟩ := hfail x (.head _)
                cases h.symm.trans he
      | error e =>
          rw [first_cons_error h, ih]
          constructor
          · rintro ⟨before, y, after, rfl, hfail, hy⟩
            exact ⟨x :: before, y, after, rfl, List.forall_mem_cons.mpr ⟨⟨e, h⟩, hfail⟩, hy⟩
          · rintro ⟨before, y, after, heq, hfail, hy⟩
            cases before with
            | nil =>
                cases heq
                cases h.symm.trans hy
            | cons z before =>
                cases heq
                exact ⟨before, y, after, rfl, (List.forall_mem_cons.mp hfail).2, hy⟩

/-- Without a success, the failure is the last one. -/
theorem first_error (h : first attempt xs last = .error e) :
    AllFail attempt xs ∧
      (xs = [] ∧ e = last ∨ ∃ before x, xs = before ++ [x] ∧ attempt x = .error e) := by
  induction xs generalizing last with
  | nil =>
      cases h
      exact ⟨by simp [AllFail], .inl ⟨rfl, rfl⟩⟩
  | cons x xs ih =>
      cases hx : attempt x with
      | ok a =>
          rw [first_cons_ok hx] at h
          cases h
      | error e' =>
          rw [first_cons_error hx] at h
          obtain ⟨hfail, ⟨rfl, rfl⟩ | ⟨before, y, rfl, hy⟩⟩ := ih h
          · exact ⟨List.forall_mem_cons.mpr ⟨⟨e, hx⟩, hfail⟩, .inr ⟨[], x, rfl, hx⟩⟩
          · exact ⟨List.forall_mem_cons.mpr ⟨⟨e', hx⟩, hfail⟩, .inr ⟨x :: before, y, rfl, hy⟩⟩

end Attempts
