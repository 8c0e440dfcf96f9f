import Mathlib.Data.List.Basic

/-!
# Splitting a list

The two ways a text is taken apart at a delimiter: once, at its first occurrence, and
at every doubled delimiter, from left to right without overlap.  What is split, is the
pieces with the delimiter between them, and pieces without the delimiter are found
again.
-/

namespace Split

variable {α : Type} [DecidableEq α]

/-- What stands before and after the first occurrence of a pattern. -/
def once (pat : List α) : List α → Option (List α × List α)
  | [] => if pat = [] then some ([], []) else none
  | c :: cs =>
      if pat.isPrefixOf (c :: cs) then some ([], (c :: cs).drop pat.length)
      else (once pat cs).map fun x => (c :: x.1, x.2)

/-- The pieces between the doubled delimiters. -/
def pairs (d : α) : List α → List (List α)
  | [] => [[]]
  | [c] => [[c]]
  | c :: c' :: cs =>
      if c = d ∧ c' = d then [] :: pairs d cs
      else (pairs d (c' :: cs)).modifyHead (c :: ·)

variable {d : α} {pat a b l : List α}

/-! ## At the first occurrence -/

theorem once_eq_some (h : once pat l = some (a, b)) : a ++ (pat ++ b) = l := by
  induction l generalizing a with
  | nil =>
      rw [once, Option.ite_none_right_eq_some] at h
      obtain ⟨rfl, ⟨⟩⟩ := h
      rfl
  | cons c cs ih =>
      rw [once] at h
      split at h
      next hpre =>
        cases h
        obtain ⟨rest, hrest⟩ := List.isPrefixOf_iff_prefix.mp hpre
        rw [← hrest, List.drop_left, List.nil_append]
      next =>
        obtain ⟨x, hx, ⟨⟩⟩ := Option.map_eq_some_iff.mp h
        rw [List.cons_append, ih hx]

/-- A pattern is found behind a text without the first element of the pattern. -/
theorem once_append (h : d ∉ a) : once (d :: pat) (a ++ (d :: pat ++ b)) = some (a, b) := by
  induction a with
  | nil =>
      have hpre : (d :: pat).isPrefixOf (d :: pat ++ b) = true :=
        List.isPrefixOf_iff_prefix.mpr (List.prefix_append ..)
      rw [List.nil_append, List.cons_append, once, ← List.cons_append, if_pos hpre, List.drop_left]
  | cons c a ih =>
      rw [List.mem_cons, not_or] at h
      rw [List.cons_append, once, if_neg, ih h.2, Option.map_some]
      rw [List.isPrefixOf_iff_prefix, List.cons_prefix_cons]
      exact fun hc => h.1 hc.1

theorem once_singleton (h : d ∉ a) : once [d] (a ++ d :: b) = some (a, b) := once_append h

theorem once_eq_none_iff : once [d] l = none ↔ d ∉ l := by
  constructor
  · intro hnone hmem
    obtain ⟨a, b, rfl, ha⟩ := List.eq_append_cons_of_mem hmem
    rw [once_singleton ha] at hnone
    cases hnone
  · intro h
    refine Option.eq_none_iff_forall_ne_some.mpr fun x hx => h ?_
    rw [← once_eq_some hx]
    exact List.mem_append_right _ (.head _)

/-- A text is cut at the first of the delimiters it has. -/
theorem once_eq_some_iff : once [d] l = some (a, b) ↔ a ++ d :: b = l ∧ d ∉ a := by
  constructor
  · intro h
    have heq := once_eq_some h
    refine ⟨heq, fun hmem => ?_⟩
    obtain ⟨a₁, a₂, rfl, ha₁⟩ := List.eq_append_cons_of_mem hmem
    rw [← heq, List.append_assoc, List.cons_append, once_singleton ha₁] at h
    have hlen := congrArg (fun x => x.1.length) (Option.some.inj h)
    simp only [List.length_append, List.length_cons] at hlen
    omega
  · rintro ⟨rfl, h⟩
    exact once_singleton h

/-- The last of the delimiters cuts a text in one way. -/
theorem append_cons_inj {a' b' : List α} (hb : d ∉ b) (hb' : d ∉ b')
    (h : a ++ d :: b = a' ++ d :: b') : a = a' ∧ b = b' := by
  have hrev := congrArg (fun l => once [d] l.reverse) h
  simp only [List.reverse_append, List.reverse_cons, List.append_assoc, List.singleton_append]
    at hrev
  rw [once_singleton (mt List.mem_reverse.mp hb), once_singleton (mt List.mem_reverse.mp hb')]
    at hrev
  simp only [Option.some.injEq, Prod.mk.injEq, List.reverse_inj] at hrev
  exact hrev.symm

/-! ## At every doubled delimiter -/

/-- The pieces with the doubled delimiters between them are the text. -/
theorem pairs_join (l : List α) :
    ∃ p ps, pairs d l = p :: ps ∧ p ++ ps.flatMap (fun p => d :: d :: p) = l := by
  induction l using pairs.induct (d := d) with
  | case1 => exact ⟨[], [], rfl, rfl⟩
  | case2 c => exact ⟨[c], [], rfl, rfl⟩
  | case3 c c' cs h ih =>
      obtain ⟨p, ps, hps, hjoin⟩ := ih
      obtain ⟨rfl, rfl⟩ := h
      refine ⟨[], p :: ps, ?_, ?_⟩
      · rw [pairs, if_pos ⟨rfl, rfl⟩, hps]
      · rw [List.flatMap_cons, List.nil_append, List.cons_append, List.cons_append, hjoin]
  | case4 c c' cs h ih =>
      obtain ⟨p, ps, hps, hjoin⟩ := ih
      refine ⟨c :: p, ps, ?_, ?_⟩
      · rw [pairs, if_neg h, hps, List.modifyHead_cons]
      · rw [List.cons_append, hjoin]

theorem pairs_of_notMem (h : d ∉ l) : pairs d l = [l] := by
  induction l using pairs.induct (d := d) with
  | case1 => rfl
  | case2 c => rfl
  | case3 c c' cs hcc ih => exact absurd (hcc.1 ▸ List.mem_cons_self) h
  | case4 c c' cs hcc ih => rw [pairs, if_neg hcc, ih (List.not_mem_of_not_mem_cons h),
      List.modifyHead_cons]

/-- A piece without the delimiter ends at the next doubled one. -/
theorem pairs_append (h : d ∉ a) : pairs d (a ++ d :: d :: b) = a :: pairs d b := by
  induction a with
  | nil => rw [List.nil_append, pairs, if_pos ⟨rfl, rfl⟩]
  | cons c a ih =>
      rw [List.mem_cons, not_or] at h
      have hc : c ≠ d := fun hc => h.1 hc.symm
      obtain ⟨x, xs, hx⟩ : ∃ x xs, a ++ d :: d :: b = x :: xs := by
        cases a with
        | nil => exact ⟨d, d :: b, rfl⟩
        | cons x a => exact ⟨x, a ++ d :: d :: b, rfl⟩
      rw [List.cons_append, hx, pairs, if_neg fun hcx => hc hcx.1, ← hx, ih h.2,
        List.modifyHead_cons]

/-- Pieces without the delimiter are found again. -/
theorem pairs_flatMap {p : List α} {ps : List (List α)} (hp : d ∉ p) (hps : ∀ p ∈ ps, d ∉ p) :
    pairs d (p ++ ps.flatMap fun p => d :: d :: p) = p :: ps := by
  induction ps generalizing p with
  | nil => rw [List.flatMap_nil, List.append_nil, pairs_of_notMem hp]
  | cons q ps ih =>
      obtain ⟨hq, hps⟩ := List.forall_mem_cons.mp hps
      rw [List.flatMap_cons, List.cons_append, List.cons_append, pairs_append hp, ih hq hps]

end Split
