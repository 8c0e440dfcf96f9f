import Mathlib.Data.List.Range
import Mathlib.Logic.Function.Basic

/-!
# Numbered sequences

A sequence of items, each with a key and a number, and a counter for each key.
The sequence is *numbered* from the counters if every item has the number that
the counter of its key stands at, and moves that counter on by one.

`numbered_iff` says what this means for one key at a time: its items have
consecutive numbers from its counter.
-/

namespace Counters

variable {α κ : Type} [DecidableEq κ] {key : α → Option κ} {number : α → Option ℕ}
  {next : κ → Option ℕ} {l : List α} {k : κ} {n : ℕ}

/-- Every item has the number at which the counter of its key stands. -/
inductive Numbered (key : α → Option κ) (number : α → Option ℕ) :
    (κ → Option ℕ) → List α → Prop where
  | nil {next : κ → Option ℕ} : Numbered key number next []
  | cons {next : κ → Option ℕ} {x : α} {l : List α} {k : κ} {n : ℕ} :
      key x = some k →
      number x = some n →
      next k = some n →
      Numbered key number (Function.update next k (some (n + 1))) l →
      Numbered key number next (x :: l)

/-- The items of one key. -/
def itemsOf (key : α → Option κ) (k : κ) (l : List α) : List α := l.filter fun x => key x = some k

/-- The items of a key have consecutive numbers from `n`. -/
def Consecutive (key : α → Option κ) (number : α → Option ℕ) (k : κ) (n : ℕ) (l : List α) : Prop :=
  (itemsOf key k l).map number = (List.range' n (itemsOf key k l).length).map some

theorem itemsOf_cons_self {x : α} (h : key x = some k) :
    itemsOf key k (x :: l) = x :: itemsOf key k l := List.filter_cons_of_pos (by simpa using h)

theorem itemsOf_cons_ne {x : α} (h : key x ≠ some k) : itemsOf key k (x :: l) = itemsOf key k l :=
  List.filter_cons_of_neg (by simpa using h)

theorem consecutive_cons_self {x : α} (h : key x = some k) :
    Consecutive key number k n (x :: l) ↔
      number x = some n ∧ Consecutive key number k (n + 1) l := by
  unfold Consecutive
  rw [itemsOf_cons_self h, List.length_cons, List.range'_succ, List.map_cons, List.map_cons,
    List.cons.injEq]

theorem consecutive_cons_ne {x : α} (h : key x ≠ some k) :
    Consecutive key number k n (x :: l) ↔ Consecutive key number k n l := by
  unfold Consecutive
  rw [itemsOf_cons_ne h]

/-- A sequence is numbered if its keys have counters and the items of each key have
consecutive numbers. -/
theorem numbered_iff : Numbered key number next l ↔
    (∀ x ∈ l, ∃ k n, key x = some k ∧ next k = some n) ∧
      ∀ k n, next k = some n → Consecutive key number k n l := by
  induction l generalizing next with
  | nil => exact ⟨fun _ => ⟨nofun, fun _ _ _ => rfl⟩, fun _ => .nil⟩
  | cons x l ih =>
      constructor
      · intro h
        cases h with
        | @cons _ _ _ k n hkey hnumber hnext hrest =>
            obtain ⟨hcounters, hruns⟩ := ih.mp hrest
            refine ⟨fun y hy => ?_, fun k' n' hk' => ?_⟩
            · rcases List.mem_cons.mp hy with rfl | hy
              · exact ⟨k, n, hkey, hnext⟩
              · obtain ⟨k', n', hkey', hk'⟩ := hcounters y hy
                by_cases hkk : k' = k
                · exact ⟨k, n, hkk ▸ hkey', hnext⟩
                · exact ⟨k', n', hkey', by rwa [Function.update_of_ne hkk] at hk'⟩
            · by_cases hkk : k' = k
              · subst hkk
                cases hnext.symm.trans hk'
                rw [consecutive_cons_self hkey]
                exact ⟨hnumber, hruns k' (n + 1) (Function.update_self ..)⟩
              · rw [consecutive_cons_ne fun h => hkk (Option.some.inj (h.symm.trans hkey))]
                exact hruns k' n' (by rwa [Function.update_of_ne hkk])
      · rintro ⟨hcounters, hruns⟩
        obtain ⟨k, n, hkey, hnext⟩ := hcounters x (.head _)
        obtain ⟨hnumber, hrun⟩ := (consecutive_cons_self hkey).mp (hruns k n hnext)
        refine .cons hkey hnumber hnext (ih.mpr ⟨fun y hy => ?_, fun k' n' hk' => ?_⟩)
        · obtain ⟨k', n', hkey', hk'⟩ := hcounters y (.tail _ hy)
          by_cases hkk : k' = k
          · exact ⟨k', n + 1, hkey', by rw [hkk, Function.update_self]⟩
          · exact ⟨k', n', hkey', by rwa [Function.update_of_ne hkk]⟩
        · by_cases hkk : k' = k
          · subst hkk
            rw [Function.update_self] at hk'
            cases hk'
            exact hrun
          · rw [Function.update_of_ne hkk] at hk'
            have hne : key x ≠ some k' := fun h => hkk (Option.some.inj (h.symm.trans hkey))
            exact (consecutive_cons_ne hne).mp (hruns k' n' hk')

/-- A counter that stands at a number of the sequence is not far behind it. -/
theorem Consecutive.number_lt (h : Consecutive key number k n l) {x : α} (hx : x ∈ l)
    (hkey : key x = some k) {i : ℕ} (hi : number x = some i) : i < n + l.length := by
  have hmem : some i ∈ (itemsOf key k l).map number :=
    List.mem_map.mpr ⟨x, List.mem_filter.mpr ⟨hx, by simpa using hkey⟩, hi⟩
  rw [h, List.mem_map] at hmem
  obtain ⟨j, hj, heq⟩ := hmem
  cases heq
  have hle : (itemsOf key k l).length ≤ l.length := List.length_filter_le ..
  have := (List.mem_range'_1.mp hj).2
  omega

end Counters
