import Mathlib

/-!
# Versioned maps

A map whose values carry a version, changed at one key at a time.  A key without a
value may get one, and a value may give way to one of the next version.  Nothing is
ever removed.

A run is the sequence of its maps.  Whatever the changes, the values a key has in
the course of a run are told apart by their versions, and no version is left out.
-/

namespace Versioned

variable {K V : Type} {version : V → ℕ}

/-- One change of a versioned map. -/
inductive Write (version : V → ℕ) (f g : K → Option V) : Prop where
  | keep : (∀ k, g k = f k) → Write version f g
  | create (k : K) : f k = none → (∀ k', k' ≠ k → g k' = f k') → Write version f g
  | replace (k : K) (old new : V) : f k = some old → g k = some new →
      version new = version old + 1 → (∀ k', k' ≠ k → g k' = f k') → Write version f g

/-- The value of one key stays, or gives way to one of the next version. -/
theorem Write.at_key {f g : K → Option V} (h : Write version f g) {k : K} {a : V}
    (ha : f k = some a) : ∃ b, g k = some b ∧ (b = a ∨ version b = version a + 1) := by
  cases h with
  | keep hkeep => exact ⟨a, (hkeep k).trans ha, .inl rfl⟩
  | create k' hnone hne =>
      refine ⟨a, (hne k ?_).trans ha, .inl rfl⟩
      rintro rfl
      rw [hnone] at ha
      cases ha
  | replace k' old new hold hnew hversion hne =>
      by_cases hk : k = k'
      · subst hk
        rw [hold] at ha
        cases ha
        exact ⟨new, hnew, .inr hversion⟩
      · exact ⟨a, (hne k hk).trans ha, .inl rfl⟩

/-- Each map of a sequence comes from the one before by a change. -/
def Writes (version : V → ℕ) (f : ℕ → K → Option V) : Prop := ∀ i, Write version (f i) (f (i + 1))

/-- What the values of a run have in common. -/
structure History (version : V → ℕ) (f : ℕ → K → Option V) : Prop where
  /-- A value is never removed, and its versions never fall. -/
  grows : ∀ i j k a, i ≤ j → f i k = some a → ∃ b, f j k = some b ∧ version a ≤ version b
  /-- The key and the version determine the value. -/
  determined : ∀ i j k a b, f i k = some a → f j k = some b → version a = version b → a = b
  /-- Every version in between was there in between. -/
  consecutive : ∀ i j k a b n, i ≤ j → f i k = some a → f j k = some b → version a ≤ n →
    n ≤ version b → ∃ l c, i ≤ l ∧ l ≤ j ∧ f l k = some c ∧ version c = n

namespace Writes

variable {f : ℕ → K → Option V} {i j : ℕ} {k : K} {a b : V}

/-- The value at a later point is the same one, or has a greater version. -/
theorem later (h : Writes version f) (hij : i ≤ j) (ha : f i k = some a) :
    ∃ b, f j k = some b ∧ (b = a ∨ version a < version b) := by
  induction j, hij using Nat.le_induction with
  | base => exact ⟨a, ha, .inl rfl⟩
  | succ j _ ih =>
      obtain ⟨b, hb, hab⟩ := ih
      obtain ⟨c, hc, hbc⟩ := (h j).at_key hb
      refine ⟨c, hc, ?_⟩
      rcases hbc with rfl | hversion
      · exact hab
      · right
        rcases hab with rfl | hlt
        · omega
        · omega

theorem eq_of_le (h : Writes version f) (hij : i ≤ j) (ha : f i k = some a) (hb : f j k = some b)
    (hversion : version a = version b) : a = b := by
  obtain ⟨b', hb', hab⟩ := h.later hij ha
  rw [hb] at hb'
  cases hb'
  rcases hab with rfl | hlt
  · rfl
  · omega

theorem between (h : Writes version f) {n : ℕ} (hij : i ≤ j) (ha : f i k = some a)
    (hb : f j k = some b) (han : version a ≤ n) (hnb : n ≤ version b) :
    ∃ l c, i ≤ l ∧ l ≤ j ∧ f l k = some c ∧ version c = n := by
  induction j, hij using Nat.le_induction generalizing b with
  | base =>
      rw [ha] at hb
      cases hb
      exact ⟨i, a, le_rfl, le_rfl, ha, by omega⟩
  | succ j hij ih =>
      obtain ⟨c, hc, -⟩ := h.later hij ha
      obtain ⟨b', hb', hcb⟩ := (h j).at_key hc
      rw [hb] at hb'
      cases hb'
      by_cases hn : n ≤ version c
      · obtain ⟨l, d, hil, hlj, hd, hversion⟩ := ih hc hn
        exact ⟨l, d, hil, by omega, hd, hversion⟩
      · refine ⟨j + 1, b, by omega, le_rfl, hb, ?_⟩
        rcases hcb with rfl | hversion
        · omega
        · omega

/-- The history of a run of changes. -/
theorem history (h : Writes version f) : History version f where
  grows i j k a hij ha := by
    obtain ⟨b, hb, hab⟩ := h.later hij ha
    refine ⟨b, hb, ?_⟩
    rcases hab with rfl | hlt
    · exact le_rfl
    · exact hlt.le
  determined i j k a b ha hb hversion := by
    rcases Nat.le_total i j with hij | hji
    · exact h.eq_of_le hij ha hb hversion
    · exact (h.eq_of_le hji hb ha hversion.symm).symm
  consecutive i j k a b n hij ha hb han hnb := h.between hij ha hb han hnb

end Writes

end Versioned
