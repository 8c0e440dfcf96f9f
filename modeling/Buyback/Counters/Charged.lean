import Mathlib

/-!
# Charges to accounts

Items are charged to accounts that can bear them, and no account is charged twice.  Then the
items cost no more than the accounts have.
-/

namespace Counters

/-- What is charged, with `R a b` when `a` is charged to `b`, is at most what the accounts have. -/
theorem sum_le_of_charged {α β : Type} {cost : α → ℕ} {funds : β → ℕ} {R : α → β → Prop}
    {items : List α} (hnodup : items.Nodup) : ∀ {accounts : List β},
    (∀ a ∈ items, ∃ b ∈ accounts, R a b ∧ cost a ≤ funds b) →
    (∀ a ∈ items, ∀ a' ∈ items, ∀ b, R a b → R a' b → a = a') →
    (items.map cost).sum ≤ (accounts.map funds).sum := by
  induction items with
  | nil => exact fun _ _ => Nat.zero_le _
  | cons a items ih =>
      intro accounts hcharged honce
      obtain ⟨hnew, hnodup⟩ := List.nodup_cons.mp hnodup
      obtain ⟨b, hb, hab, hle⟩ := hcharged a (.head _)
      obtain ⟨before, after, rfl⟩ := List.append_of_mem hb
      -- the account of the first item is no account of the others
      have hrest : (items.map cost).sum ≤ ((before ++ after).map funds).sum := by
        refine ih hnodup (fun a' ha' => ?_) fun a₁ h₁ a₂ h₂ => honce a₁ (.tail _ h₁) a₂ (.tail _ h₂)
        obtain ⟨b', hb', hab', hle'⟩ := hcharged a' (.tail _ ha')
        have hne : b' ≠ b := by
          rintro rfl
          exact hnew (honce a (.head _) a' (.tail _ ha') b' hab hab' ▸ ha')
        refine ⟨b', ?_, hab', hle'⟩
        simpa [hne] using hb'
      simp only [List.map_append, List.map_cons, List.sum_append, List.sum_cons] at hrest ⊢
      omega

end Counters
