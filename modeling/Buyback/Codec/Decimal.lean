import Mathlib.Algebra.Group.Nat.Defs
import Mathlib.Data.List.Basic

/-!
# Decimal numbers

Texts of decimal digits and the numbers that they write.  Digits of one length are told
by their number, so a number has one text of a given width, and one text without
superfluous zeros.
-/

namespace Decimal

/-- The number that decimal digits write. -/
def value (cs : List Char) : ℕ := Nat.ofDigitChars 10 cs 0

/-- All ASCII digits. -/
def Digits (cs : List Char) : Prop := ∀ c ∈ cs, c.isDigit = true

/-- No superfluous leading zero. -/
def Plain (cs : List Char) : Prop := cs ≠ [] ∧ (cs.head? = some '0' → cs = ['0'])

/-- A number with zeros before it, up to a width. -/
def padded (w n : ℕ) : List Char := (Nat.toDigits 10 n).leftpad w '0'

variable {c d : Char} {cs ds : List Char} {n w : ℕ}

theorem isDigit_range (h : c.isDigit = true) : 48 ≤ c.toNat ∧ c.toNat ≤ 57 := by
  simp only [Char.isDigit, Bool.and_eq_true, decide_eq_true_eq, UInt32.le_iff_toNat_le,
    ge_iff_le] at h
  exact h

/-! ## Digits -/

theorem Digits.append (hc : Digits cs) (hd : Digits ds) : Digits (cs ++ ds) := by
  intro c h
  rcases List.mem_append.mp h with h | h
  · exact hc c h
  · exact hd c h

theorem Digits.toDigits (n : ℕ) : Digits (Nat.toDigits 10 n) :=
  fun _ h => Nat.isDigit_of_mem_toDigits (by omega) (by omega) h

theorem Digits.zeros (n : ℕ) : Digits (List.replicate n '0') := by
  intro c h
  rw [List.eq_of_mem_replicate h]
  rfl

theorem Digits.padded (w n : ℕ) : Digits (padded w n) := (zeros _).append (toDigits n)

/-! ## Numbers -/

theorem value_append : value (cs ++ ds) = value cs * 10 ^ ds.length + value ds := by
  rw [value, Nat.ofDigitChars_append, Nat.ofDigitChars_eq_ofDigitChars_zero, Nat.mul_comm]
  rfl

theorem value_zeros (n : ℕ) : value (List.replicate n '0') = 0 := by
  rw [value, Nat.ofDigitChars_replicate_zero, Nat.mul_zero]

theorem value_singleton (c : Char) : value [c] = c.toNat - 48 := by
  rw [value, Nat.ofDigitChars_cons, Nat.ofDigitChars_nil, Nat.mul_zero, Nat.zero_add]
  rfl

theorem value_toDigits (n : ℕ) : value (Nat.toDigits 10 n) = n := Nat.ofDigitChars_ten_toDigits

theorem value_padded (w n : ℕ) : value (padded w n) = n := by
  rw [padded, List.leftpad, value_append, value_zeros, value_toDigits]
  omega

theorem value_cons : value (c :: cs) = (c.toNat - 48) * 10 ^ cs.length + value cs := by
  rw [← List.singleton_append, value_append, value_singleton]

theorem value_lt (h : Digits cs) : value cs < 10 ^ cs.length := by
  induction cs with
  | nil => exact Nat.one_pos
  | cons c cs ih =>
      obtain ⟨hc, hcs⟩ := List.forall_mem_cons.mp h
      have hdigit := isDigit_range hc
      have hrest := ih hcs
      have hbound : (c.toNat - 48) * 10 ^ cs.length ≤ 9 * 10 ^ cs.length :=
        Nat.mul_le_mul_right _ (by omega)
      rw [value_cons, List.length_cons, Nat.pow_succ]
      omega

theorem length_padded (hw : 0 < w) (h : n < 10 ^ w) : (padded w n).length = w := by
  have hlen := (Nat.length_toDigits_le_iff (by omega) hw).mpr h
  rw [padded, List.length_leftpad]
  omega

theorem radix_inj {a b x y m : ℕ} (hx : x < m) (hy : y < m) (h : a * m + x = b * m + y) :
    a = b ∧ x = y := by
  have hrem := congrArg (· % m) h
  simp only [Nat.mul_add_mod_self_right, Nat.mod_eq_of_lt hx, Nat.mod_eq_of_lt hy] at hrem
  rw [hrem, Nat.add_right_cancel_iff] at h
  exact ⟨Nat.eq_of_mul_eq_mul_right (by omega) h, hrem⟩

/-- Digits of one length are told by their number. -/
theorem eq_of_value (hc : Digits cs) (hd : Digits ds) (hlen : cs.length = ds.length)
    (hvalue : value cs = value ds) : cs = ds := by
  induction cs generalizing ds with
  | nil => exact (List.length_eq_zero_iff.mp hlen.symm).symm
  | cons c cs ih =>
      cases ds with
      | nil => cases hlen
      | cons d ds =>
          obtain ⟨hcdigit, hcs⟩ := List.forall_mem_cons.mp hc
          obtain ⟨hddigit, hds⟩ := List.forall_mem_cons.mp hd
          have hlen' : cs.length = ds.length := Nat.succ.inj hlen
          have hcrange := isDigit_range hcdigit
          have hdrange := isDigit_range hddigit
          have hclt := value_lt hcs
          have hdlt := value_lt hds
          rw [value_cons, value_cons, hlen'] at hvalue
          rw [hlen'] at hclt
          obtain ⟨hlead, hrest⟩ := radix_inj hclt hdlt hvalue
          have hdigit : c = d := Char.toNat_inj.mp (by omega)
          rw [hdigit, ih hcs hds hlen' hrest]

/-! ## The text of a number -/

theorem padded_value (h : Digits cs) (hpos : 0 < cs.length) : padded cs.length (value cs) = cs :=
  eq_of_value (Digits.padded _ _) h (length_padded hpos (value_lt h)) (value_padded _ _)

theorem Plain.toDigits (n : ℕ) : Plain (Nat.toDigits 10 n) := by
  refine ⟨Nat.toDigits_ne_nil, fun hzero => ?_⟩
  obtain ⟨cs, hcs⟩ := List.head?_eq_some_iff.mp hzero
  have hdigits : Digits ('0' :: cs) := hcs ▸ Digits.toDigits n
  have hvalue : value cs = n := by
    have hlead : ('0'.toNat - 48) * 10 ^ cs.length = 0 := Nat.zero_mul _
    rw [← value_toDigits n, hcs, value_cons, hlead, Nat.zero_add]
  rw [hcs]
  by_contra hne
  have hpos : 0 < cs.length := List.length_pos_iff.mpr fun hnil => hne (by rw [hnil])
  -- the other digits would do
  have hlen := (Nat.length_toDigits_le_iff (by omega) hpos).mpr
    (hvalue ▸ value_lt (List.forall_mem_cons.mp hdigits).2)
  rw [hcs, List.length_cons] at hlen
  omega

/-- A text without superfluous zeros is that of its number. -/
theorem toDigits_value (h : Digits cs) (hplain : Plain cs) : Nat.toDigits 10 (value cs) = cs := by
  refine eq_of_value (Digits.toDigits _) h ?_ (value_toDigits _)
  obtain ⟨hne, hzero⟩ := hplain
  cases cs with
  | nil => exact absurd rfl hne
  | cons c cs =>
      have hle := (Nat.length_toDigits_le_iff (by omega) (Nat.succ_pos cs.length)).mpr (value_lt h)
      refine Nat.le_antisymm hle (Nat.lt_of_not_le fun hlt => ?_)
      rcases Nat.eq_zero_or_pos cs.length with hnil | hpos
      · have := Nat.length_toDigits_pos (b := 10) (n := value (c :: cs))
        omega
      · have hbound := (Nat.length_toDigits_le_iff (by omega) hpos).mp hlt
        have hc : c ≠ '0' := by
          rintro rfl
          rw [(List.cons.inj (hzero rfl)).2] at hpos
          exact absurd hpos (Nat.lt_irrefl 0)
        have hrange := isDigit_range (h c (.head _))
        have hdigit : c.toNat ≠ 48 := fun h48 => hc (Char.toNat_inj.mp h48)
        have hlead : 1 * 10 ^ cs.length ≤ (c.toNat - 48) * 10 ^ cs.length :=
          Nat.mul_le_mul_right _ (by omega)
        rw [value_cons] at hbound
        omega

end Decimal
