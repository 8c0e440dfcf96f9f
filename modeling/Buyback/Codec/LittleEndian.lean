import Mathlib.Data.UInt
import Mathlib.Tactic.Ring

/-!
# Little-endian numbers

A number as a given count of bytes, the lowest first.  Bytes and numbers below the bound
of their width are each other's inverse; a shorter width has the low bytes.
-/

namespace LittleEndian

/-- The lowest bytes of a number. -/
def bytes : ℕ → ℕ → List UInt8
  | 0, _ => []
  | w + 1, n => UInt8.ofNat n :: bytes w (n / 256)

/-- The number of some bytes. -/
def value : List UInt8 → ℕ
  | [] => 0
  | b :: bs => 256 * value bs + b.toNat

variable {w n k : ℕ} {bs cs : List UInt8}

@[simp] theorem length_bytes (w n : ℕ) : (bytes w n).length = w := by
  induction w generalizing n with
  | zero => rfl
  | succ w ih => rw [bytes, List.length_cons, ih]

theorem value_lt (bs : List UInt8) : value bs < 256 ^ bs.length := by
  induction bs with
  | nil => exact Nat.one_pos
  | cons b bs ih =>
      have hb := b.toNat_lt
      rw [value, List.length_cons, Nat.pow_succ]
      omega

/-- A width keeps the remainder by its bound. -/
theorem value_bytes (w n : ℕ) : value (bytes w n) = n % 256 ^ w := by
  induction w generalizing n with
  | zero => exact (Nat.mod_one n).symm
  | succ w ih =>
      have hbound : 256 ^ (w + 1) = 256 * 256 ^ w := Nat.pow_succ'
      rw [bytes, value, ih, UInt8.toNat_ofNat', hbound, Nat.mod_mul]
      omega

theorem value_bytes_of_lt (h : n < 256 ^ w) : value (bytes w n) = n := by
  rw [value_bytes, Nat.mod_eq_of_lt h]

theorem bytes_value (bs : List UInt8) : bytes bs.length (value bs) = bs := by
  induction bs with
  | nil => rfl
  | cons b bs ih =>
      have hb := b.toNat_lt
      have hlow : UInt8.ofNat (256 * value bs + b.toNat) = b := by
        rw [← UInt8.toNat_inj, UInt8.toNat_ofNat']
        omega
      have hhigh : (256 * value bs + b.toNat) / 256 = value bs := by omega
      rw [List.length_cons, value, bytes, hlow, hhigh, ih]

/-- The bytes of a number depend on its remainder. -/
theorem bytes_mod (w n : ℕ) : bytes w (n % 256 ^ w) = bytes w n := by
  have h := bytes_value (bytes w n)
  rwa [length_bytes, value_bytes] at h

theorem bytes_zero (w : ℕ) : bytes w 0 = List.replicate w 0 := by
  induction w with
  | zero => rfl
  | succ w ih =>
      rw [bytes, Nat.zero_div, ih, List.replicate_succ]
      rfl

theorem value_append : value (bs ++ cs) = value bs + 256 ^ bs.length * value cs := by
  induction bs with
  | nil => rw [List.nil_append, value, List.length_nil, Nat.pow_zero, Nat.one_mul, Nat.zero_add]
  | cons b bs ih =>
      rw [List.cons_append, value, ih, value, List.length_cons, Nat.pow_succ]
      ring

/-- Only zeros have the value zero. -/
theorem value_eq_zero_iff : value bs = 0 ↔ bs = List.replicate bs.length 0 := by
  constructor
  · intro h
    rw [← bytes_zero, ← h, bytes_value]
  · intro h
    rw [h, ← bytes_zero, value_bytes, Nat.zero_mod]

/-- A larger width has zeros above. -/
theorem bytes_append_zeros (h : n < 256 ^ w) :
    bytes w n ++ List.replicate k 0 = bytes (w + k) n := by
  have hzeros : value (List.replicate k 0) = 0 :=
    value_eq_zero_iff.mpr (by rw [List.length_replicate])
  have hbytes := bytes_value (bytes w n ++ List.replicate k 0)
  rw [value_append, hzeros, value_bytes_of_lt h, List.length_append, length_bytes,
    List.length_replicate, Nat.mul_zero, Nat.add_zero] at hbytes
  exact hbytes.symm

/-- A shorter width has the low bytes. -/
theorem take_bytes (h : k ≤ w) : (bytes w n).take k = bytes k n := by
  induction k generalizing w n with
  | zero => rw [List.take_zero, bytes]
  | succ k ih =>
      cases w with
      | zero => omega
      | succ w => rw [bytes, List.take_succ_cons, ih (by omega), bytes]

end LittleEndian
