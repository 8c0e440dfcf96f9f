import Buyback.Codec.LittleEndian
import Mathlib.Data.List.Basic

/-!
# Compact integers

The SCALE encoding of integers up to 64 bits in one to nine bytes.  The low two bits of
the first byte tell the form: one, two or four bytes with the number above them, or a
count of the bytes that follow.  Each number has one form, so decoding takes exactly the
encoding of one number off a text.
-/

namespace Compact

open LittleEndian

/-- The bytes of a number that is not short. -/
def width (n : ℕ) : ℕ :=
  if n < 2 ^ 32 then 4 else if n < 2 ^ 40 then 5 else if n < 2 ^ 48 then 6
  else if n < 2 ^ 56 then 7 else 8

def encode (n : ℕ) : List UInt8 :=
  if n < 2 ^ 6 then bytes 1 (4 * n)
  else if n < 2 ^ 14 then bytes 2 (4 * n + 1)
  else if n < 2 ^ 30 then bytes 4 (4 * n + 2)
  else UInt8.ofNat (4 * (width n - 4) + 3) :: bytes (width n) n

/-- A number above the two bits of its form, not below what a shorter form holds. -/
def readShort (w low : ℕ) (bs : List UInt8) : Option (ℕ × List UInt8) :=
  let n := value (bs.take w) / 4
  if w ≤ bs.length ∧ low ≤ n then some (n, bs.drop w) else none

/-- A number of a given count of bytes, not below what fewer hold. -/
def readLong (w : ℕ) (bs : List UInt8) : Option (ℕ × List UInt8) :=
  let n := value (bs.take w)
  if w ≤ 8 ∧ w ≤ bs.length ∧ 2 ^ 30 ≤ n ∧ width n = w then some (n, bs.drop w) else none

def decode : List UInt8 → Option (ℕ × List UInt8)
  | [] => none
  | b :: bs =>
      if b.toNat % 4 = 0 then readShort 1 0 (b :: bs)
      else if b.toNat % 4 = 1 then readShort 2 (2 ^ 6) (b :: bs)
      else if b.toNat % 4 = 2 then readShort 4 (2 ^ 14) (b :: bs)
      else readLong (b.toNat / 4 + 4) bs

variable {w m n low : ℕ} {b : UInt8} {bs rest : List UInt8}

theorem take_eq_bytes_iff (h : m < 256 ^ w) :
    w ≤ bs.length ∧ value (bs.take w) = m ∧ bs.drop w = rest ↔ bytes w m ++ rest = bs := by
  constructor
  · rintro ⟨hlen, rfl, rfl⟩
    have htake : (bs.take w).length = w := List.length_take_of_le hlen
    have hbytes := bytes_value (bs.take w)
    rw [htake] at hbytes
    rw [hbytes, List.take_append_drop]
  · rintro rfl
    have hlen := length_bytes w m
    refine ⟨by rw [List.length_append]; omega, ?_, ?_⟩
    · rw [List.take_left' hlen, value_bytes_of_lt h]
    · exact List.drop_left' hlen

/-- The short forms: the low two bits of the first byte are those of the number. -/
theorem readShort_iff {form : ℕ} (hform : form < 4) (hw : 0 < w) :
    b.toNat % 4 = form ∧ readShort w low (b :: bs) = some (n, rest) ↔
      (low ≤ n ∧ 4 * n + form < 256 ^ w) ∧ bytes w (4 * n + form) ++ rest = b :: bs := by
  obtain ⟨w, rfl⟩ := Nat.exists_eq_add_one.mpr hw
  have hfirst : value ((b :: bs).take (w + 1)) % 4 = b.toNat % 4 := by
    rw [List.take_succ_cons, value]
    omega
  rw [readShort, Option.ite_none_right_eq_some, Option.some.injEq, Prod.mk.injEq]
  constructor
  · rintro ⟨hb, ⟨hlen, hlow⟩, hvalue, hrest⟩
    have hn : value ((b :: bs).take (w + 1)) = 4 * n + form := by omega
    have hlt := value_lt ((b :: bs).take (w + 1))
    rw [List.length_take_of_le hlen, hn] at hlt
    exact ⟨⟨by omega, hlt⟩, (take_eq_bytes_iff hlt).mp ⟨hlen, hn, hrest⟩⟩
  · rintro ⟨⟨hlow, hlt⟩, hbytes⟩
    obtain ⟨hlen, hvalue, hrest⟩ := (take_eq_bytes_iff hlt).mpr hbytes
    rw [hvalue] at hfirst ⊢
    exact ⟨by omega, ⟨hlen, by omega⟩, by omega, hrest⟩

theorem width_spec (h : n < 2 ^ 64) : 4 ≤ width n ∧ width n ≤ 8 ∧ n < 256 ^ width n := by
  rw [width]
  split_ifs
  all_goals omega

/-- The long form: the first byte counts the bytes of the number. -/
theorem readLong_iff :
    b.toNat % 4 = 3 ∧ readLong (b.toNat / 4 + 4) bs = some (n, rest) ↔
      (2 ^ 30 ≤ n ∧ n < 2 ^ 64) ∧
        UInt8.ofNat (4 * (width n - 4) + 3) :: bytes (width n) n ++ rest = b :: bs := by
  rw [readLong, Option.ite_none_right_eq_some, Option.some.injEq, Prod.mk.injEq, List.cons_append,
    List.cons.injEq]
  constructor
  · rintro ⟨hb, ⟨hmax, hlen, hlow, hwidth⟩, hvalue, hrest⟩
    have hlt := value_lt (bs.take (b.toNat / 4 + 4))
    rw [List.length_take_of_le hlen] at hlt
    rw [hvalue] at hlow hwidth hlt
    have hbound : 256 ^ (b.toNat / 4 + 4) ≤ 256 ^ 8 := Nat.pow_le_pow_right (by omega) hmax
    have hfirst : 4 * (b.toNat / 4 + 4 - 4) + 3 = b.toNat := by omega
    rw [hwidth, hfirst, UInt8.ofNat_toNat]
    exact ⟨⟨hlow, by omega⟩, rfl, (take_eq_bytes_iff hlt).mp ⟨hlen, hvalue, hrest⟩⟩
  · rintro ⟨⟨hlow, hn⟩, rfl, hbytes⟩
    obtain ⟨hmin, hmax, hlt⟩ := width_spec hn
    obtain ⟨hlen, hvalue, hrest⟩ := (take_eq_bytes_iff hlt).mpr hbytes
    have hfirst : (UInt8.ofNat (4 * (width n - 4) + 3)).toNat = 4 * (width n - 4) + 3 := by
      rw [UInt8.toNat_ofNat']
      omega
    have hcount : (4 * (width n - 4) + 3) / 4 + 4 = width n := by omega
    rw [hfirst, hcount, hvalue]
    exact ⟨by omega, ⟨hmax, hlen, hlow, rfl⟩, rfl, hrest⟩

/-- A text decodes by the form of its first byte. -/
theorem decode_cons {x : ℕ × List UInt8} : decode (b :: bs) = some x ↔
    (b.toNat % 4 = 0 ∧ readShort 1 0 (b :: bs) = some x) ∨
    (b.toNat % 4 = 1 ∧ readShort 2 (2 ^ 6) (b :: bs) = some x) ∨
    (b.toNat % 4 = 2 ∧ readShort 4 (2 ^ 14) (b :: bs) = some x) ∨
    (b.toNat % 4 = 3 ∧ readLong (b.toNat / 4 + 4) bs = some x) := by
  rw [decode]
  split_ifs with h0 h1 h2
  · simp [h0]
  · simp [h1]
  · simp [h2]
  · have h3 : b.toNat % 4 = 3 := by omega
    simp [h3]

/-- A number encodes by its size. -/
theorem encode_append : n < 2 ^ 64 ∧ encode n ++ rest = bs ↔
    ((0 ≤ n ∧ 4 * n + 0 < 256 ^ 1) ∧ bytes 1 (4 * n + 0) ++ rest = bs) ∨
    ((2 ^ 6 ≤ n ∧ 4 * n + 1 < 256 ^ 2) ∧ bytes 2 (4 * n + 1) ++ rest = bs) ∨
    ((2 ^ 14 ≤ n ∧ 4 * n + 2 < 256 ^ 4) ∧ bytes 4 (4 * n + 2) ++ rest = bs) ∨
    ((2 ^ 30 ≤ n ∧ n < 2 ^ 64) ∧
      UInt8.ofNat (4 * (width n - 4) + 3) :: bytes (width n) n ++ rest = bs) := by
  rw [encode]
  split_ifs
  all_goals grind

/-- A number below 2^64 decodes from its encoding, and from nothing else. -/
theorem decode_iff : decode bs = some (n, rest) ↔ n < 2 ^ 64 ∧ encode n ++ rest = bs := by
  rw [encode_append]
  cases bs with
  | nil =>
      have hone (m : ℕ) : bytes 1 m ++ rest ≠ [] := List.cons_ne_nil _ _
      have htwo (m : ℕ) : bytes 2 m ++ rest ≠ [] := List.cons_ne_nil _ _
      have hfour (m : ℕ) : bytes 4 m ++ rest ≠ [] := List.cons_ne_nil _ _
      simp [decode, hone, htwo, hfour]
  | cons b bs =>
      rw [decode_cons, readShort_iff (by omega) (by omega), readShort_iff (by omega) (by omega),
        readShort_iff (by omega) (by omega), readLong_iff]

end Compact
