import Mathlib.Data.UInt
import Mathlib.Data.Nat.Digits.Defs

/-!
# Hexadecimal text

Bytes as pairs of hexadecimal digits.  Encoding writes lower case, decoding reads
both cases.  What is encoded is decoded to the same bytes.
-/

namespace Hex

/-- The value of a digit. -/
def value (c : Char) : Option ℕ :=
  if '0' ≤ c ∧ c ≤ '9' then some (c.toNat - '0'.toNat)
  else if 'a' ≤ c ∧ c ≤ 'f' then some (c.toNat - 'a'.toNat + 10)
  else if 'A' ≤ c ∧ c ≤ 'F' then some (c.toNat - 'A'.toNat + 10)
  else none

/-- The two digits of a byte. -/
def digits (b : UInt8) : List Char := [Nat.digitChar (b.toNat / 16), Nat.digitChar (b.toNat % 16)]

def encode (bytes : List UInt8) : List Char := bytes.flatMap digits

/-- The bytes of a text, if it is all pairs of digits. -/
def decode : List Char → Option (List UInt8)
  | [] => some []
  | [_] => none
  | high :: low :: rest => do
      let x ← value high
      let y ← value low
      let bytes ← decode rest
      some (UInt8.ofNat (16 * x + y) :: bytes)

theorem value_digitChar {d : ℕ} (h : d < 16) : value (Nat.digitChar d) = some d :=
  (by decide : ∀ d : Fin 16, value (Nat.digitChar d) = some d.val) ⟨d, h⟩

/-- What is decoded is all digits. -/
theorem value_of_decode {c : Char} {cs : List Char} {bytes : List UInt8}
    (h : decode cs = some bytes) (hc : c ∈ cs) : (value c).isSome = true := by
  induction cs using decode.induct generalizing bytes with
  | case1 => cases hc
  | case2 => cases h
  | case3 high low rest ih =>
      simp only [decode, Option.bind_eq_bind, Option.bind_eq_some_iff] at h
      obtain ⟨x, hhigh, y, hlow, bytes, hrest, -⟩ := h
      rcases List.mem_cons.mp hc with rfl | hc
      · rw [hhigh, Option.isSome_some]
      · rcases List.mem_cons.mp hc with rfl | hc
        · rw [hlow, Option.isSome_some]
        · exact ih hrest hc

theorem decode_digits (b : UInt8) (rest : List Char) :
    decode (digits b ++ rest) = (decode rest).map (b :: ·) := by
  have hb := b.toNat_lt
  have hhigh := value_digitChar (d := b.toNat / 16) (by omega)
  have hlow := value_digitChar (d := b.toNat % 16) (by omega)
  have hbyte : 16 * (b.toNat / 16) + b.toNat % 16 = b.toNat := by omega
  simp only [digits, List.cons_append, List.nil_append, decode, hhigh, hlow, hbyte,
    UInt8.ofNat_toNat, Option.bind_eq_bind, Option.bind_some]
  cases decode rest with
  | none => rfl
  | some bytes => rfl

/-- What is encoded, is decoded. -/
@[simp] theorem decode_encode (bytes : List UInt8) : decode (encode bytes) = some bytes := by
  induction bytes with
  | nil => rfl
  | cons b bytes ih =>
      have hcons : encode (b :: bytes) = digits b ++ encode bytes := List.flatMap_cons
      rw [hcons, decode_digits, ih, Option.map_some]

end Hex
