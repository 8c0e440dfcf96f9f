import Buyback.Codec.Decimal
import Buyback.Source.Keys
import Buyback.Source.Text
import Buyback.Source.Units

/-!
# Amounts as text

The decimal amounts of `units.rs`, which the operator writes and reads.  The integers
are parsed as `u64`, with the sign that the standard library allows there.
-/

namespace Buyback

/-- The plus sign that an integer may begin with. -/
def stripPlus : List Char → List Char
  | '+' :: rest => rest
  | cs => cs

/-- `str::parse::<u64>`. -/
def parseU64 (cs : List Char) : Option UInt64 :=
  let digits := stripPlus cs
  if digits ≠ [] ∧ digits.all Char.isDigit = true ∧ Decimal.value digits < 2 ^ 64 then
    some (UInt64.ofNat (Decimal.value digits))
  else none

/-- `u64::checked_mul`. -/
def checkedMul (a b : UInt64) : Option UInt64 :=
  if a.toNat * b.toNat < 2 ^ 64 then some (a * b) else none

/-- `u64::checked_add`. -/
def checkedAdd (a b : UInt64) : Option UInt64 :=
  if a.toNat + b.toNat < 2 ^ 64 then some (a + b) else none

/-- The error of a text that is no amount. -/
def badAmount [StdTexts] (s : String) : Error := .config ("invalid amount " ++ debugStr s)

/-- The integer part, which may be empty. -/
def parseInt [StdTexts] (s : String) (int : List Char) : Result UInt64 :=
  if int = [] then .ok 0 else okOr (parseU64 int) (badAmount s)

/-- The rao of the two parts. -/
def parseParts [StdTexts] (s : String) (int frac : List Char) : Result UInt64 := do
  let int ← parseInt s int
  let fracRao ← okOr (parseU64 (frac.rightpad 9 '0')) (badAmount s)
  okOr ((checkedMul int raoPerTao).bind fun v => checkedAdd v fracRao) (badAmount s)

/-- Parse a decimal amount into rao.  At most nine decimals. -/
def parseAmount [StdTexts] (s : String) : Result UInt64 :=
  let t := (trim s).toList
  let (int, frac) := (Split.once ['.'] t).getD (t, [])
  if (int = [] ∧ frac = []) ∨ 9 < (String.ofList frac).utf8ByteSize ∨
      (int ++ frac).all Char.isDigit = false then
    .error (badAmount s)
  else parseParts s int frac

/-- Format rao as a decimal with nine places. -/
def formatAmount (rao : UInt64) : String :=
  String.ofList
    (Nat.toDigits 10 (rao / raoPerTao).toNat ++
      '.' :: Decimal.padded 9 (rao % raoPerTao).toNat)

theorem exists_toNat_eq {n : ℕ} (h : n < 2 ^ 64) : ∃ u : UInt64, u.toNat = n :=
  ⟨UInt64.ofNat n, by rw [UInt64.toNat_ofNat', Nat.mod_eq_of_lt h]⟩

theorem checkedMul_some {a b c : UInt64} :
    checkedMul a b = some c ↔ a.toNat * b.toNat = c.toNat := by
  have hlt := c.toNat_lt
  rw [checkedMul, Option.ite_none_right_eq_some, Option.some.injEq, ← UInt64.toNat_inj,
    UInt64.toNat_mul]
  constructor
  · rintro ⟨h, hc⟩
    rwa [Nat.mod_eq_of_lt h] at hc
  · intro h
    rw [h]
    exact ⟨hlt, Nat.mod_eq_of_lt hlt⟩

theorem checkedAdd_some {a b c : UInt64} :
    checkedAdd a b = some c ↔ a.toNat + b.toNat = c.toNat := by
  have hlt := c.toNat_lt
  rw [checkedAdd, Option.ite_none_right_eq_some, Option.some.injEq, ← UInt64.toNat_inj,
    UInt64.toNat_add]
  omega

/-- Digits are parsed as the number that they write, if it fits. -/
theorem parseU64_some {cs : List Char} {n : UInt64} (h : Decimal.Digits cs) (hne : cs ≠ []) :
    parseU64 cs = some n ↔ Decimal.value cs = n.toNat := by
  have hlt := n.toNat_lt
  have hplus : stripPlus cs = cs := by
    unfold stripPlus
    split
    next => exact absurd (h '+' (.head _)) (by decide)
    next => rfl
  rw [parseU64, hplus, Option.ite_none_right_eq_some, Option.some.injEq, ← UInt64.toNat_inj,
    UInt64.toNat_ofNat', List.all_eq_true]
  constructor
  · rintro ⟨⟨-, -, hfits⟩, hn⟩
    rwa [Nat.mod_eq_of_lt hfits] at hn
  · intro hn
    rw [hn]
    exact ⟨⟨hne, h, hlt⟩, Nat.mod_eq_of_lt hlt⟩

theorem utf8ByteSize_digits {cs : List Char} (h : Decimal.Digits cs) :
    (String.ofList cs).utf8ByteSize = cs.length := by
  induction cs with
  | nil => rfl
  | cons c cs ih =>
      obtain ⟨hc, hcs⟩ := List.forall_mem_cons.mp h
      have hrange := Decimal.isDigit_range hc
      have hsize : c.utf8Size = 1 :=
        Char.utf8Size_eq_one_iff.mpr (UInt32.le_iff_toNat_le.mpr (hrange.2.trans (by decide)))
      rw [String.ofList_cons, String.utf8ByteSize_append, String.utf8ByteSize_singleton, hsize,
        ih hcs, List.length_cons, Nat.add_comm]

end Buyback
