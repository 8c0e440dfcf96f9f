import Buyback.Source.Amount

/-!
# Decimal amounts

A text is parsed exactly if it is a decimal number with at most nine decimals whose rao
fit in a `u64`, and then to those rao.  What is formatted, is parsed to the same rao, and
is the one text of that value with nine decimals and no superfluous zero.
-/

namespace Buyback

/-- A trimmed text as its digits before and after the point. -/
structure AmountText (s : String) (int frac : List Char) : Prop where
  text : (trim s).toList = int ∧ frac = [] ∨ (trim s).toList = int ++ '.' :: frac
  int_digits : Decimal.Digits int
  frac_digits : Decimal.Digits frac
  some_digit : int ≠ [] ∨ frac ≠ []
  length_le : frac.length ≤ 9

/-- The rao of a decimal number. -/
def raoOf (int frac : List Char) : ℕ :=
  Decimal.value int * 10 ^ 9 + Decimal.value frac * 10 ^ (9 - frac.length)

/-- The text of an amount with nine decimals and no superfluous leading zero. -/
def CanonicalAmount (s : String) (rao : ℕ) : Prop :=
  ∃ int frac, s.toList = int ++ '.' :: frac ∧ Decimal.Digits int ∧ Decimal.Digits frac ∧
    Decimal.Plain int ∧ frac.length = 9 ∧ raoOf int frac = rao

variable {s : String} {int frac t : List Char} {v : UInt64}

theorem point_notMem (h : Decimal.Digits int) : '.' ∉ int :=
  fun hmem => absurd (h '.' hmem) (by decide)

/-- A text is cut at its first point, if it has one. -/
theorem split_text (h : '.' ∉ int) :
    (Split.once ['.'] t).getD (t, []) = (int, frac) ↔
      t = int ∧ frac = [] ∨ t = int ++ '.' :: frac := by
  cases honce : Split.once ['.'] t with
  | none =>
      have hnone := Split.once_eq_none_iff.mp honce
      rw [Option.getD_none, Prod.mk.injEq]
      constructor
      · exact fun ⟨ht, hfrac⟩ => .inl ⟨ht, hfrac.symm⟩
      · rintro (⟨rfl, rfl⟩ | rfl)
        · exact ⟨rfl, rfl⟩
        · exact absurd (List.mem_append_right _ (.head _)) hnone
  | some x =>
      obtain ⟨a, b⟩ := x
      obtain ⟨rfl, ha⟩ := Split.once_eq_some_iff.mp honce
      rw [Option.getD_some, Prod.mk.injEq]
      constructor
      · rintro ⟨rfl, rfl⟩
        exact .inr rfl
      · rintro (⟨rfl, -⟩ | heq)
        · exact absurd (List.mem_append_right _ (.head _)) h
        · rw [heq, Split.once_singleton h] at honce
          cases honce
          exact ⟨rfl, rfl⟩

/-! ## Formatting -/

theorem toList_formatAmount (v : UInt64) : (formatAmount v).toList =
    Nat.toDigits 10 (v.toNat / 10 ^ 9) ++ '.' :: Decimal.padded 9 (v.toNat % 10 ^ 9) := by
  rw [formatAmount, String.toList_ofList, UInt64.toNat_div, UInt64.toNat_mod]
  rfl

theorem length_frac (n : ℕ) : (Decimal.padded 9 (n % 10 ^ 9)).length = 9 :=
  Decimal.length_padded (by omega) (Nat.mod_lt _ (by omega))

/-- The digits of a formatted amount are the digits of its rao. -/
theorem raoOf_format (n : ℕ) :
    raoOf (Nat.toDigits 10 (n / 10 ^ 9)) (Decimal.padded 9 (n % 10 ^ 9)) = n := by
  rw [raoOf, length_frac, Decimal.value_toDigits, Decimal.value_padded, Nat.sub_self, pow_zero,
    Nat.mul_one, Nat.mul_comm]
  exact Nat.div_add_mod n (10 ^ 9)

theorem formatAmount_canonical (v : UInt64) : CanonicalAmount (formatAmount v) v.toNat :=
  ⟨_, _, toList_formatAmount v, Decimal.Digits.toDigits _, Decimal.Digits.padded _ _,
    Decimal.Plain.toDigits _, length_frac _, raoOf_format _⟩

/-- The canonical text of an amount is the formatted one. -/
theorem CanonicalAmount.eq_format (h : CanonicalAmount s v.toNat) : s = formatAmount v := by
  obtain ⟨int, frac, htext, hint, hfrac, hplain, hlen, hrao⟩ := h
  have hlt := Decimal.value_lt hfrac
  rw [raoOf, hlen, Nat.sub_self, pow_zero, Nat.mul_one] at hrao
  rw [hlen] at hlt
  have hquot : v.toNat / 10 ^ 9 = Decimal.value int := by omega
  have hrem : v.toNat % 10 ^ 9 = Decimal.value frac := by omega
  have hpad := Decimal.padded_value hfrac (by omega)
  rw [hlen] at hpad
  refine String.toList_injective ?_
  rw [htext, toList_formatAmount, hquot, hrem, Decimal.toDigits_value hint hplain, hpad]

theorem trim_formatAmount (v : UInt64) : trim (formatAmount v) = formatAmount v := by
  have hdigit {c : Char} (hc : c.isDigit = true) : isWhiteSpace c = false := by
    have hrange := Decimal.isDigit_range hc
    rw [Bool.eq_false_iff]
    intro h
    simp only [isWhiteSpace, Bool.or_eq_true, Bool.and_eq_true, decide_eq_true_iff,
      beq_iff_eq] at h
    omega
  refine trim_ofList fun c hc => ?_
  rcases List.mem_append.mp hc with hint | hrest
  · exact hdigit (Decimal.Digits.toDigits _ c hint)
  · rcases List.mem_cons.mp hrest with rfl | hfrac
    · decide
    · exact hdigit (Decimal.Digits.padded _ _ c hfrac)

/-! ## Parsing -/

/-- The fraction, with zeros up to nine digits. -/
theorem parseFrac_ok {n : UInt64} (h : Decimal.Digits frac) :
    parseU64 (frac.rightpad 9 '0') = some n ↔
      Decimal.value frac * 10 ^ (9 - frac.length) = n.toNat := by
  have hdigits : Decimal.Digits (frac.rightpad 9 '0') := h.append (Decimal.Digits.zeros _)
  have hne : frac.rightpad 9 '0' ≠ [] := by
    intro hnil
    have hlen := congrArg List.length hnil
    rw [List.length_rightpad, List.length_nil] at hlen
    omega
  rw [parseU64_some hdigits hne, List.rightpad, Decimal.value_append, Decimal.value_zeros,
    List.length_replicate, Nat.add_zero]

/-- The check that the parts are digits and not too many. -/
theorem check_ok : ¬ ((int = [] ∧ frac = []) ∨ 9 < (String.ofList frac).utf8ByteSize ∨
      (int ++ frac).all Char.isDigit = false) ↔
    (int ≠ [] ∨ frac ≠ []) ∧ frac.length ≤ 9 ∧ Decimal.Digits int ∧ Decimal.Digits frac := by
  rw [not_or, not_or, not_and_or, Nat.not_lt, Bool.not_eq_false, List.all_append, Bool.and_eq_true,
    List.all_eq_true, List.all_eq_true]
  refine and_congr_right fun _ => ?_
  constructor
  · rintro ⟨hlen, hint, hfrac⟩
    rw [utf8ByteSize_digits hfrac] at hlen
    exact ⟨hlen, hint, hfrac⟩
  · rintro ⟨hlen, hint, hfrac⟩
    rw [utf8ByteSize_digits hfrac]
    exact ⟨hlen, hint, hfrac⟩

variable [StdTexts]

theorem parseInt_ok {n : UInt64} (h : Decimal.Digits int) :
    parseInt s int = .ok n ↔ Decimal.value int = n.toNat := by
  unfold parseInt
  split
  next hnil =>
    rw [hnil, Except.ok.injEq, ← UInt64.toNat_inj]
    rfl
  next hne => rw [okOr_ok, parseU64_some h hne]

/-- The checked arithmetic on the two parts. -/
theorem parseParts_ok (hint : Decimal.Digits int) (hfrac : Decimal.Digits frac) :
    parseParts s int frac = .ok v ↔ raoOf int frac = v.toNat := by
  have hlt := v.toNat_lt
  have hrao : raoPerTao.toNat = 10 ^ 9 := rfl
  simp only [parseParts, Result.bind_eq_ok, parseInt_ok hint, okOr_ok, parseFrac_ok hfrac,
    Option.bind_eq_some_iff, checkedMul_some, checkedAdd_some, hrao, raoOf]
  constructor
  · rintro ⟨i, hi, f, hf, m, hm, hv⟩
    rw [hi, hf, hm, hv]
  · intro hv
    generalize Decimal.value int = i at hv
    generalize Decimal.value frac * 10 ^ (9 - frac.length) = f at hv
    obtain ⟨i', hi⟩ := exists_toNat_eq (n := i) (by omega)
    obtain ⟨f', hf⟩ := exists_toNat_eq (n := f) (by omega)
    obtain ⟨m, hm⟩ := exists_toNat_eq (n := i * 10 ^ 9) (by omega)
    exact ⟨i', hi.symm, f', hf.symm, m, by rw [hi, hm], by rw [hm, hf, hv]⟩

/-- Exactly the decimal numbers with rao that fit are parsed, to those rao. -/
theorem parseAmount_ok_iff :
    parseAmount s = .ok v ↔ ∃ int frac, AmountText s int frac ∧ raoOf int frac = v.toNat := by
  rw [parseAmount]
  constructor
  · cases hsplit : (Split.once ['.'] (trim s).toList).getD ((trim s).toList, []) with
    | mk int frac =>
        dsimp only
        rw [Result.refuse_eq_ok, check_ok]
        rintro ⟨⟨hne, hlen, hint, hfrac⟩, hparts⟩
        refine ⟨int, frac, ⟨?_, hint, hfrac, hne, hlen⟩, (parseParts_ok hint hfrac).mp hparts⟩
        exact (split_text (point_notMem hint)).mp hsplit
  · rintro ⟨int, frac, ⟨htext, hint, hfrac, hne, hlen⟩, hv⟩
    rw [(split_text (point_notMem hint)).mpr htext]
    dsimp only
    rw [Result.refuse_eq_ok, check_ok]
    exact ⟨⟨hne, hlen, hint, hfrac⟩, (parseParts_ok hint hfrac).mpr hv⟩

/-- Every refusal names the text. -/
theorem parseAmount_error {e : Error} (h : parseAmount s = .error e) : e = badAmount s := by
  unfold parseAmount at h
  dsimp only at h
  split at h
  next =>
    cases h
    rfl
  next =>
    rw [parseParts] at h
    rcases Result.bind_error h with h | ⟨_, -, h⟩
    · unfold parseInt at h
      split at h
      next => cases h
      next => exact okOr_error h
    · rcases Result.bind_error h with h | ⟨_, -, h⟩
      · exact okOr_error h
      · exact okOr_error h

/-- What is formatted, is parsed to the same rao. -/
theorem parseAmount_format (v : UInt64) : parseAmount (formatAmount v) = .ok v := by
  refine parseAmount_ok_iff.mpr ⟨_, _, ⟨.inr ?_, Decimal.Digits.toDigits _,
    Decimal.Digits.padded _ _, .inl Nat.toDigits_ne_nil, (length_frac _).le⟩, raoOf_format _⟩
  rw [trim_formatAmount, toList_formatAmount]

/-- Amounts are parsed exactly: the decimal numbers whose rao fit, and nothing else.
Formatting is parsed back, and gives the one canonical text of what was parsed. -/
theorem amounts_exact :
    (∀ s v, parseAmount s = .ok v ↔
      ∃ int frac, AmountText s int frac ∧ raoOf int frac = v.toNat) ∧
    (∀ s e, parseAmount s = .error e → e = badAmount s) ∧
    (∀ v, parseAmount (formatAmount v) = .ok v) ∧
    ∀ s v, parseAmount s = .ok v → ∀ t, CanonicalAmount t v.toNat ↔ t = formatAmount v := by
  refine ⟨fun _ _ => parseAmount_ok_iff, fun _ _ => parseAmount_error, parseAmount_format,
    fun s v _ t => ⟨CanonicalAmount.eq_format, ?_⟩⟩
  rintro rfl
  exact formatAmount_canonical v

end Buyback
