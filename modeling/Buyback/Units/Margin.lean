import Buyback.Source.Units

/-!
# Margins

What `units.rs` promises of a margin: the exact value, rounded up and saturated, and from
it the price limits and the funding.  The promise is kept exactly where `BPS + bps` fits
in a `u64`, or the margin is one of nothing.  Beyond that the sum wraps before it is
widened, and a huge margin becomes one of less than nothing.
-/

namespace Buyback

variable {value value' margin margin' : UInt64}

/-- No integer of the calculation is cut off. -/
structure NoOverflow (value margin : UInt64) : Prop where
  sum : (bps + margin).toNat = bps.toNat + margin.toNat
  product : value.toNat * (bps + margin).toNat < 2 ^ 128

/-- A price raised by a margin, up to the largest `u64`. -/
def raisedPrice (price margin : UInt64) : ℚ :=
  min ((2 : ℚ) ^ 64 - 1) ((price.toNat : ℚ) * (1 + (margin.toNat : ℚ) / 10000))

/-- What a margin promises for a value. -/
structure ExactMargin (value margin : UInt64) : Prop where
  exact : (addBpsCeil value margin).toNat =
    min (2 ^ 64 - 1) (value.toNat * (10000 + margin.toNat) ⌈/⌉ 10000)
  mono_value : ∀ value' ≤ value, addBpsCeil value' margin ≤ addBpsCeil value margin
  mono_margin : ∀ margin' ≤ margin, addBpsCeil value margin' ≤ addBpsCeil value margin
  le : value ≤ addBpsCeil value margin
  /-- The limit is the least from 1 rao on that admits every price up to the raised one. -/
  limit : IsLeast
    {limit : ℕ | 1 ≤ limit ∧ ∀ price : ℚ, price ≤ raisedPrice value margin → price ≤ limit}
    (buyLimitPrice value margin).toNat
  /-- The funding is the least that brings the wallet to the fees and the deposit. -/
  funding : ∀ ed free : UInt64, IsLeast
    {n : ℕ | min (2 ^ 64 - 1) ((addBpsCeil value margin).toNat + ed.toNat) ≤ free.toNat + n}
    (fundingNeeded value margin ed free).toNat

theorem addBpsCeil_zero (margin : UInt64) : addBpsCeil 0 margin = 0 := by
  rw [addBpsCeil, UInt64.toNat_zero, Nat.zero_mul]
  rfl

/-- The margin of a value, where the sum fits. -/
theorem addBpsCeil_fits (value : UInt64) (h : 10000 + margin.toNat < 2 ^ 64) :
    (addBpsCeil value margin).toNat =
      min (2 ^ 64 - 1) (value.toNat * (10000 + margin.toNat) ⌈/⌉ 10000) := by
  rw [toNat_addBpsCeil value (by omega), min_comm]

/-- Where the sum wraps, the margin is too small. -/
theorem addBpsCeil_wraps (hvalue : value ≠ 0) (h : ¬ 10000 + margin.toNat < 2 ^ 64) :
    (addBpsCeil value margin).toNat <
      min (2 ^ 64 - 1) (value.toNat * (10000 + margin.toNat) ⌈/⌉ 10000) := by
  have hlt := value.toNat_lt
  have hmargin := margin.toNat_lt
  have hbps : bps.toNat = 10000 := rfl
  have hpos : value.toNat ≠ 0 := fun h => hvalue (UInt64.toNat_inj.mp h)
  have hsum : (bps + margin).toNat ≤ 9999 := by
    rw [UInt64.toNat_add, hbps]
    omega
  have hsmall : value.toNat * (bps + margin).toNat ≤ value.toNat * 9999 :=
    Nat.mul_le_mul_left _ hsum
  have hlarge : value.toNat * 2 ^ 64 ≤ value.toNat * (10000 + margin.toNat) :=
    Nat.mul_le_mul_left _ (by omega)
  rw [addBpsCeil, toNat_saturate, hbps, Nat.ceilDiv_eq_add_pred_div]
  omega

/-! ## What follows from the exact margin -/

theorem addBpsCeil_mono (h : 10000 + margin.toNat < 2 ^ 64) (hvalue : value' ≤ value)
    (hmargin : margin' ≤ margin) : addBpsCeil value' margin' ≤ addBpsCeil value margin := by
  rw [UInt64.le_iff_toNat_le] at hvalue hmargin ⊢
  have h' : 10000 + margin'.toNat < 2 ^ 64 := by omega
  have hpos : 0 < 10000 := by omega
  rw [addBpsCeil_fits value h, addBpsCeil_fits value' h']
  refine min_le_min_left _ ((ceilDiv_le_iff_le_mul hpos).mpr ?_)
  calc value'.toNat * (10000 + margin'.toNat)
      ≤ value.toNat * (10000 + margin.toNat) := Nat.mul_le_mul hvalue (by omega)
    _ ≤ 10000 * (value.toNat * (10000 + margin.toNat) ⌈/⌉ 10000) :=
        le_smul_ceilDiv hpos

theorem le_addBpsCeil (h : 10000 + margin.toNat < 2 ^ 64) : value ≤ addBpsCeil value margin := by
  have hlt := value.toNat_lt
  have hprod : value.toNat * 10000 ≤ value.toNat * (10000 + margin.toNat) :=
    Nat.mul_le_mul_left _ (by omega)
  rw [UInt64.le_iff_toNat_le, addBpsCeil_fits value h, Nat.ceilDiv_eq_add_pred_div]
  omega

/-- A limit admits the raised price exactly if it admits the rounded one. -/
theorem admits_iff {limit : ℕ} :
    (∀ price : ℚ, price ≤ raisedPrice value margin → price ≤ limit) ↔
      min (2 ^ 64 - 1) (value.toNat * (10000 + margin.toNat) ⌈/⌉ 10000) ≤ limit := by
  have hprice : (value.toNat : ℚ) * (1 + (margin.toNat : ℚ) / 10000) =
      ((value.toNat * (10000 + margin.toNat) : ℕ) : ℚ) / 10000 := by
    push_cast
    ring
  have hmax : (2 : ℚ) ^ 64 - 1 = ((2 ^ 64 - 1 : ℕ) : ℚ) := by norm_num
  rw [forall_le_iff_le, raisedPrice, min_le_iff, min_le_iff, hprice, hmax, Nat.cast_le,
    div_le_iff₀ (by norm_num), ceilDiv_le_iff_le_mul (by omega)]
  norm_cast
  rw [Nat.mul_comm limit]

theorem toNat_buyLimitPrice (value margin : UInt64) :
    (buyLimitPrice value margin).toNat = max (addBpsCeil value margin).toNat 1 := by
  have hmax : buyLimitPrice value margin =
      if addBpsCeil value margin ≤ 1 then 1 else addBpsCeil value margin := rfl
  have hone : (1 : UInt64).toNat = 1 := rfl
  rw [hmax]
  split
  next h =>
    rw [UInt64.le_iff_toNat_le] at h
    omega
  next h =>
    rw [UInt64.le_iff_toNat_le] at h
    omega

theorem buyLimitPrice_isLeast (h : (addBpsCeil value margin).toNat =
      min (2 ^ 64 - 1) (value.toNat * (10000 + margin.toNat) ⌈/⌉ 10000)) :
    IsLeast {limit : ℕ | 1 ≤ limit ∧ ∀ price : ℚ, price ≤ raisedPrice value margin → price ≤ limit}
      (buyLimitPrice value margin).toNat := by
  simp only [admits_iff, ← h, toNat_buyLimitPrice]
  refine ⟨⟨le_max_right _ _, le_max_left _ _⟩, fun limit hlimit => ?_⟩
  exact max_le hlimit.2 hlimit.1

theorem fundingNeeded_isLeast (value margin ed free : UInt64) : IsLeast
    {n : ℕ | min (2 ^ 64 - 1) ((addBpsCeil value margin).toNat + ed.toNat) ≤ free.toNat + n}
    (fundingNeeded value margin ed free).toNat := by
  rw [fundingNeeded, toNat_saturatingSub, toNat_saturatingAdd, min_comm]
  constructor
  · rw [Set.mem_ofPred_eq]
    omega
  · intro n hn
    rw [Set.mem_ofPred_eq] at hn
    omega

/-! ## Where the promise is kept -/

theorem ExactMargin.of_fits (value : UInt64) (h : 10000 + margin.toNat < 2 ^ 64) :
    ExactMargin value margin where
  exact := addBpsCeil_fits value h
  mono_value _ hvalue := addBpsCeil_mono h hvalue (UInt64.le_refl _)
  mono_margin _ hmargin := addBpsCeil_mono h (UInt64.le_refl _) hmargin
  le := le_addBpsCeil h
  limit := buyLimitPrice_isLeast (addBpsCeil_fits value h)
  funding := fundingNeeded_isLeast value margin

/-- Nothing raised by any margin is nothing. -/
theorem ExactMargin.of_zero (margin : UInt64) : ExactMargin 0 margin := by
  have hexact : (addBpsCeil 0 margin).toNat =
      min (2 ^ 64 - 1) ((0 : UInt64).toNat * (10000 + margin.toNat) ⌈/⌉ 10000) := by
    rw [addBpsCeil_zero, UInt64.toNat_zero, Nat.zero_mul, zero_ceilDiv, min_zero]
  refine ⟨hexact, fun value' h => ?_, fun margin' _ => ?_, ?_, buyLimitPrice_isLeast hexact,
    fundingNeeded_isLeast 0 margin⟩
  · rw [UInt64.le_zero_iff.mp h]
    exact UInt64.le_refl _
  · rw [addBpsCeil_zero, addBpsCeil_zero]
    exact UInt64.le_refl _
  · rw [addBpsCeil_zero]
    exact UInt64.le_refl _

/-- The sum that the margin starts with fits, or it wraps. -/
theorem noOverflow_iff : NoOverflow value margin ↔ 10000 + margin.toNat < 2 ^ 64 := by
  have hvalue := value.toNat_lt
  have hbps : bps.toNat = 10000 := rfl
  constructor
  · rintro ⟨hsum, -⟩
    have hlt := (bps + margin).toNat_lt
    omega
  · intro h
    have hsum : (bps + margin).toNat = bps.toNat + margin.toNat := by
      rw [UInt64.toNat_add, hbps]
      omega
    refine ⟨hsum, ?_⟩
    calc value.toNat * (bps + margin).toNat < 2 ^ 64 * 2 ^ 64 :=
          Nat.mul_lt_mul'' hvalue (bps + margin).toNat_lt
      _ = 2 ^ 128 := by norm_num

/-- A margin is exact without overflow exactly if `BPS + bps` fits in a `u64`.  Its
results alone are also exact for the value 0, where the wrapped factor is of no account. -/
theorem exactMargin_iff (value margin : UInt64) :
    (NoOverflow value margin ∧ ExactMargin value margin ↔ 10000 + margin.toNat < 2 ^ 64) ∧
    (ExactMargin value margin ↔ value = 0 ∨ 10000 + margin.toNat < 2 ^ 64) := by
  constructor
  · rw [noOverflow_iff]
    exact and_iff_left_of_imp (ExactMargin.of_fits value)
  · constructor
    · intro h
      by_contra hno
      rw [not_or] at hno
      exact (addBpsCeil_wraps hno.1 hno.2).ne h.exact
    · rintro (rfl | h)
      · exact ExactMargin.of_zero margin
      · exact ExactMargin.of_fits value h

/-- A price of 20000000 rao with the largest margins but 9999 has a limit of 1 rao. -/
theorem wrappedMargin_inexact :
    buyLimitPrice 20000000 18446744073709541616 = 1 ∧
      ¬ ExactMargin 20000000 18446744073709541616 := by
  have hzero : addBpsCeil 20000000 18446744073709541616 = 0 := by decide
  refine ⟨by decide, fun h => absurd h.le ?_⟩
  rw [hzero]
  decide

end Buyback
