import Mathlib

/-!
# Units and margins

The integer arithmetic of `units.rs` that the engine calls.  Amounts are `u64`
rao.  Addition and subtraction on `UInt64` wrap, as `+` and `-` do in a release
build; the saturating operations and the widenings to `u128` are spelled out.
-/

namespace Buyback

/-- Rao per whole TAO or alpha. -/
def raoPerTao : UInt64 := 1000000000

/-- Basis points in 100 %. -/
def bps : UInt64 := 10000

/-- The value of a `u128` that must fit in a `u64`, or the largest `u64`. -/
def saturate (n : ℕ) : UInt64 := if n < 2 ^ 64 then UInt64.ofNat n else UInt64.ofNat (2 ^ 64 - 1)

/-- `u64::saturating_add`. -/
def saturatingAdd (a b : UInt64) : UInt64 := saturate (a.toNat + b.toNat)

/-- `u64::saturating_sub`. -/
def saturatingSub (a b : UInt64) : UInt64 := UInt64.ofNat (a.toNat - b.toNat)

/-- `value * (1 + bps/10000)`, rounded up, saturating.  The sum `BPS + bps` is
made in `u64`, before the widening. -/
def addBpsCeil (value margin : UInt64) : UInt64 :=
  let v := value.toNat * (bps + margin).toNat
  saturate ((v + (bps.toNat - 1)) / bps.toNat)

/-- TAO the treasury must send so that the wallet can pay `fees`. -/
def fundingNeeded (fees marginBps existentialDeposit currentFree : UInt64) : UInt64 :=
  saturatingSub (saturatingAdd (addBpsCeil fees marginBps) existentialDeposit) currentFree

/-- The worst price accepted when buying. -/
def buyLimitPrice (currentPrice slippageBps : UInt64) : UInt64 :=
  max (addBpsCeil currentPrice slippageBps) 1

/-- Spendable TAO: free minus fee reserve minus existential deposit. -/
def spendable (free feeReserve existentialDeposit : UInt64) : UInt64 :=
  saturatingSub (saturatingSub free feeReserve) existentialDeposit

theorem toNat_saturatingSub (a b : UInt64) : (saturatingSub a b).toNat = a.toNat - b.toNat := by
  have := a.toNat_lt
  simp only [saturatingSub, UInt64.toNat_ofNat']
  omega

theorem toNat_saturate (n : ℕ) : (saturate n).toNat = min n (2 ^ 64 - 1) := by
  unfold saturate
  split
  next h =>
    rw [UInt64.toNat_ofNat']
    omega
  next h =>
    rw [UInt64.toNat_ofNat']
    omega

theorem toNat_saturatingAdd (a b : UInt64) :
    (saturatingAdd a b).toNat = min (a.toNat + b.toNat) (2 ^ 64 - 1) := toNat_saturate _

/-- A sum made with saturating additions is the sum, saturated. -/
theorem toNat_foldl_saturatingAdd (as : List UInt64) (a : UInt64) :
    (as.foldl saturatingAdd a).toNat =
      min (a.toNat + (as.map UInt64.toNat).sum) (2 ^ 64 - 1) := by
  induction as generalizing a with
  | nil =>
      have := a.toNat_lt
      simp only [List.foldl_nil, List.map_nil, List.sum_nil]
      omega
  | cons b as ih =>
      rw [List.foldl_cons, ih, toNat_saturatingAdd, List.map_cons, List.sum_cons]
      omega

/-- The margin is exact as long as `BPS + bps` does not wrap. -/
theorem toNat_addBpsCeil {margin : UInt64} (value : UInt64)
    (h : margin.toNat ≤ 2 ^ 64 - 1 - 10000) :
    (addBpsCeil value margin).toNat =
      min (value.toNat * (10000 + margin.toNat) ⌈/⌉ 10000) (2 ^ 64 - 1) := by
  have hbps : bps.toNat = 10000 := rfl
  have hsum : (bps + margin).toNat = 10000 + margin.toNat := by
    rw [UInt64.toNat_add, hbps]
    omega
  rw [addBpsCeil, toNat_saturate, hsum, hbps, Nat.ceilDiv_eq_add_pred_div]
  rfl

theorem toNat_fundingNeeded {marginBps : UInt64} (fees existentialDeposit currentFree : UInt64)
    (h : marginBps.toNat ≤ 2 ^ 64 - 1 - 10000) :
    (fundingNeeded fees marginBps existentialDeposit currentFree).toNat =
      min (fees.toNat * (10000 + marginBps.toNat) ⌈/⌉ 10000 + existentialDeposit.toNat)
        (2 ^ 64 - 1) - currentFree.toNat := by
  rw [fundingNeeded, toNat_saturatingSub, toNat_saturatingAdd, toNat_addBpsCeil fees h]
  omega

/-- What is spendable, is free on top of the reserve and the deposit. -/
theorem le_free_of_le_spendable {t free feeReserve ed : UInt64} (ht : 0 < t.toNat)
    (h : t ≤ spendable free feeReserve ed) :
    t.toNat + feeReserve.toNat + ed.toNat ≤ free.toNat := by
  rw [UInt64.le_iff_toNat_le, spendable, toNat_saturatingSub, toNat_saturatingSub] at h
  omega

end Buyback
