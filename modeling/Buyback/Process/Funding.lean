import Buyback.System.Script

/-!
# Funding a payment wallet

What `step_detected` does with a wallet that it sees as a whole: its positions,
the estimate for the sweep of each, the price, the deposit and the balance.  The
amounts are natural numbers, with the two bounds of `u64` written out.

*Exactness.*  `FundsExactly` says that the treasury sends TAO only for positions
that the next step will sweep, and then what their sweeps need.  The program
tests for any position where it should test for such a position, and its sums
stop at the largest `u64`.  `fundsExactly_iff` says when neither matters.
-/

namespace Buyback

open Resumption

/-! ## Paying for sweeps -/

/-- The balance covers a cost for each fee, of at most that fee, in any order, and
never falls below `least`. -/
def Covers (balance least : ℕ) (fees : List ℕ) : Prop :=
  ∀ order costs : List ℕ, order.Perm fees → List.Forall₂ (· ≤ ·) costs order →
    ∀ k, least + (costs.take k).sum ≤ balance

theorem covers_iff {balance least : ℕ} {fees : List ℕ} :
    Covers balance least fees ↔ least + fees.sum ≤ balance := by
  constructor
  · intro h
    simpa using h fees fees (.refl _) (List.forall₂_refl _) fees.length
  · intro h order costs hperm hcosts k
    have hprefix : (costs.take k).sum ≤ costs.sum :=
      (List.take_sublist k costs).sum_le_sum fun _ _ => Nat.zero_le _
    have hsum : costs.sum ≤ order.sum := hcosts.sum_le_sum
    rw [hperm.sum_eq] at hsum
    omega

/-! ## The wallet -/

/-- What an engine sees of the wallet of a payment. -/
structure WalletView where
  /-- The positions on the netuid, each with the estimate for its sweep. -/
  positions : List (StakePosition × UInt64)
  alpha : UInt64
  free : UInt64
  nonce : UInt32
  price : UInt64
  existentialDeposit : UInt64

namespace Engine

/-- The smallest position worth sweeping, at a price. -/
def floorAt (E : Engine) (price : UInt64) : UInt64 :=
  max E.cfg.sweepDust
    (UInt64.ofNat (minStakeRao.toNat * 3 / 2 * raoPerTao.toNat / (max price 1).toNat))

end Engine

namespace WalletView

variable (v : WalletView) (E : Engine)

/-- The positions worth sweeping, with their estimates. -/
def sweepable : List (StakePosition × UInt64) :=
  v.positions.filter fun p => E.floorAt v.price ≤ p.1.alpha

/-- The estimates for the positions worth sweeping. -/
def estimates : List ℕ := (v.sweepable E).map fun p => p.2.toNat

/-- The sum of the estimates, saturated. -/
def fees : ℕ := min (v.estimates E).sum (2 ^ 64 - 1)

/-- What the wallet has to hold: the fees with their margin, rounded up, and the
existential deposit, saturated. -/
def required : ℕ :=
  min (v.fees E * (10000 + E.cfg.feeMarginBps.toNat) ⌈/⌉ 10000 + v.existentialDeposit.toNat)
    (2 ^ 64 - 1)

/-- There is something to sweep, and the wallet holds too little for it. -/
def Needs : Prop := v.sweepable E ≠ [] ∧ v.free.toNat < v.required E

instance : Decidable (v.Needs E) := inferInstanceAs (Decidable (_ ∧ _))

/-- The requests of `step_detected` before it decides, with what they answer. -/
def observed (r : PaymentRecord) (wallet : Keypair) : List (Event rpc) :=
  ⟨.chain (.alphaOn wallet r.netuid), .ok (v.alpha, v.positions.map Prod.fst)⟩ ::
    ⟨.chain (.account wallet), .ok (v.free, v.nonce)⟩ ::
      ⟨.chain (.alphaPrice r.netuid), .ok v.price⟩ ::
        ((v.sweepable E).map fun p =>
          ⟨.chain (.estimateFee (.transferStake E.treasury p.1.hotkey r.netuid p.1.alpha) wallet),
            .ok p.2⟩) ++
          [⟨.chain .existentialDeposit, .ok v.existentialDeposit⟩]

end WalletView

/-- The record after a look at the wallet. -/
def PaymentRecord.seeing (r : PaymentRecord) (alpha : UInt64) : PaymentRecord :=
  { r with detectedAlpha := max r.detectedAlpha alpha }

namespace Engine

/-- Go on to the sweeps without spending anything. -/
def proceed (r : PaymentRecord) : Prog Bool := do
  let _ ← Prog.update (r.moved .funded)
  return true

/-- With this view of the wallet `step_detected` sends the treasury's TAO exactly if
some position is worth sweeping and the wallet holds too little, and then just
what is missing, which covers the sweeps.  Otherwise it goes on to the sweeps. -/
def FundsExactly [Ss58] (E : Engine) (r : PaymentRecord) (wallet : Keypair) (v : WalletView) :
    Prop :=
  let seen := r.seeing v.alpha
  let missing := v.required E - v.free.toNat
  (E.stepDetected r).Leads (v.observed E r wallet)
      (if v.Needs E then send seen .fund (.transferTao wallet (UInt64.ofNat missing)) E.treasury
        else proceed seen) ∧
    (v.Needs E → Covers (v.free.toNat + missing) v.existentialDeposit.toNat (v.estimates E))

/-! ## What the step decides -/

section

variable {E : Engine} {r : PaymentRecord} {wallet : Keypair} {v : WalletView}

theorem estimateFees_leads (ps : List (StakePosition × UInt64)) (fees : UInt64) :
    (E.estimateFees r wallet (ps.map Prod.fst) fees).Leads
      (ps.map fun p =>
        ⟨.chain (.estimateFee (.transferStake E.treasury p.1.hotkey r.netuid p.1.alpha) wallet),
          .ok p.2⟩)
      (.done (.ok ((ps.map Prod.snd).foldl saturatingAdd fees))) := by
  induction ps generalizing fees with
  | nil => rfl
  | cons p ps ih => exact ⟨_, rfl, ih (saturatingAdd fees p.2)⟩

/-- What the program takes for the missing TAO. -/
def computedNeed (E : Engine) (v : WalletView) : UInt64 :=
  if (v.positions.map Prod.fst).isEmpty then 0
  else
    fundingNeeded (((v.sweepable E).map Prod.snd).foldl saturatingAdd 0) E.cfg.feeMarginBps
      v.existentialDeposit v.free

theorem proceed_eq (hstate : r.state = .detected) :
    (do let r ← r.transition .funded
        let _ ← Prog.update r
        return true) = proceed r := by
  have hmove : r.transition .funded = .ok (r.moved .funded) :=
    PaymentRecord.transition_ok.mpr ⟨⟨by rw [hstate]; rfl, .inl (by rw [hstate]; decide)⟩, rfl⟩
  rw [hmove]
  rfl

theorem stepDetected_leads [Ss58] (hstate : r.state = .detected)
    (hwallet : E.wallet r = .ok wallet) :
    (E.stepDetected r).Leads (v.observed E r wallet)
      (if E.computedNeed v = 0 then proceed (r.seeing v.alpha)
        else
          send (r.seeing v.alpha) .fund (.transferTao wallet (E.computedNeed v)) E.treasury) := by
  have hfilter : (v.positions.map Prod.fst).filter (fun p => E.floorAt v.price ≤ p.alpha) =
      (v.sweepable E).map Prod.fst := List.filter_map
  have hloop : (E.estimateFees (r.seeing v.alpha) wallet
      ((v.positions.map Prod.fst).filter fun p => E.floorAt v.price ≤ p.alpha) 0).Leads _ _ :=
    hfilter ▸ estimateFees_leads (v.sweepable E) 0
  unfold stepDetected
  rw [hwallet, ← proceed_eq (r := r.seeing v.alpha) hstate]
  refine ⟨_, rfl, _, rfl, _, rfl, (hloop.bind _).append (Program.leads_ask.mpr ?_)⟩
  rfl

/-! ## The amounts -/

theorem fees_eq :
    (((v.sweepable E).map Prod.snd).foldl saturatingAdd 0).toNat = v.fees E := by
  rw [toNat_foldl_saturatingAdd, List.map_map, UInt64.toNat_zero, Nat.zero_add]
  rfl

theorem computedNeed_toNat (hmargin : E.cfg.feeMarginBps.toNat ≤ 2 ^ 64 - 1 - 10000) :
    (E.computedNeed v).toNat = if v.positions = [] then 0 else v.required E - v.free.toNat := by
  unfold computedNeed
  rw [List.isEmpty_map]
  cases hpos : v.positions with
  | nil => rfl
  | cons p ps =>
      rw [List.isEmpty_cons, if_neg Bool.false_ne_true, if_neg (List.cons_ne_nil p ps),
        toNat_fundingNeeded _ _ _ hmargin, fees_eq]
      rfl

/-- The margin is on top of the fees. -/
theorem le_required :
    min ((v.estimates E).sum + v.existentialDeposit.toNat) (2 ^ 64 - 1) ≤ v.required E := by
  have hmargin : v.fees E ≤ v.fees E * (10000 + E.cfg.feeMarginBps.toNat) ⌈/⌉ 10000 := by
    rw [Nat.ceilDiv_eq_add_pred_div, Nat.le_div_iff_mul_le (by decide), Nat.mul_add]
    omega
  have hfees : min (v.estimates E).sum (2 ^ 64 - 1) ≤ v.fees E := le_refl _
  unfold WalletView.required
  omega

theorem required_le : v.required E ≤ 2 ^ 64 - 1 := Nat.min_le_right ..

/-- What is sent covers the sweeps if their true sum fits. -/
theorem covers_needs (h : v.Needs E) :
    Covers (v.free.toNat + (v.required E - v.free.toNat)) v.existentialDeposit.toNat
        (v.estimates E) ↔
      (v.estimates E).sum + v.existentialDeposit.toNat < 2 ^ 64 := by
  have hle := le_required (E := E) (v := v)
  have hmax := required_le (E := E) (v := v)
  have hfree := h.2
  rw [covers_iff]
  omega

/-- If nothing is worth sweeping, the deposit alone is required. -/
theorem required_of_nil (h : v.sweepable E = []) :
    v.required E = v.existentialDeposit.toNat := by
  have hfees : v.fees E = 0 := by
    rw [WalletView.fees, WalletView.estimates, h]
    rfl
  have := v.existentialDeposit.toNat_lt
  rw [WalletView.required, hfees, Nat.zero_mul, zero_ceilDiv]
  omega

/-! ## When funding is exact -/

theorem proceed_ne_send [Ss58] {action : Action} {call : ChainCall} {signer : Keypair} :
    send r action call signer ≠ proceed r := by
  unfold send sendJournaled
  split
  next => exact fun h => nomatch h
  next => exact fun h => nomatch h

/-- The program decides as it should unless all positions are too small to sweep
and the wallet is below the deposit. -/
theorem decides_iff [Ss58] (hstate : r.state = .detected) (hwallet : E.wallet r = .ok wallet)
    (hmargin : E.cfg.feeMarginBps.toNat ≤ 2 ^ 64 - 1 - 10000) :
    (E.stepDetected r).Leads (v.observed E r wallet)
        (if v.Needs E then
          send (r.seeing v.alpha) .fund
            (.transferTao wallet (UInt64.ofNat (v.required E - v.free.toNat))) E.treasury
        else proceed (r.seeing v.alpha)) ↔
      v.positions = [] ∨ v.sweepable E ≠ [] ∨ v.existentialDeposit.toNat ≤ v.free.toNat := by
  have hleads := stepDetected_leads (v := v) hstate hwallet
  have hneed := computedNeed_toNat (v := v) hmargin
  constructor
  · intro h
    by_contra hsmall
    obtain ⟨hpos, hnone, hlow⟩ : v.positions ≠ [] ∧ v.sweepable E = [] ∧
        v.free.toNat < v.existentialDeposit.toNat := by
      simpa only [not_or, not_not, not_le] using hsmall
    rw [if_neg hpos, required_of_nil hnone] at hneed
    have hsend : E.computedNeed v ≠ 0 := fun h0 => by
      rw [h0, UInt64.toNat_zero] at hneed
      omega
    have heq := hleads.unique h
    rw [if_neg hsend, if_neg fun hn => hn.1 hnone] at heq
    exact proceed_ne_send heq
  · intro h
    by_cases hn : v.Needs E
    · have hpos : v.positions ≠ [] := fun h0 => hn.1 (by rw [WalletView.sweepable, h0]; rfl)
      rw [if_neg hpos] at hneed
      have hsend : E.computedNeed v ≠ 0 := fun h0 => by
        have := hn.2
        rw [h0, UInt64.toNat_zero] at hneed
        omega
      rw [if_pos hn, ← hneed, UInt64.ofNat_toNat]
      rwa [if_neg hsend] at hleads
    · have hzero : (E.computedNeed v).toNat = 0 := by
        rw [hneed]
        split
        next => rfl
        next hpos =>
          by_cases hnone : v.sweepable E = []
          · rw [required_of_nil hnone]
            exact Nat.sub_eq_zero_of_le ((h.resolve_left hpos).resolve_left fun h => h hnone)
          · exact Nat.sub_eq_zero_of_le (Nat.le_of_not_lt fun hlt => hn ⟨hnone, hlt⟩)
      rw [if_neg hn]
      rwa [if_pos (UInt64.toNat_inj.mp hzero)] at hleads

/-- Funding is exact unless all positions of a wallet below the deposit are too small
to sweep, or the fees and the deposit together do not fit in a `u64`. -/
theorem fundsExactly_iff [Ss58] (hstate : r.state = .detected) (hwallet : E.wallet r = .ok wallet)
    (hmargin : E.cfg.feeMarginBps.toNat ≤ 2 ^ 64 - 1 - 10000) :
    E.FundsExactly r wallet v ↔
      (v.positions = [] ∨ v.sweepable E ≠ [] ∨ v.existentialDeposit.toNat ≤ v.free.toNat) ∧
        (v.sweepable E = [] ∨
          (v.estimates E).sum + v.existentialDeposit.toNat < 2 ^ 64 ∨
          v.free.toNat = 2 ^ 64 - 1) := by
  refine and_congr (decides_iff hstate hwallet hmargin) ?_
  have hle := le_required (E := E) (v := v)
  have hmax := required_le (E := E) (v := v)
  constructor
  · intro h
    by_cases hn : v.Needs E
    · exact .inr (.inl ((covers_needs hn).mp (h hn)))
    · by_cases hnone : v.sweepable E = []
      · exact .inl hnone
      · have hfree : v.required E ≤ v.free.toNat := Nat.le_of_not_lt fun hlt => hn ⟨hnone, hlt⟩
        have := v.free.toNat_lt
        right
        omega
  · intro h hn
    obtain hfit | hfull := h.resolve_left hn.1
    · exact (covers_needs hn).mpr hfit
    · have := hn.2
      omega

end

/-- A sweep job of the sample engine. -/
def sampleDetected : PaymentRecord :=
  (sampleEngine none).sweepRecord "job" "xxx" "path" none ⟨1, "", "", none⟩ 0

/-- An empty wallet with one position, whose sweep costs a fee. -/
def samplePosition (alpha : UInt64) : WalletView :=
  { positions := [(⟨7, 1, alpha⟩, 1000)], alpha := alpha, free := 0, nonce := 0
    price := 1000000000, existentialDeposit := 500 }

theorem samplePosition_funded :
    (sampleEngine none).FundsExactly sampleDetected 3 (samplePosition 10000000000) :=
  (fundsExactly_iff rfl rfl (by decide)).mpr (by decide)

/-- A wallet with a single alpha rao gets the existential deposit, though there is
nothing to sweep. -/
theorem singleRao_funded : ¬ (sampleEngine none).FundsExactly sampleDetected 3 (samplePosition 1) :=
  fun h => absurd ((decides_iff rfl rfl (by decide)).mp h.1) (by decide)

end Engine

end Buyback
