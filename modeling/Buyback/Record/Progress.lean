import Buyback.Record.Preserved

/-!
# Progress

`Progress old new` says that `new` keeps everything `old` has done: the stage, the
receipts, the positions, the counters and flags, the purchase and a quarantine.
It is a preorder, every write over a sound record makes progress, and so does
every migration of a legacy record.

`swept_alpha` is not part of it, since its sum wraps.
-/

namespace Buyback

open Resumption

/-- A purchase keeps what was paid, bought and destroyed. -/
structure BuybackReceipt.Keeps (b b' : BuybackReceipt) : Prop where
  stakeTx : b'.stakeTx = b.stakeTx
  taoSpent : b'.taoSpent = b.taoSpent
  alphaBought : b'.alphaBought = b.alphaBought
  destroyTx : ∀ tx, b.destroyTx = some tx → b'.destroyTx = some tx

namespace PaymentRecord

variable {r new old : PaymentRecord} {p : PendingTx} {E : Engine} {e : Entry} {h : History rpc}

/-- What the payer was asked for. -/
def request (r : PaymentRecord) : PaymentRequest :=
  { id := r.id, address := r.address, netuid := r.netuid, minAlpha := r.minAlpha
    minTao := r.minTao, expiresAt := r.expiresAt }

/-- Nothing that was done is undone. -/
structure Progress (old new : PaymentRecord) : Prop where
  request : new.request = old.request
  rank : old.stage.rank ≤ new.stage.rank
  txs : old.txs <+: new.txs
  positions : old.sweptPositions <+: new.sweptPositions
  fundedTao : old.fundedTao ≤ new.fundedTao
  consolidated : old.consolidated ≤ new.consolidated
  dust : old.dustReturned = true → new.dustReturned = true
  done : old.buybackDone = true → new.buybackDone = true
  notified : old.notified = true → new.notified = true
  purchase : ∀ b, old.buyback = some b → ∃ b', new.buyback = some b' ∧ b.Keeps b'
  quarantined : ∀ q, old.quarantined = some q → new.quarantined = some q

namespace Progress

theorem refl (r : PaymentRecord) : r.Progress r where
  request := rfl
  rank := le_rfl
  txs := List.prefix_rfl
  positions := List.prefix_rfl
  fundedTao := UInt64.le_refl _
  consolidated := le_rfl
  dust := fun h => h
  done := fun h => h
  notified := fun h => h
  purchase b hb := ⟨b, hb, rfl, rfl, rfl, fun _ h => h⟩
  quarantined _ h := h

theorem trans {a b c : PaymentRecord} (h₁ : a.Progress b) (h₂ : b.Progress c) :
    a.Progress c where
  request := h₂.request.trans h₁.request
  rank := h₁.rank.trans h₂.rank
  txs := h₁.txs.trans h₂.txs
  positions := h₁.positions.trans h₂.positions
  fundedTao := UInt64.le_trans h₁.fundedTao h₂.fundedTao
  consolidated := h₁.consolidated.trans h₂.consolidated
  dust := h₂.dust ∘ h₁.dust
  done := h₂.done ∘ h₁.done
  notified := h₂.notified ∘ h₁.notified
  purchase b hb := by
    obtain ⟨b₁, hb₁, k₁⟩ := h₁.purchase b hb
    obtain ⟨b₂, hb₂, k₂⟩ := h₂.purchase b₁ hb₁
    exact ⟨b₂, hb₂, k₂.stakeTx.trans k₁.stakeTx, k₂.taoSpent.trans k₁.taoSpent,
      k₂.alphaBought.trans k₁.alphaBought, fun tx h => k₂.destroyTx tx (k₁.destroyTx tx h)⟩
  quarantined q h := h₂.quarantined q (h₁.quarantined q h)

theorem stamped (r : PaymentRecord) (t : UInt64) : r.Progress (r.stamped t) :=
  { refl r with rank := le_rfl }

theorem recordFailure {text : String} {maxAttempts : UInt32} {now : UInt64} :
    r.Progress (r.recordFailure text maxAttempts now) := by
  have hstage : (r.recordFailure text maxAttempts now).stage = r.stage := recordFailure_stage
  obtain ⟨lastError, nextAttemptAt, ⟨-, heq⟩ | ⟨-, heq⟩⟩ :=
    r.recordFailure_cases text maxAttempts now
  all_goals
    rw [heq] at hstage ⊢
    exact { refl r with rank := (congrArg PaymentState.rank hstage).ge }

theorem dropped : r.Progress { r with pending := none } := { refl r with rank := le_rfl }

variable [Ss58]

theorem quarantine (hs : r.Sound) (hp : r.pending = some p) (blockHash : String) (err : Error)
    (now : UInt64) : r.Progress (r.quarantine p blockHash err now) := by
  obtain ⟨hne, hq, -⟩ := hs.journal p hp
  obtain ⟨lastError, nextAttemptAt, heq⟩ := hs.quarantine_eq hp blockHash err now
  rw [heq]
  exact
    { refl r with
      rank := (congrArg PaymentState.rank (stage_of_ne hne)).le
      txs := List.prefix_append _ _
      quarantined := fun q h => by
        rw [hq] at h
        cases h }

theorem applied (hs : r.Sound) (hp : r.pending = some p) {tx : TxRef} {s : EventSummary}
    (ha : Applies r tx s p.action new) : r.Progress new := by
  obtain ⟨hne, -, hfits⟩ := hs.journal p hp
  have hstage := stage_of_ne hne
  generalize p.action = action at ha hfits
  generalize p.amount = amount at hfits
  cases ha with
  | fund _ _ =>
      have hzero : r.fundedTao.toNat = 0 := by
        have hempty : r.ledger.receipts = [] := by
          refine (hs.booked.unfunded ?_).1
          generalize r.stage = stage at hfits
          cases hfits
          decide
        have := hs.booked.balanced.fundedTao
        rw [hempty] at this
        exact this
      exact
        { refl r with
          rank := by
            generalize r.stage = stage at hfits
            cases hfits
            exact Nat.le_succ 2
          txs := List.prefix_append _ _
          fundedTao := by
            rw [UInt64.le_iff_toNat_le, hzero]
            exact Nat.zero_le _ }
  | sweep _ =>
      exact
        { refl r with
          txs := List.prefix_append _ _
          positions := List.prefix_append _ _ }
  | consolidate =>
      exact
        { refl r with
          txs := List.prefix_append _ _
          consolidated := Nat.le_succ _ }
  | returnDust =>
      exact
        { refl r with
          txs := List.prefix_append _ _
          dust := fun _ => rfl }
  | buyStake _ _ =>
      exact
        { refl r with
          txs := List.prefix_append _ _
          purchase := fun b hb => by
            generalize r.stage = stage at hfits
            cases hfits with
            | buyStake _ hnone =>
                rw [show r.buyback = none from hnone] at hb
                cases hb }
  | destroy _ hbuyback _ =>
      exact
        { refl r with
          txs := List.prefix_append _ _
          done := fun _ => rfl
          purchase := fun b hb => by
            cases hbuyback.symm.trans hb
            refine ⟨_, rfl, rfl, rfl, rfl, fun tx' h => ?_⟩
            generalize r.stage = stage at hfits
            cases hfits with
            | destroy _ _ hsome hopen =>
                cases hbuyback.symm.trans hsome
                rw [hopen] at h
                cases h }

theorem tick (hs : r.Sound) (hw : E.Writes h r new) : r.Progress new := by
  have hstage {s : PaymentState} (hstate : r.state = s) (hne : s ≠ .failed) : r.stage = s :=
    (stage_of_ne (hstate ▸ hne)).trans hstate
  cases hw with
  | detected _ hstate _ _ =>
      exact { refl r with rank := (hstage hstate (by decide)).symm ▸ Nat.zero_le _ }
  | expired _ hstate =>
      exact { refl r with rank := (hstage hstate (by decide)).symm ▸ Nat.zero_le _ }
  | funded _ hstate =>
      exact { refl r with rank := (hstage hstate (by decide)).symm ▸ Nat.le_succ 2 }
  | swept _ hstate =>
      exact { refl r with rank := (hstage hstate (by decide)).symm ▸ Nat.le_succ 3 }
  | consolidated _ _ _ _ => exact { refl r with consolidated := Nat.le_succ _ }
  | bought _ _ hdust _ _ => exact { refl r with dust := hdust.keeps, done := fun _ => rfl }
  | settled _ hstate _ hdust _ =>
      exact
        { refl r with
          rank := (stage_of_swept hstate).symm ▸ Nat.le_succ 4
          dust := hdust.keeps }
  | applied hp _ _ _ happly => exact applied hs hp (apply_ok happly hp)
  | dead _ _ => exact dropped
  | failedOnChain _ _ _ => exact dropped.trans recordFailure
  | quarantined hp _ _ _ => exact quarantine hs hp _ _ _
  | attempted _ _ _ _ => exact recordFailure
  | notified _ => exact { refl r with notified := fun _ => rfl }
  | postponed _ => exact { refl r with rank := le_rfl }

/-- Every write over a sound record makes progress. -/
theorem writes (hs : r.Sound) (hw : e.Writes h r new) : r.Progress new := by
  cases hw with
  | tick _ hw => exact tick hs hw
  | journal _ hb _ _ =>
      cases hb with
      | buyStake _ _ hdust _ _ _ _ _ _ _ => exact { refl r with dust := hdust.keeps }
      | destroy _ _ hdust _ _ _ _ _ _ _ _ => exact { refl r with dust := hdust.keeps }
      | _ => exact { refl r with rank := le_rfl }
  | retry _ _ _ hcan _ =>
      rcases hs.retry_cases hcan with ⟨_, ht, hw⟩ | ⟨hunpaid, ht⟩
      · exact
          { refl r with
            rank := by rw [ht, stage_moved hw.ne_failed] }
      · exact
          { refl r with
            rank := by
              rw [ht]
              exact (hs.pending_of_unpaid hunpaid).2.2.trans (Nat.le_succ 1) }
  | forceSweep _ _ hcan hresume =>
      have hrank : r.stage.rank ≤ PaymentState.detected.rank := by
        rcases hs.forceSweep_cases hcan hresume with hunpaid | ⟨_, hstage⟩
        · exact (hs.pending_of_unpaid hunpaid).2.2.trans (Nat.le_succ 1)
        · exact (congrArg PaymentState.rank hstage).le
      exact { refl r with rank := hrank }

end Progress

end PaymentRecord

/-- A migration, or a recovery, of any legacy record makes progress. -/
theorem SqliteStore.Migrates.progress {s s' : SqliteStore} {id : String}
    {old next : PaymentRecord} (hm : Migrates s id old next s') : old.Progress next := by
  rw [hm.next_eq]
  exact { PaymentRecord.Progress.refl old with rank := le_rfl }

end Buyback
