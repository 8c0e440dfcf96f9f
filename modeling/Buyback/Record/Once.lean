import Buyback.Record.Progress

/-!
# What a job does once

Actions of one key are the ones a job does at most once: the funding, each hotkey's
sweep and consolidation, the return of dust, the purchase and its destruction.
`Did` reads off a record what was done.  It is never undone, a finalized
extrinsic does its action, and what was done does not fit again.

`Flight` is what a write does to the extrinsic in flight and to the receipts.
-/

namespace Buyback

open Resumption

/-- The actions a job does at most once. -/
inductive Action.Key where
  | fund
  | sweep (hotkey : String)
  | consolidate (hotkey : String)
  | returnDust
  | buyStake
  | destroy
deriving DecidableEq, Repr

/-- What an action counts as. -/
def Action.key : Action → Action.Key
  | .fund => .fund
  | .sweep hotkey => .sweep hotkey
  | .consolidate hotkey => .consolidate hotkey
  | .returnDust => .returnDust
  | .buyStake .. => .buyStake
  | .destroy .. => .destroy

namespace PaymentRecord

variable {r new : PaymentRecord} {p : PendingTx} {E : Engine} {e : Entry} {h : History rpc}

/-- The record says that it is done. -/
def Did (r : PaymentRecord) : Action.Key → Prop
  | .fund => 3 ≤ r.stage.rank
  | .sweep hotkey => hotkey ∈ r.sweptPositions.map Prod.fst
  | .consolidate hotkey =>
      ∃ i < r.consolidated, ∃ alpha, r.sweptPositions[i]? = some (hotkey, alpha)
  | .returnDust => r.dustReturned = true
  | .buyStake => ∃ b, r.buyback = some b
  | .destroy => ∃ b tx, r.buyback = some b ∧ b.destroyTx = some tx

/-- What was done stays done. -/
theorem Did.mono {k : Action.Key} (hd : r.Did k) (hp : r.Progress new) : new.Did k := by
  cases k with
  | fund => exact Nat.le_trans hd hp.rank
  | sweep hotkey => exact (hp.positions.map Prod.fst).subset hd
  | consolidate hotkey =>
      obtain ⟨i, hi, alpha, hget⟩ := hd
      obtain ⟨rest, hrest⟩ := hp.positions
      refine ⟨i, Nat.lt_of_lt_of_le hi hp.consolidated, alpha, ?_⟩
      rw [← hrest, List.getElem?_append_left (List.getElem?_eq_some_iff.mp hget).1, hget]
  | returnDust => exact hp.dust hd
  | buyStake =>
      obtain ⟨b, hb⟩ := hd
      obtain ⟨b', hb', -⟩ := hp.purchase b hb
      exact ⟨b', hb'⟩
  | destroy =>
      obtain ⟨b, tx, hb, htx⟩ := hd
      obtain ⟨b', hb', hk⟩ := hp.purchase b hb
      exact ⟨b', tx, hb', hk.destroyTx tx htx⟩

theorem Applies.txs {tx : TxRef} {s : EventSummary} {action : Action}
    (ha : Applies r tx s action new) : new.pending = none ∧ new.txs = r.txs ++ [tx] := by
  cases ha <;> exact ⟨rfl, rfl⟩

variable [Ss58]

/-- What was done does not fit again. -/
theorem Did.not_fits {action : Action} {amount : UInt64} (hs : r.Sound)
    (hd : r.Did action.key) : ¬ Fits r.ledger r.buybackBudget r.stage action amount := by
  intro hfits
  unfold Did at hd
  generalize hstage : r.stage = stage at hfits
  cases hfits with
  | fund =>
      simp only [Action.key, hstage] at hd
      exact absurd hd (by decide)
  | sweep hnew => exact hnew hd
  | @consolidate position _ hget =>
      obtain ⟨i, hi, alpha, hi'⟩ := hd
      have hnodup := hs.booked.balanced.hotkeys
      have hfst : (r.sweptPositions.map Prod.fst)[i]? =
          (r.sweptPositions.map Prod.fst)[r.consolidated]? := by
        have hget : r.sweptPositions[r.consolidated]? = some position := hget
        rw [List.getElem?_map, List.getElem?_map, hi', hget]
        rfl
      have hlt : i < (r.sweptPositions.map Prod.fst).length := by
        rw [List.length_map]
        exact (List.getElem?_eq_some_iff.mp hi').1
      exact absurd ((List.getElem?_inj hlt hnodup).mp hfst) (Nat.ne_of_lt hi)
  | returnDust hnone =>
      rw [show r.dustReturned = false from hnone] at hd
      cases hd
  | buyStake _ hnone =>
      obtain ⟨b, hb⟩ := hd
      rw [show r.buyback = none from hnone] at hb
      cases hb
  | destroy _ _ hsome hopen =>
      obtain ⟨b, tx, hb, htx⟩ := hd
      cases hb.symm.trans hsome
      rw [hopen] at htx
      cases htx

/-- A finalized extrinsic does its action. -/
theorem Applies.did {tx : TxRef} {s : EventSummary} (hs : r.Sound) (hp : r.pending = some p)
    (ha : Applies r tx s p.action new) : new.Did p.action.key := by
  obtain ⟨-, -, hfits⟩ := hs.journal p hp
  generalize p.action = action at ha hfits
  generalize p.amount = amount at hfits
  cases ha with
  | fund _ _ => exact Nat.le_refl 3
  | sweep _ => exact List.mem_map.mpr ⟨_, List.mem_append_right _ (.head _), rfl⟩
  | consolidate =>
      generalize r.stage = stage at hfits
      cases hfits with
      | @consolidate position _ hget => exact ⟨r.consolidated, Nat.lt_succ_self _, position.2, hget⟩
  | returnDust => exact rfl
  | buyStake _ _ => exact ⟨_, rfl⟩
  | destroy _ _ _ => exact ⟨_, _, rfl, rfl⟩

/-! ## The extrinsic in flight -/

/-- What a write does to the extrinsic in flight and to the receipts: nothing, or it
journals one, or it books the one in flight, or it drops it. -/
inductive Flight (h : History rpc) (r new : PaymentRecord) : Prop where
  | none :
      r.pending = none →
      new.pending = none →
      new.txs = r.txs →
      Flight h r new
  | issued {call : ChainCall} {signer : Keypair} {tx : PreparedTx} {token : String}
      {r' : PaymentRecord} {rest : History rpc} {action : Action} :
      h = ⟨.chain (.prepare call signer), .ok tx⟩ ::
        ⟨.store (.reserveSignerForRecord (ss58 signer) r'), .ok token⟩ :: rest →
      r'.id = r.id →
      tx.signer = ss58 signer →
      r.pending = none →
      r.quarantined = none →
      new.pending = some (tx.journal action call token) →
      new.txs = r.txs →
      Flight h r new
  | booked {p : PendingTx} {blockHash : String} {s : EventSummary} :
      r.pending = some p →
      Landed h p blockHash s →
      s.failed = false →
      new.pending = none →
      new.txs = r.txs ++ [p.receipt blockHash] →
      new.quarantined = some p ∨ new.Did p.action.key →
      Flight h r new
  | dropped {p : PendingTx} :
      r.pending = some p →
      ⟨.chain (.findPending p), .ok .dead⟩ ∈ h ∨
        (∃ blockHash s, Landed h p blockHash s ∧ s.failed = true) →
      new.pending = none →
      new.txs = r.txs →
      Flight h r new

namespace Sound

/-- A record that waits for nothing on chain has nothing in flight. -/
theorem pending_of_settled (hs : r.Sound) (h : r.state = .settled) : r.pending = Option.none := by
  cases hp : r.pending with
  | none => rfl
  | some p =>
      have hw := hs.working_of_pending hp
      rw [h] at hw
      rcases hw with hw | hw | hw <;> cases hw

theorem flight_tick (hs : r.Sound) (hw : E.Writes h r new) : Flight h r new := by
  cases hw with
  | detected hd _ _ _ => exact .none hd.pending hd.pending rfl
  | expired hd _ => exact .none hd.pending hd.pending rfl
  | funded hd _ => exact .none hd.pending hd.pending rfl
  | swept hd _ => exact .none hd.pending hd.pending rfl
  | consolidated hd _ _ _ => exact .none hd.pending hd.pending rfl
  | bought hd _ _ _ _ => exact .none hd.pending hd.pending rfl
  | settled hd _ _ _ _ => exact .none hd.pending hd.pending rfl
  | applied hp hl _ hok happly =>
      have ha := apply_ok happly hp
      exact .booked hp hl hok ha.txs.1 ha.txs.2 (.inr (ha.did hs hp))
  | dead hp hdead => exact .dropped hp (.inl hdead) rfl rfl
  | @failedOnChain p blockHash s t hp hl hfailed =>
      have hrec := { r with pending := Option.none }.recordFailure_cases
        "journaled transaction failed on finalized chain" E.cfg.maxAttempts t
      obtain ⟨lastError, nextAttemptAt, ⟨-, heq⟩ | ⟨-, heq⟩⟩ := hrec
      all_goals
        unfold PaymentRecord.failedOnChain
        rw [heq]
        exact .dropped hp (.inr ⟨blockHash, s, hl, hfailed⟩) rfl rfl
  | quarantined hp hl hok _ =>
      obtain ⟨lastError, nextAttemptAt, heq⟩ := hs.quarantine_eq hp _ _ _
      rw [heq]
      exact .booked hp hl hok rfl rfl (.inl rfl)
  | @attempted _ text t hp _ _ _ =>
      obtain ⟨lastError, nextAttemptAt, ⟨-, heq⟩ | ⟨-, heq⟩⟩ :=
        r.recordFailure_cases text E.cfg.maxAttempts t
      all_goals
        rw [heq]
        exact .none hp hp rfl
  | notified hstate =>
      have hp := hs.pending_of_settled hstate
      exact .none hp hp rfl
  | postponed hstate =>
      have hp := hs.pending_of_settled hstate
      exact .none hp hp rfl

/-- What a write over a sound record does to the extrinsic in flight. -/
theorem flight (hs : r.Sound) (hw : e.Writes h r new) : Flight h r new := by
  cases hw with
  | tick _ hw => exact hs.flight_tick hw
  | journal hd hb _ hsigner =>
      refine .issued rfl ?_ hsigner hd.pending hd.quarantined rfl ?_
      · cases hb <;> rfl
      · cases hb <;> rfl
  | retry _ _ _ hcan _ =>
      have hp : r.pending = Option.none := by
        rcases hs.retry_cases hcan with ⟨hf, -⟩ | ⟨hunpaid, -⟩
        · exact hs.pending_of_failed hf
        · exact (hs.pending_of_unpaid hunpaid).1
      exact .none hp hp rfl
  | forceSweep _ _ hcan hresume =>
      have hp : r.pending = Option.none := by
        rcases hs.forceSweep_cases hcan hresume with hunpaid | ⟨hf, -⟩
        · exact (hs.pending_of_unpaid hunpaid).1
        · exact hs.pending_of_failed hf
      exact .none hp hp rfl

end Sound

end PaymentRecord

end Buyback
