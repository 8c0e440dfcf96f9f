import Buyback.Run.Known
import Buyback.System.Script

/-!
# The books of a stored record

What soundness says about a stored record in the words of its fields: which
receipts it has and what they add up to, which extrinsic may be in flight, and
what a finished buyback and a settled job have behind them.
-/

namespace Buyback

open Resumption

namespace PaymentRecord

/-- The extrinsic in flight fits the state of the record. -/
def Admits (r : PaymentRecord) : Action → Prop
  | .fund => r.state = .detected
  | .sweep hotkey => r.state = .funded ∧ hotkey ∉ r.sweptPositions.map Prod.fst
  | .consolidate hotkey =>
      r.state = .swept ∧ ∃ h : r.consolidated < r.sweptPositions.length,
        (r.sweptPositions[r.consolidated]).1 = hotkey
  | .returnDust => r.state = .swept ∧ r.dustReturned = false
  | .buyStake .. => r.state = .swept ∧ r.buyback = none
  | .destroy .. => r.state = .swept ∧ ∃ b, r.buyback = some b ∧ b.destroyTx = none

/-- The receipts `ts` of a record, without that of a quarantined extrinsic, and the
fields they make. -/
structure Accounts (r : PaymentRecord) (ts : List TxRef) : Prop where
  clean : r.quarantined = none → r.txs = ts
  quarantined : ∀ q, r.quarantined = some q → ∃ blockHash, r.txs = ts ++ [q.receipt blockHash]
  fundedTao : r.fundedTao.toNat =
    ((named ts "transfer_keep_alive").map fun t => t.amount.toNat).sum
  funds : (named ts "transfer_keep_alive").length ≤ 1
  positions : (named ts "transfer_stake").map TxRef.amount = r.sweptPositions.map Prod.snd
  hotkeys : (r.sweptPositions.map Prod.fst).Nodup
  sweptAlpha : (r.sweptPositions.map fun p => p.2.toNat).sum < 2 ^ 64 →
    r.sweptAlpha.toNat = (r.sweptPositions.map fun p => p.2.toNat).sum
  moves : (named ts "move_stake").length ≤ r.consolidated
  consolidated : r.consolidated ≤ r.sweptPositions.length
  returns : (named ts "transfer_all").length ≤ 1
  purchases : (named ts "add_stake_limit").length ≤ 1
  destroys : (named ts "burn_alpha").length + (named ts "recycle_alpha").length ≤ 1
  pending : ∀ p, r.pending = some p → r.Admits p.action

variable [Ss58]

/-- What a buyback and a settled state promise. -/
structure Complete (r : PaymentRecord) : Prop where
  purchase : ∀ b, r.buyback = some b → ∃ budget, r.buybackBudget = some budget ∧
    b.taoSpent = budget.amountRao ∧ b.netuid = budget.netuid ∧ 0 < b.alphaBought ∧
    (b.destroyTx = none ∧ b.alphaDestroyed = 0 ∨
      b.destroyTx.isSome ∧ b.alphaDestroyed = b.alphaBought)
  done : r.autoRequired = some true → r.buybackDone = true → validateCompletedBuyback r = .ok ()
  idle : r.state = .settled → r.pending = none ∧ r.quarantined = none
  bought : r.state = .settled → r.autoRequired = some true → validateCompletedBuyback r = .ok ()
  consolidated : r.state = .settled → ∀ i, r.identity = some i → i.consolidate = true →
    r.consolidated = r.sweptPositions.length
  dust : r.state = .settled → ∀ i, r.identity = some i →
    (i.returnDust = true ∨ 0 < r.detectedTao) → r.dustReturned = true

variable {r : PaymentRecord}

/-- A receipt that pays its budget passes the check for completed buybacks. -/
theorem validate_of_pays {b : BuybackReceipt} {budget : BuybackBudget}
    (hvalid : budget.validate = .ok ()) (hbudget : r.buybackBudget = some budget)
    (hb : r.buyback = some b) (hpays : b.Pays budget)
    (hdone : budget.destroy = .keep ∨ b.destroyTx.isSome = true) :
    validateCompletedBuyback r = .ok () := by
  have hstake : b.stakeTx.blockHash.isEmpty = false := by
    simpa using hpays.finalized
  have hdestroyed : budget.destroy ≠ .keep → b.destroyed budget.destroy = true := by
    intro hkeep
    rcases hpays.destroyed with ⟨hnone, -⟩ | ⟨tx, htx, halpha, hhash, -, haction⟩
    · rcases hdone with h | h
      · exact absurd h hkeep
      · rw [hnone] at h
        cases h
    · simp [BuybackReceipt.destroyed, halpha, htx, hhash, haction]
  have hchecks : ¬ (b.taoSpent ≠ budget.amountRao ∨ b.netuid ≠ budget.netuid ∨
      b.alphaBought = 0 ∨ b.stakeTx.blockHash.isEmpty = true ∨
      (budget.destroy ≠ .keep ∧ b.destroyed budget.destroy = false)) := by
    rintro (h | h | h | h | ⟨hkeep, h⟩)
    · exact h hpays.taoSpent
    · exact h hpays.netuid
    · exact hpays.alphaBought h
    · rw [hstake] at h
      cases h
    · rw [hdestroyed hkeep] at h
      cases h
  simp only [validateCompletedBuyback, hbudget, hvalid, hb]
  exact if_neg hchecks

namespace Sound

theorem admits (hs : r.Sound) {p : PendingTx} (hp : r.pending = some p) : r.Admits p.action := by
  obtain ⟨hne, -, hfits⟩ := hs.journal p hp
  rw [stage_of_ne hne] at hfits
  generalize p.action = action at hfits ⊢
  generalize p.amount = amount at hfits
  generalize hstate : r.state = state at hfits
  cases hfits with
  | fund => exact hstate
  | sweep hnew => exact ⟨hstate, hnew⟩
  | consolidate hposition =>
      obtain ⟨hlt, heq⟩ := List.getElem?_eq_some_iff.mp hposition
      exact ⟨hstate, hlt, congrArg Prod.fst heq⟩
  | returnDust hdust => exact ⟨hstate, hdust⟩
  | buyStake _ hnone => exact ⟨hstate, hnone⟩
  | destroy _ _ hb hopen => exact ⟨hstate, _, hb, hopen⟩

theorem accounts (hs : r.Sound) : r.Accounts r.ledger.receipts := by
  have hb := hs.booked.balanced
  constructor
  case clean => exact fun hq => by simp [ledger, hq]
  case quarantined =>
    intro q hq
    obtain ⟨-, -, -, ts, blockHash, htxs⟩ := hs.quarantine q hq
    refine ⟨blockHash, ?_⟩
    simp [ledger, hq, htxs]
  case fundedTao => exact hb.fundedTao
  case funds => exact hb.funds
  case positions => exact hb.positions
  case hotkeys => exact hb.hotkeys
  case sweptAlpha => exact fun hlt => hb.sweptAlpha.trans (Nat.mod_eq_of_lt hlt)
  case moves => exact hb.moves
  case consolidated => exact hb.consolidated
  case returns => exact hb.returns.trans (Bool.toNat_le _)
  case purchases => exact hb.purchases.le.trans (Bool.toNat_le _)
  case destroys => exact hb.destroys.le.trans (Bool.toNat_le _)
  case pending => exact fun p hp => hs.admits hp

theorem validates (hs : r.Sound) (hdone : r.buybackDone = true) :
    validateCompletedBuyback r = .ok () := by
  obtain ⟨b, budget, hb, hbudget, hcomplete⟩ := hs.booked.done_buyback hdone
  obtain ⟨budget', hbudget', hpays⟩ := hs.booked.purchased b hb
  cases hbudget.symm.trans hbudget'
  exact validate_of_pays (hs.valid budget hbudget) hbudget hb hpays hcomplete

theorem complete (hs : r.Sound) : r.Complete := by
  constructor
  case purchase =>
    intro b hb
    obtain ⟨budget, hbudget, hpays⟩ := hs.booked.purchased b hb
    refine ⟨budget, hbudget, hpays.taoSpent, hpays.netuid, ?_, ?_⟩
    · exact UInt64.pos_iff_ne_zero.mpr hpays.alphaBought
    · refine hpays.destroyed.imp (fun h => h) ?_
      rintro ⟨tx, htx, halpha, -⟩
      exact ⟨by rw [htx]; rfl, halpha⟩
  case done => exact fun _ => hs.validates
  case idle =>
    intro hstate
    have hne : r.state ≠ .failed := by rw [hstate]; decide
    refine ⟨?_, hs.quarantined_of_ne hne⟩
    cases hp : r.pending with
    | none => rfl
    | some p =>
        rcases hs.working_of_pending hp with h | h | h <;> cases hstate.symm.trans h
  case bought =>
    intro hstate hauto
    refine hs.validates ((hs.settled hstate).bought ?_)
    exact Option.some.inj (hs.required.symm.trans hauto)
  case consolidated => exact fun hstate => (hs.settled hstate).consolidated
  case dust => exact fun hstate => (hs.settled hstate).dust

end Sound

end PaymentRecord

section

variable [Ss58] {set : Setting} {c : Resumption.Config (processes set)} {j : String}
  {r : PaymentRecord}

/-- Every stored record has balanced accounts. -/
theorem accounts_balanced (h : Resumption.Reachable (processes set) c)
    (hget : c.state.store.get j = some r) : ∃ ts, r.Accounts ts := by
  have hr : Runs set c.view := runs_view h
  exact ⟨_, (hr.known.sound j r hget).accounts⟩

/-- A buyback is the one the budget asks for, and a settled job is done. -/
theorem settled_complete (h : Resumption.Reachable (processes set) c)
    (hget : c.state.store.get j = some r) : r.Complete := by
  have hr : Runs set c.view := runs_view h
  exact (hr.known.sound j r hget).complete

end

/-! ## A job that settles -/

/-- The events of the burn. -/
def sampleBurned : Events :=
  [.ok ⟨pallet, "AlphaBurned", [.account 2, .account 1, .u64 500, .u16 1], ""⟩]

/-- A job with a budget buys, burns and settles. -/
def sampleSettled : List (Move (player calm)) :=
  sampleSwept ++ budgetTick 3 9 ++ finalize [("0x", sampleBought)] (some (2, 3999000)) ::
    serves 3 2 ++ budgetTick 4 6 ++ finalize [("0x'", sampleBurned)] none :: serves 4 2 ++
    budgetTick 5 5

theorem sampleSettled_burned : (playSample sampleSettled).any (fun c =>
    (c.state.store.get "job").any fun r => r.state == .settled && r.buybackDone &&
      r.txs.map TxRef.action == ["add_stake_limit", "burn_alpha"]) = true := by
  decide +kernel

theorem sampleSettled_accounts : ∃ (c : Resumption.Config (processes calm)) (r : PaymentRecord),
    c.state.store.get "job" = some r ∧ r.txs.map TxRef.action = ["add_stake_limit", "burn_alpha"] ∧
      ∃ ts, r.Accounts ts := by
  obtain ⟨c, hc, htest⟩ := playSample_any sampleSettled_burned
  simp only [Option.any_eq_true, Bool.and_eq_true, beq_iff_eq] at htest
  obtain ⟨r, hget, -, htxs⟩ := htest
  exact ⟨c, r, hget, htxs, accounts_balanced hc hget⟩

theorem sampleSettled_complete : ∃ (c : Resumption.Config (processes calm)) (r : PaymentRecord),
    c.state.store.get "job" = some r ∧ r.state = .settled ∧ r.buybackDone = true ∧
      r.Complete := by
  obtain ⟨c, hc, htest⟩ := playSample_any sampleSettled_burned
  simp only [Option.any_eq_true, Bool.and_eq_true, beq_iff_eq] at htest
  obtain ⟨r, hget, ⟨hstate, hdone⟩, -⟩ := htest
  exact ⟨c, r, hget, hstate, hdone, settled_complete hc hget⟩

end Buyback
