import Buyback.Process.Guarantee
import Buyback.Store.Transactions
import Buyback.Record.Ledger

/-!
# Sound records

The invariant of every record the engine stores.  It has four parts: the policy
fixed at creation, the stage with its failure bookkeeping, the ledger, and the
extrinsic that is in flight or quarantined.  `Fits` says which extrinsics may be
in flight at which stage and ledger.

The stage of a failed record is the state it failed in, so that a failure and a
resumption keep the stage.
-/

namespace Buyback

/-- The order in which a record passes through its states. -/
def PaymentState.rank : PaymentState → ℕ
  | .pending | .failed => 0
  | .expired => 1
  | .detected => 2
  | .funded => 3
  | .swept => 4
  | .settled => 5

theorem PaymentState.Working.two_le_rank {s : PaymentState} (h : s.Working) : 2 ≤ s.rank := by
  rcases h with rfl | rfl | rfl <;> decide

theorem PaymentState.Working.ne_failed {s : PaymentState} (h : s.Working) : s ≠ .failed := by
  rcases h with rfl | rfl | rfl <;> decide

theorem PaymentState.Working.canFail {s : PaymentState} (h : s.Working) :
    s.canTransition .failed = true := by
  rcases h with rfl | rfl | rfl <;> rfl

theorem PaymentState.working_of_rank {s : PaymentState} (h : 2 ≤ s.rank)
    (hf : s.canTransition .failed = true) : s.Working := by
  cases s <;> simp_all [rank, canTransition, Working]

/-- The purchase of a job is the one its budget asks for. -/
structure BuybackReceipt.Pays (b : BuybackReceipt) (budget : BuybackBudget) : Prop where
  taoSpent : b.taoSpent = budget.amountRao
  netuid : b.netuid = budget.netuid
  alphaBought : b.alphaBought ≠ 0
  finalized : b.stakeTx.blockHash ≠ ""
  destroyed : b.destroyTx = none ∧ b.alphaDestroyed = 0 ∨
    ∃ tx, b.destroyTx = some tx ∧ b.alphaDestroyed = b.alphaBought ∧ tx.blockHash ≠ "" ∧
      budget.destroy ≠ .keep ∧
      tx.action = if budget.destroy = .burn then "burn_alpha" else "recycle_alpha"

variable [Ss58]

/-- The extrinsics that may be in flight at a stage with a ledger and a budget, by
action and journaled amount. -/
inductive Fits (l : Ledger) (budget : Option BuybackBudget) :
    PaymentState → Action → UInt64 → Prop where
  | fund {amount : UInt64} : Fits l budget .detected .fund amount
  | sweep {hotkey : AccountId32} {amount : UInt64} :
      ss58 hotkey ∉ l.sweptPositions.map Prod.fst →
      Fits l budget .funded (.sweep (ss58 hotkey)) amount
  | consolidate {position : String × UInt64} {amount : UInt64} :
      l.sweptPositions[l.consolidated]? = some position →
      Fits l budget .swept (.consolidate position.1) amount
  | returnDust {amount : UInt64} :
      l.dustReturned = false →
      Fits l budget .swept .returnDust amount
  | buyStake {b : BuybackBudget} {limitPrice : UInt64} :
      budget = some b →
      l.buyback = none →
      Fits l budget .swept (.buyStake b.netuid limitPrice) b.amountRao
  | destroy {b : BuybackBudget} {receipt : BuybackReceipt} :
      budget = some b →
      b.destroy ≠ .keep →
      l.buyback = some receipt →
      receipt.destroyTx = none →
      Fits l budget .swept (.destroy b.netuid (b.destroy == .recycle)) receipt.alphaBought

theorem Fits.working {l : Ledger} {budget : Option BuybackBudget} {stage : PaymentState}
    {action : Action} {amount : UInt64} (h : Fits l budget stage action amount) :
    stage.Working := by
  cases h with
  | fund => exact .inl rfl
  | sweep _ => exact .inr (.inl rfl)
  | consolidate _ => exact .inr (.inr rfl)
  | returnDust _ => exact .inr (.inr rfl)
  | buyStake _ _ => exact .inr (.inr rfl)
  | destroy _ _ _ _ => exact .inr (.inr rfl)

theorem Fits.cast {l : Ledger} {budget : Option BuybackBudget} {stage stage' : PaymentState}
    {action : Action} {amount : UInt64} (h : Fits l budget stage action amount)
    (heq : stage' = stage) : Fits l budget stage' action amount := heq ▸ h

/-- The ledger is balanced, and nothing is done before its stage. -/
structure Booked (l : Ledger) (stage : PaymentState) (budget : Option BuybackBudget)
    (done : Bool) : Prop where
  balanced : l.Balanced
  addresses : ∀ p ∈ l.sweptPositions, ∃ a, p.1 = ss58 a
  unfunded : stage.rank ≤ 2 → l.receipts = [] ∧ l.sweptPositions = []
  unswept : stage.rank ≤ 3 →
    l.consolidated = 0 ∧ l.dustReturned = false ∧ l.buyback = none ∧ done = false
  purchased : ∀ b, l.buyback = some b → ∃ budget', budget = some budget' ∧ b.Pays budget'
  done_buyback : done = true → ∃ b budget', l.buyback = some b ∧ budget = some budget' ∧
    (budget'.destroy = .keep ∨ b.destroyTx.isSome = true)

theorem Booked.mono {l : Ledger} {stage stage' : PaymentState} {budget : Option BuybackBudget}
    {done : Bool} (h : Booked l stage budget done) (hle : stage.rank ≤ stage'.rank) :
    Booked l stage' budget done :=
  { h with
    unfunded := fun hr => h.unfunded (hle.trans hr)
    unswept := fun hr => h.unswept (hle.trans hr) }

theorem Booked.cast {l : Ledger} {stage stage' : PaymentState} {budget : Option BuybackBudget}
    {done : Bool} (h : Booked l stage budget done) (heq : stage' = stage) :
    Booked l stage' budget done := heq ▸ h

theorem Booked.congr {l l' : Ledger} {stage : PaymentState} {budget : Option BuybackBudget}
    {done : Bool} (h : Booked l stage budget done) (heq : l' = l) :
    Booked l' stage budget done := heq ▸ h

namespace PaymentRecord

/-- What a settled record has behind it. -/
structure Finished (r : PaymentRecord) : Prop where
  bought : r.buybackBudget.isSome → r.buybackDone = true
  consolidated : ∀ i, r.identity = some i → i.consolidate = true →
    r.consolidated = r.sweptPositions.length
  dust : ∀ i, r.identity = some i → (i.returnDust = true ∨ 0 < r.detectedTao) →
    r.dustReturned = true

/-- The invariant of a stored record. -/
structure Sound (r : PaymentRecord) : Prop where
  required : r.autoRequired = some r.buybackBudget.isSome
  valid : ∀ b, r.buybackBudget = some b → b.validate = .ok ()
  identified : r.identity ≠ none
  failed : r.state = .failed → ∃ s, r.failedFrom = some s ∧ s.Working
  resumed : r.state ≠ .failed → ∀ s, r.failedFrom = some s → s.Working ∧ s.rank ≤ r.state.rank
  attempts : r.state.Working → r.attempts.toNat + 1 < 2 ^ 32
  booked : Booked r.ledger r.stage r.buybackBudget r.buybackDone
  journal : ∀ p, r.pending = some p →
    r.state ≠ .failed ∧ r.quarantined = none ∧
      Fits r.ledger r.buybackBudget r.stage p.action p.amount
  quarantine : ∀ q, r.quarantined = some q →
    r.state = .failed ∧ q.action ≠ .fund ∧
      Fits r.ledger r.buybackBudget r.stage q.action q.amount ∧
      ∃ ts blockHash, r.txs = ts ++ [q.receipt blockHash]
  settled : r.state = .settled → r.Finished

end PaymentRecord

end Buyback
