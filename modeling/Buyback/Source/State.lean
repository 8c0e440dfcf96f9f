import Buyback.Source.Chain
import Buyback.Source.Units

/-!
# Payment records

The persisted record of `state.rs`, its transition check and its failure
bookkeeping, with the budget and the buyback receipt it holds.  `Destroy` is of
`config.rs`.
-/

namespace Buyback

/-- What to do with alpha bought by a buyback. -/
inductive Destroy where
  | keep
  | burn
  | recycle
deriving DecidableEq, Repr

/-- Result of a buyback. -/
structure BuybackReceipt where
  netuid : UInt16
  taoSpent : UInt64
  alphaBought : UInt64
  limitPrice : UInt64
  stakeTx : TxRef
  destroyTx : Option TxRef
  alphaDestroyed : UInt64
deriving DecidableEq, Repr

/-- Treasury capital set aside for one job, fixed when the job is created. -/
structure BuybackBudget where
  amountRao : UInt64
  currency : String
  source : String
  netuid : UInt16
  destroy : Destroy
  hotkey : String
deriving DecidableEq, Repr

/-- Smallest stake the chain accepts. -/
def minStakeRao : UInt64 := 2000000

/-- Check a budget. -/
def BuybackBudget.validate [Ss58] (b : BuybackBudget) : Result Unit :=
  match parseSs58 b.hotkey with
  | .error e => .error e
  | .ok _ =>
      if (b.netuid = 0 ∧ b.destroy ≠ .keep) ∨ b.amountRao < minStakeRao ∨ b.currency ≠ "TAO" ∨
          (trim b.source).isEmpty ∨ 128 < b.source.utf8ByteSize then
        .error (.config "explicit TAO buyback budget/source required")
      else .ok ()

/-- Check the budget of a job, if it has one. -/
def validateBudget [Ss58] : Option BuybackBudget → Result Unit
  | some b => b.validate
  | none => .ok ()

/-- Immutable execution identity; absent on legacy records. -/
structure JobIdentity where
  genesisHash : String
  treasury : String
  treasuryHotkey : String
  consolidate : Bool
  returnDust : Bool
deriving DecidableEq, Repr

/-- Full persisted record. -/
structure PaymentRecord where
  id : String
  address : String
  netuid : UInt16
  minAlpha : UInt64
  minTao : Option UInt64
  createdAt : UInt64
  expiresAt : UInt64
  state : PaymentState
  /-- Bumped on every write. -/
  version : UInt64
  sealedSecret : SealedSecret
  /-- The JSON text of the client's own data. -/
  metadata : Option String
  callbackUrl : Option String
  detectedAlpha : UInt64
  detectedTao : UInt64
  fundedTao : UInt64
  sweptAlpha : UInt64
  txs : List TxRef
  buyback : Option BuybackReceipt
  buybackBudget : Option BuybackBudget
  /-- `none` identifies legacy jobs. -/
  autoRequired : Option Bool
  identity : Option JobIdentity
  attempts : UInt32
  nextAttemptAt : UInt64
  lastError : Option String
  failedFrom : Option PaymentState
  /-- Extrinsic journaled before broadcast. -/
  pending : Option PendingTx
  /-- Finalized intent with unexpected events. -/
  quarantined : Option PendingTx
  /-- `(hotkey, alpha)` positions moved to the treasury coldkey. -/
  sweptPositions : List (String × UInt64)
  /-- How many of `sweptPositions` were moved onto the treasury hotkey. -/
  consolidated : Nat
  dustReturned : Bool
  buybackDone : Bool
  notified : Bool
  updatedAt : UInt64
  derivationPath : Option String
deriving DecidableEq, Repr

/-- Public view of a payment. -/
structure PaymentStatus where
  id : String
  address : String
  netuid : UInt16
  minAlpha : UInt64
  minTao : Option UInt64
  createdAt : UInt64
  expiresAt : UInt64
  state : PaymentState
  detectedAlpha : UInt64
  detectedTao : UInt64
  fundedTao : UInt64
  sweptAlpha : UInt64
  txs : List TxRef
  buyback : Option BuybackReceipt
  lastError : Option String
  metadata : Option String
deriving DecidableEq, Repr

/-- What a client gets back for a new payment. -/
structure PaymentRequest where
  id : String
  address : String
  netuid : UInt16
  minAlpha : UInt64
  minTao : Option UInt64
  expiresAt : UInt64
deriving DecidableEq, Repr

namespace PaymentRecord

/-- A failed record may only resume the step it failed in. -/
def ResumeOk (r : PaymentRecord) (target : PaymentState) : Prop :=
  r.state ≠ .failed ∨ r.failedFrom = some target ∨
    (r.failedFrom = some .pending ∧ target = .detected)

instance (r : PaymentRecord) (target : PaymentState) : Decidable (r.ResumeOk target) :=
  inferInstanceAs (Decidable (_ ∨ _ ∨ _))

/-- The record in the state `target`. -/
def moved (r : PaymentRecord) (target : PaymentState) : PaymentRecord :=
  { r with
    failedFrom := if target = .failed then some r.state else r.failedFrom
    state := target
    attempts := 0
    nextAttemptAt := 0
    lastError := if target = .failed then r.lastError else none }

/-- Move to `target`, checking the transition table. -/
def transition (r : PaymentRecord) (target : PaymentState) : Result PaymentRecord :=
  if r.state.canTransition target = true ∧ r.ResumeOk target then .ok (r.moved target)
  else .error (.invalidTransition r.state target)

theorem transition_ok {r r' : PaymentRecord} {target : PaymentState} :
    r.transition target = .ok r' ↔
      (r.state.canTransition target = true ∧ r.ResumeOk target) ∧ r' = r.moved target := by
  unfold transition
  split
  next h => simp [h, eq_comm]
  next h => simp [h]

/-- Record a failed attempt; after `maxAttempts` the record goes to `failed`. -/
def recordFailure (r : PaymentRecord) (err : String) (maxAttempts : UInt32) (now : UInt64) :
    PaymentRecord :=
  let attempts := r.attempts + 1
  let r := { r with
    attempts := attempts
    lastError := some (String.ofList (err.toList.take 500))
    nextAttemptAt := now + min (5 <<< (min attempts 7).toUInt64) 600 }
  if maxAttempts ≤ attempts ∧ r.state.canTransition .failed = true then
    { r with failedFrom := some r.state, state := .failed }
  else r

/-- The public view of a record. -/
def status (r : PaymentRecord) : PaymentStatus :=
  { id := r.id, address := r.address, netuid := r.netuid, minAlpha := r.minAlpha
    minTao := r.minTao, createdAt := r.createdAt, expiresAt := r.expiresAt, state := r.state
    detectedAlpha := r.detectedAlpha, detectedTao := r.detectedTao, fundedTao := r.fundedTao
    sweptAlpha := r.sweptAlpha, txs := r.txs, buyback := r.buyback, lastError := r.lastError
    metadata := r.metadata }

/-- The record a store writes for `r` at time `now`: the next version. -/
def stamped (r : PaymentRecord) (now : UInt64) : PaymentRecord :=
  { r with version := r.version + 1, updatedAt := now }

end PaymentRecord

end Buyback
