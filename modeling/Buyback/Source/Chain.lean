import Buyback.Source.Keys

/-!
# Calls, events and extrinsics

The types of `chain.rs` the engine passes around, with the functions on them
that do no RPC: the name, expected event and amount of a call, the summary of
the events of one extrinsic, and what `broadcast` makes of a finalized
extrinsic.  `Action` is the engine's, and `TxRef` is `state.rs`'s; they stand
here because a journaled extrinsic and a receipt hold them.
-/

namespace Buyback

/-! ## Calls and actions -/

/-- One stake position of a coldkey. -/
structure StakePosition where
  hotkey : AccountId32
  netuid : UInt16
  alpha : UInt64
deriving DecidableEq, Repr

/-- The pallet of the staking calls and events. -/
def pallet : String := "SubtensorModule"

/-- Every extrinsic this crate sends. -/
inductive ChainCall where
  | transferTao (dest : AccountId32) (amount : UInt64)
  | transferAll (dest : AccountId32)
  | transferStake (destColdkey hotkey : AccountId32) (netuid : UInt16) (alpha : UInt64)
  | moveStake (fromHotkey toHotkey : AccountId32) (netuid : UInt16) (alpha : UInt64)
  | addStakeLimit (hotkey : AccountId32) (netuid : UInt16) (tao limitPrice : UInt64)
      (allowPartial : Bool)
  | associateHotkey (hotkey : AccountId32)
  | burnAlpha (hotkey : AccountId32) (netuid : UInt16) (alpha : UInt64)
  | recycleAlpha (hotkey : AccountId32) (netuid : UInt16) (alpha : UInt64)
deriving DecidableEq, Repr

namespace ChainCall

/-- The name of the extrinsic. -/
def name : ChainCall → String
  | .transferTao .. => "transfer_keep_alive"
  | .transferAll .. => "transfer_all"
  | .transferStake .. => "transfer_stake"
  | .moveStake .. => "move_stake"
  | .addStakeLimit .. => "add_stake_limit"
  | .burnAlpha .. => "burn_alpha"
  | .recycleAlpha .. => "recycle_alpha"
  | .associateHotkey .. => "try_associate_hotkey"

/-- The event a successful extrinsic emits. -/
def expectedEvent : ChainCall → String × String
  | .transferTao .. | .transferAll .. => ("Balances", "Transfer")
  | .transferStake .. => (pallet, "StakeTransferred")
  | .moveStake .. => (pallet, "StakeMoved")
  | .addStakeLimit .. => (pallet, "StakeAdded")
  | .burnAlpha .. => (pallet, "AlphaBurned")
  | .recycleAlpha .. => (pallet, "AlphaRecycled")
  | .associateHotkey .. => ("System", "ExtrinsicSuccess")

/-- Amount moved by the call, rao. -/
def amount : ChainCall → UInt64
  | .transferTao _ amount => amount
  | .transferStake _ _ _ alpha | .moveStake _ _ _ alpha | .burnAlpha _ _ alpha
  | .recycleAlpha _ _ alpha => alpha
  | .addStakeLimit _ _ tao _ _ => tao
  | .transferAll _ | .associateHotkey _ => 0

end ChainCall

/-- Why a journaled extrinsic was sent. -/
inductive Action where
  /-- Treasury to payment wallet, fee TAO. -/
  | fund
  /-- Payment wallet to treasury coldkey, the position on `hotkey`. -/
  | sweep (hotkey : String)
  /-- Treasury `move_stake` from `hotkey` to the treasury hotkey. -/
  | consolidate (hotkey : String)
  /-- Payment wallet `transfer_all` back to the treasury. -/
  | returnDust
  /-- Treasury `add_stake_limit`. -/
  | buyStake (netuid : UInt16) (limitPrice : UInt64)
  /-- Treasury `burn_alpha` or `recycle_alpha`. -/
  | destroy (netuid : UInt16) (recycle : Bool)
deriving DecidableEq, Repr

/-- The extrinsic name of an action. -/
def actionName : Action → String
  | .fund => "transfer_keep_alive"
  | .sweep _ => "transfer_stake"
  | .consolidate _ => "move_stake"
  | .returnDust => "transfer_all"
  | .buyStake .. => "add_stake_limit"
  | .destroy _ true => "recycle_alpha"
  | .destroy _ false => "burn_alpha"

/-! ## Events -/

/-- A decoded field of an event. -/
inductive FieldValue where
  | account (a : AccountId32)
  | u16 (n : UInt16)
  | u64 (n : UInt64)
deriving DecidableEq, Repr

/-- An event of a finalized extrinsic.  `fieldError` is what the decoder reports
when the fields are not the ones asked for. -/
structure RuntimeEvent where
  palletName : String
  eventName : String
  fields : List FieldValue
  fieldError : String
deriving DecidableEq, Repr

/-- Numbers extracted from the events of one extrinsic. -/
structure EventSummary where
  /-- `(pallet, event)` names, in order. -/
  names : List (String × String) := []
  /-- `System.ExtrinsicFailed` seen. -/
  failed : Bool := false
  /-- `StakeAdded`: TAO in and alpha out. -/
  stakeAdded : Option (UInt64 × UInt64) := none
  /-- `AlphaBurned` or `AlphaRecycled` amount. -/
  alphaDestroyed : Option UInt64 := none
  /-- `StakeTransferred` or `StakeMoved` amount. -/
  stakeMovedTao : Option UInt64 := none
  /-- `Balances.Transfer` amount. -/
  transferred : Option UInt64 := none
deriving DecidableEq, Repr

namespace EventSummary

/-- Whether an event of this name was seen. -/
def has (s : EventSummary) (palletName eventName : String) : Bool :=
  s.names.any fun x => x.1 == palletName && x.2 == eventName

/-- The numbers one event adds to a summary. -/
def readFields (s : EventSummary) (ev : RuntimeEvent) : Result EventSummary :=
  let bad : Result EventSummary := .error (.chain ev.fieldError)
  if ev.palletName = "System" ∧ ev.eventName = "ExtrinsicFailed" then .ok { s with failed := true }
  else if ev.palletName = pallet ∧ ev.eventName = "StakeAdded" then
    match ev.fields with
    | [.account _, .account _, .u64 tao, .u64 alpha, .u16 _, .u64 _] =>
        .ok { s with stakeAdded := some (tao, alpha) }
    | _ => bad
  else if ev.palletName = pallet ∧
      (ev.eventName = "AlphaBurned" ∨ ev.eventName = "AlphaRecycled") then
    match ev.fields with
    | [.account _, .account _, .u64 amount, .u16 _] => .ok { s with alphaDestroyed := some amount }
    | _ => bad
  else if ev.palletName = pallet ∧ ev.eventName = "StakeTransferred" then
    match ev.fields with
    | [.account _, .account _, .account _, .u16 _, .u16 _, .u64 f] =>
        .ok { s with stakeMovedTao := some f }
    | _ => bad
  else if ev.palletName = pallet ∧ ev.eventName = "StakeMoved" then
    match ev.fields with
    | [.account _, .account _, .u16 _, .account _, .u16 _, .u64 f] =>
        .ok { s with stakeMovedTao := some f }
    | _ => bad
  else if ev.palletName = "Balances" ∧ ev.eventName = "Transfer" then
    match ev.fields with
    | [.account _, .account _, .u64 amount] =>
        .ok { s with transferred := some (s.transferred.getD 0 + amount) }
    | _ => bad
  else .ok s

/-- The loop of `from_events`, from the summary made so far. -/
def addEvents (s : EventSummary) : List (Except String RuntimeEvent) → Result EventSummary
  | [] => .ok s
  | .error e :: _ => .error (.chain e)
  | .ok ev :: evs =>
      match s.readFields ev with
      | .error e => .error e
      | .ok s => addEvents { s with names := s.names ++ [(ev.palletName, ev.eventName)] } evs

/-- The summary of the events of one extrinsic. -/
def fromEvents (evs : List (Except String RuntimeEvent)) : Result EventSummary := addEvents {} evs

end EventSummary

/-! ## Extrinsics -/

/-- Receipt of one finalized extrinsic. -/
structure TxRef where
  action : String
  txHash : String
  blockHash : String
  amount : UInt64
deriving DecidableEq, Repr

/-- A finalized, successful extrinsic. -/
structure FinalizedTx where
  tx : TxRef
  summary : EventSummary
deriving DecidableEq, Repr

/-- Extrinsic journaled before broadcast. -/
structure PendingTx where
  /-- What the transaction does; decides how its result is applied. -/
  action : Action
  /-- Exclusive signer reservation; absent in legacy journals. -/
  reservation : Option String
  signer : String
  nonce : UInt64
  txHash : String
  /-- Finalized block number the transaction was built at. -/
  birthBlock : UInt64
  amount : UInt64
deriving DecidableEq, Repr

/-- The receipt reconciliation makes for a journaled extrinsic. -/
def PendingTx.receipt (p : PendingTx) (blockHash : String) : TxRef :=
  { action := actionName p.action, txHash := p.txHash, blockHash := blockHash, amount := p.amount }

/-- A signed, not yet broadcast extrinsic.  The signed bytes are its hash. -/
structure PreparedTx where
  call : ChainCall
  signer : String
  nonce : UInt64
  txHash : String
  birthBlock : UInt64
deriving DecidableEq, Repr

/-- Mortality, in blocks, of every extrinsic. -/
def mortality : UInt64 := 64

/-- Outcome of looking for a journaled extrinsic on chain. -/
inductive PendingOutcome where
  /-- Still possibly in flight. -/
  | wait
  /-- Can never be included any more. -/
  | dead
  /-- Included in a finalized block. -/
  | included (blockHash : String) (summary : EventSummary)
deriving DecidableEq, Repr

/-- What `broadcast` returns for an extrinsic that finalized with success in the
block `blockHash` with the events `evs`. -/
def PreparedTx.finalized (p : PreparedTx) (blockHash : String)
    (evs : List (Except String RuntimeEvent)) : Result FinalizedTx :=
  match EventSummary.fromEvents evs with
  | .error e => .error e
  | .ok summary =>
      let res : FinalizedTx :=
        { tx := { action := p.call.name, txHash := p.txHash, blockHash := blockHash
                  amount := p.call.amount }
          summary := summary }
      if res.summary.has p.call.expectedEvent.1 p.call.expectedEvent.2 then .ok res
      else .error (.eventMissing p.call.expectedEvent.2)

/-- A broadcast returns the receipt of its call and the summary of its events, in
which the expected event occurs. -/
theorem PreparedTx.finalized_ok {p : PreparedTx} {blockHash : String}
    {evs : List (Except String RuntimeEvent)} {fin : FinalizedTx}
    (h : p.finalized blockHash evs = .ok fin) :
    EventSummary.fromEvents evs = .ok fin.summary ∧
      fin.tx = ⟨p.call.name, p.txHash, blockHash, p.call.amount⟩ ∧
      fin.summary.has p.call.expectedEvent.1 p.call.expectedEvent.2 = true := by
  unfold PreparedTx.finalized at h
  split at h
  next => cases h
  next summary hs =>
    simp only at h
    split at h
    next hhas => cases h; exact ⟨hs, rfl, hhas⟩
    next => cases h

end Buyback
