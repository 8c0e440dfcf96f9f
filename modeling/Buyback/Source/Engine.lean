import Buyback.Source.Requests

/-!
# The engine

`engine.rs` with the part of `config.rs` it reads.  Each `async fn` that does I/O
is a program over the requests of the engine; `apply` and the checks are
functions.  A method that takes `&mut PaymentRecord` takes the record and goes on
with the changed one.

The treasury lock is left out, since it only removes interleavings of one process
and every result here is about all of them.  Log lines and the in-process event
channel are left out too.
-/

namespace Buyback

open Resumption

/-! ## Configuration -/

/-- How much TAO an automatic buyback spends. -/
inductive AutoAmount where
  | all
  | fixed (rao : UInt64)
  | paymentValueBps (bps : UInt64)
deriving DecidableEq, Repr

/-- Automatic buyback after each settled payment. -/
inductive AutoBuyback where
  | off
  | on (destroy : Destroy) (amount : AutoAmount)
deriving DecidableEq, Repr

/-- `matches!(auto, AutoBuyback::On { .. })`. -/
def AutoBuyback.isOn : AutoBuyback → Bool
  | .off => false
  | .on .. => true

/-- The fields of the configuration the engine reads. -/
structure Config where
  netuid : UInt16
  minAlpha : UInt64
  minTao : Option UInt64
  expirySecs : UInt64
  treasuryHotkey : AccountId32
  sweepDust : UInt64
  consolidate : Bool
  returnDust : Bool
  feeMarginBps : UInt64
  feeReserve : UInt64
  slippageBps : UInt64
  auto : AutoBuyback
  buybackBudget : Option BuybackBudget
  maxAttempts : UInt32
  webhookUrl : Option String

/-- Options of `create_payment`. -/
structure CreatePayment where
  minAlpha : Option UInt64 := none
  expirySecs : Option UInt64 := none
  metadata : Option String := none
  callbackUrl : Option String := none

/-- An engine, without its connections to the chain and the store. -/
structure Engine where
  cfg : Config
  treasury : Keypair
  genesisHash : String
  /-- The wallet at a derivation path. -/
  seed : Option (String → Result Keypair)
  /-- The wallet of a sealed secret, opened with its associated data. -/
  unsealWith : SealedSecret → String → Result Keypair
  /-- Whether a webhook secret is set. -/
  webhook : Bool

/-! ## Functions without I/O -/

/-- `destroy_call`. -/
def destroyCall (destroy : Destroy) (hotkey : AccountId32) (netuid : UInt16) (alpha : UInt64) :
    ChainCall :=
  match destroy with
  | .recycle => .recycleAlpha hotkey netuid alpha
  | _ => .burnAlpha hotkey netuid alpha

@[simp] theorem destroyCall_amount {destroy : Destroy} {hotkey : AccountId32} {netuid : UInt16}
    {alpha : UInt64} : (destroyCall destroy hotkey netuid alpha).amount = alpha := by
  cases destroy <;> rfl

theorem destroyCall_name {destroy : Destroy} {hotkey : AccountId32} {netuid : UInt16}
    {alpha : UInt64} (h : destroy ≠ .keep) :
    (destroyCall destroy hotkey netuid alpha).name =
      actionName (.destroy netuid (destroy == .recycle)) := by
  cases destroy with
  | keep => exact absurd rfl h
  | burn => rfl
  | recycle => rfl

/-- `strict_buyback_amount`. -/
def strictBuybackAmount (requested spendable : UInt64) : Result UInt64 :=
  if requested < minStakeRao then
    .error (.insufficient "buyback budget below minimum; blocked, not skipped")
  else if spendable < requested then
    .error (.insufficient "full buyback budget unavailable; no partial spend")
  else .ok requested

theorem strictBuybackAmount_ok {requested spendable tao : UInt64}
    (h : strictBuybackAmount requested spendable = .ok tao) : tao = requested := by
  unfold strictBuybackAmount at h
  split_ifs at h
  cases h
  rfl

/-- The receipt of the destroyed alpha is complete and of the right call. -/
def BuybackReceipt.destroyed (receipt : BuybackReceipt) (destroy : Destroy) : Bool :=
  receipt.alphaDestroyed == receipt.alphaBought &&
    receipt.destroyTx.any fun tx =>
      !tx.blockHash.isEmpty &&
        tx.action == (if destroy = .burn then "burn_alpha" else "recycle_alpha")

/-- `validate_completed_buyback`. -/
def validateCompletedBuyback [Ss58] (r : PaymentRecord) : Result Unit :=
  match r.buybackBudget with
  | none => .error (.store "missing job budget")
  | some budget => do
      budget.validate
      match r.buyback with
      | none => .error (.store "missing purchase receipt")
      | some receipt =>
          if receipt.taoSpent ≠ budget.amountRao ∨ receipt.netuid ≠ budget.netuid ∨
              receipt.alphaBought = 0 ∨ receipt.stakeTx.blockHash.isEmpty = true ∨
              (budget.destroy ≠ .keep ∧ receipt.destroyed budget.destroy = false) then
            .error (.store "incomplete job buyback receipt")
          else pure ()

namespace PaymentRecord

/-- Where `retry` sends a record. -/
def retryTarget (r : PaymentRecord) : PaymentState :=
  match r.failedFrom with
  | some .pending | none => .detected
  | some s => s

/-- The end of `apply`: the attempt succeeded and its receipt is kept. -/
def receive (r : PaymentRecord) (tx : TxRef) : PaymentRecord :=
  { r with attempts := 0, nextAttemptAt := 0, lastError := none, txs := r.txs ++ [tx] }

/-- The `match` of `apply` on the action taken out of the journal. -/
def applyAction (r : PaymentRecord) (tx : TxRef) (s : EventSummary) :
    Action → Result PaymentRecord
  | .fund => { r with fundedTao := r.fundedTao + tx.amount }.transition .funded
  | .sweep hotkey =>
      if s.has pallet "StakeTransferred" = false then .error (.eventMissing "StakeTransferred")
      else
        .ok { r with
          sweptAlpha := r.sweptAlpha + tx.amount
          sweptPositions := r.sweptPositions ++ [(hotkey, tx.amount)] }
  | .consolidate _ => .ok { r with consolidated := r.consolidated + 1 }
  | .returnDust => .ok { r with dustReturned := true }
  | .buyStake netuid limitPrice =>
      match s.stakeAdded with
      | none => .error (.eventMissing "StakeAdded")
      | some (tao, alpha) =>
          if tao ≠ tx.amount ∨ alpha = 0 then
            .error (.store "purchase does not match full requested budget")
          else
            .ok { r with
              buyback := some
                { netuid := netuid, taoSpent := tao, alphaBought := alpha, limitPrice := limitPrice
                  stakeTx := tx, destroyTx := none, alphaDestroyed := 0 } }
  | .destroy .. =>
      match s.alphaDestroyed with
      | none => .error (.eventMissing "AlphaBurned/AlphaRecycled")
      | some destroyed =>
          match r.buyback with
          | none => .error (.store "burn without purchase receipt")
          | some b =>
              if destroyed ≠ b.alphaBought ∨ destroyed = 0 then
                .error (.store "burn amount does not match purchased alpha")
              else
                .ok { r with
                  buyback := some { b with destroyTx := some tx, alphaDestroyed := destroyed }
                  buybackDone := true }

/-- `Engine::apply`: the record after its journaled extrinsic finalized. -/
def apply (r : PaymentRecord) (tx : TxRef) (s : EventSummary) : Result PaymentRecord :=
  match r.pending with
  | none => .error (.store "apply without pending")
  | some p =>
      match { r with pending := none }.applyAction tx s p.action with
      | .error e => .error e
      | .ok r => .ok (r.receive tx)

/-- The record `reconcile_journaled` stores when `apply` fails. -/
def quarantine (r : PaymentRecord) (p : PendingTx) (blockHash : String) (e : Error)
    (now : UInt64) : PaymentRecord :=
  { r with
    pending := none
    quarantined := some p
    txs := r.txs ++ [p.receipt blockHash] }.recordFailure
    ("finalized receipt mismatch: " ++ e.display) 1 now

/-- The record `reconcile_journaled` stores when the extrinsic failed on chain. -/
def failedOnChain (r : PaymentRecord) (maxAttempts : UInt32) (now : UInt64) : PaymentRecord :=
  { r with pending := none }.recordFailure "journaled transaction failed on finalized chain"
    maxAttempts now

end PaymentRecord

/-- Alpha of `r.netuid` the batch read found for `who`. -/
def Positions.alphaOf (positions : Positions) (who : AccountId32) (netuid : UInt16) : UInt64 :=
  ((positions.lookup who).map fun v =>
    ((v.filter fun p => p.netuid == netuid).map StakePosition.alpha).foldl (· + ·) 0).getD 0

/-! ## Journaled sending -/

/-- The journal of a prepared extrinsic. -/
def PreparedTx.journal (prepared : PreparedTx) (action : Action) (call : ChainCall)
    (reservation : String) : PendingTx :=
  { action := action, reservation := some reservation, signer := prepared.signer
    nonce := prepared.nonce, txHash := prepared.txHash, birthBlock := prepared.birthBlock
    amount := call.amount }

section

variable [Ss58]

/-- Submit a journaled extrinsic, wait for it and apply it. -/
def deliver (r : PaymentRecord) (prepared : PreparedTx) : Prog Bool := do
  let finalized ← Prog.broadcast prepared
  let applied ← r.apply finalized.tx finalized.summary
  let _ ← Prog.update applied
  return true

/-- `send_journaled`. -/
def sendJournaled (r : PaymentRecord) (action : Action) (call : ChainCall) (signer : Keypair) :
    Prog Bool := do
  if r.pending.isSome then
    throw (.store "reconcile pending transaction before preparing another")
  else
    let signerAddress := ss58 signer
    let reservation ← Prog.store (.reserveSignerForRecord signerAddress r)
    -- preparation never broadcasts, so its failure may be undone
    match ← (Prog.chain (.prepare call signer)).attempt with
    | .error e => do
        Prog.store (.cancelPreparation signerAddress r.id reservation)
        throw e
    | .ok prepared =>
        if prepared.signer ≠ signerAddress then do
          Prog.store (.cancelPreparation signerAddress r.id reservation)
          throw (.store "prepared signer mismatch")
        else do
          let journal := { r with pending := some (prepared.journal action call reservation) }
          let r ← Prog.update journal
          deliver r prepared

/-- The record `reconcile_journaled` stores for an extrinsic found on chain. -/
def PaymentRecord.reconciled (r : PaymentRecord) (pending : PendingTx) (blockHash : String)
    (summary : EventSummary) (maxAttempts : UInt32) : Prog PaymentRecord :=
  if summary.failed = true then do
    let t ← Prog.now
    return r.failedOnChain maxAttempts t
  else
    match r.apply (pending.receipt blockHash) summary with
    | .ok applied => return applied
    | .error e => do
        let t ← Prog.now
        return r.quarantine pending blockHash e t

/-- `reconcile_journaled`. -/
def reconcileJournaled (r : PaymentRecord) (pending : PendingTx) (maxAttempts : UInt32) :
    Prog (PaymentRecord × Bool) := do
  if r.pending ≠ some pending then throw (.store "pending journal mismatch")
  else
    match ← Prog.chain (.findPending pending) with
    | .wait => return (r, false)
    | .dead => do
        let r ← Prog.update { r with pending := none }
        return (r, true)
    | .included blockHash summary => do
        let applied ← r.reconciled pending blockHash summary maxAttempts
        let r ← Prog.update applied
        return (r, true)

end

namespace Engine

variable [Ss58] (E : Engine)

/-- `job_identity`. -/
def jobIdentity : JobIdentity :=
  { genesisHash := E.genesisHash, treasury := ss58 E.treasury
    treasuryHotkey := ss58 E.cfg.treasuryHotkey, consolidate := E.cfg.consolidate
    returnDust := E.cfg.returnDust }

/-- `wallet`: open the wallet of a record. -/
def wallet (r : PaymentRecord) : Result Keypair := do
  let w ← match r.derivationPath, E.seed with
    | some path, some seed => seed path
    | _, _ => E.unsealWith r.sealedSecret (walletAad r.id r.address)
  if ss58 w ≠ r.address then .error (.crypto "sealed wallet does not match address") else .ok w

/-! ## Creating jobs -/

/-- The record both constructors start from. -/
def newRecord (id address : String) (sealed : SealedSecret) (t : UInt64) : PaymentRecord :=
  { id := id, address := address, netuid := E.cfg.netuid, minAlpha := 0, minTao := none
    createdAt := t, expiresAt := 0, state := .pending, version := 0, sealedSecret := sealed
    metadata := none, callbackUrl := none, detectedAlpha := 0, detectedTao := 0, fundedTao := 0
    sweptAlpha := 0, txs := [], buyback := none, buybackBudget := E.cfg.buybackBudget
    autoRequired := some E.cfg.buybackBudget.isSome, identity := some E.jobIdentity, attempts := 0
    nextAttemptAt := 0, lastError := none, failedFrom := none, pending := none
    quarantined := none, sweptPositions := [], consolidated := 0, dustReturned := false
    buybackDone := false, notified := false, updatedAt := t, derivationPath := none }

/-- The record of `create_payment`. -/
def paymentRecord (opts : CreatePayment) (id address : String) (sealed : SealedSecret)
    (t : UInt64) : PaymentRecord :=
  { E.newRecord id address sealed t with
    minAlpha := opts.minAlpha.getD E.cfg.minAlpha
    minTao := E.cfg.minTao
    expiresAt := t + opts.expirySecs.getD E.cfg.expirySecs
    metadata := opts.metadata
    callbackUrl := opts.callbackUrl <|> E.cfg.webhookUrl }

/-- The record of `create_sweep_job`. -/
def sweepRecord (id address path : String) (metadata : Option String) (sealed : SealedSecret)
    (t : UInt64) : PaymentRecord :=
  { E.newRecord id address sealed t with
    expiresAt := UInt64.ofNat (2 ^ 64 - 1)
    state := .detected
    metadata := metadata
    derivationPath := some path }

/-- The checks both constructors end with, and the insertion. -/
def insertJob (rec : PaymentRecord) : Prog Unit := do
  if E.cfg.auto.isOn = true ∧ rec.buybackBudget.isNone then
    throw (.config "explicit job buyback budget required")
  else
    validateBudget rec.buybackBudget
    Prog.store (.insert rec)

/-- `create_payment`. -/
def createPayment (opts : CreatePayment) : Prog PaymentRequest := do
  Prog.store .requireSigning
  let wallet ← Prog.generateWallet
  let id ← Prog.newId
  let address := ss58 wallet
  let sealed ← Prog.sealWith wallet (walletAad id address)
  let t ← Prog.now
  let r := E.paymentRecord opts id address sealed t
  E.insertJob r
  return { id := id, address := address, netuid := r.netuid, minAlpha := r.minAlpha
           minTao := r.minTao, expiresAt := r.expiresAt }

/-- `create_sweep_job`. -/
def createSweepJob (id path expectedAddress : String) (metadata : Option String) :
    Prog PaymentStatus := do
  Prog.store .requireSigning
  match E.seed with
  | none => throw (.config "sweep jobs need a derivation seed")
  | some seed => do
      let wallet ← seed path
      let address := ss58 wallet
      if address ≠ expectedAddress then
        throw (.crypto "derived address does not match the expected one")
      else do
        let sealed ← Prog.sealWith wallet (walletAad id address)
        let t ← Prog.now
        let r := E.sweepRecord id address path metadata sealed t
        E.insertJob r
        return r.status

end Engine

/-- `retry`: resume a failed payment from the step it failed in. -/
def retry (id : String) : Prog PaymentStatus := do
  match ← Prog.store (.get id) with
  | none => throw (.notFound id)
  | some r =>
      if r.quarantined.isSome then
        throw (.store "finalized receipt mismatch requires explicit repair")
      else do
        let r ← r.transition r.retryTarget
        let r ← Prog.update r
        return r.status

/-- `force_sweep`: sweep an expired payment that received less than the minimum. -/
def forceSweep (id : String) : Prog PaymentStatus := do
  match ← Prog.store (.get id) with
  | none => throw (.notFound id)
  | some r => do
      let r ← r.transition .detected
      let r ← Prog.update r
      return r.status

namespace Engine

variable [Ss58] (E : Engine)

/-! ## The steps of a payment -/

/-- `send`: journal, submit, wait for finalization, apply. -/
def send (r : PaymentRecord) (action : Action) (call : ChainCall) (signer : Keypair) : Prog Bool :=
  sendJournaled r action call signer

/-- `notify`. -/
def notify (r : PaymentRecord) : Prog Unit := do
  let delivered ← (match r.callbackUrl, E.webhook with
    | some url, true => (Prog.post url r.status).attempt
    | _, _ => pure (.ok ()) : Prog (Result Unit))
  match delivered with
  | .error _ => do
      let t ← Prog.now
      let _ ← Prog.update { r with nextAttemptAt := t + 30 }
  | .ok () => do
      let _ ← Prog.update { r with notified := true }

/-- `step_pending`. -/
def stepPending (r : PaymentRecord) (positions : Positions) : Prog Bool := do
  let who ← parseSs58 r.address
  let alpha := positions.alphaOf who r.netuid
  let tao ← (if r.minTao.isSome then Prog.chain (.freeBalance who) else pure 0)
  let taoOk := r.minTao.any fun m => m ≤ tao
  if r.minAlpha ≤ alpha ∨ taoOk = true then do
    let r := { r with detectedAlpha := alpha, detectedTao := if taoOk then tao else 0 }
    let r ← r.transition .detected
    let _ ← Prog.update r
    return true
  else do
    let t ← Prog.now
    if r.expiresAt < t then do
      let r ← { r with detectedAlpha := alpha }.transition .expired
      let _ ← Prog.update r
      return true
    else return false

/-- `sweep_floor`: the smallest position worth sweeping. -/
def sweepFloor (netuid : UInt16) : Prog UInt64 := do
  let price ← Prog.chain (.alphaPrice netuid)
  -- `as u64` keeps the low bits
  let minAlpha := UInt64.ofNat
    (minStakeRao.toNat * 3 / 2 * raoPerTao.toNat / (max price 1).toNat)
  return max E.cfg.sweepDust minAlpha

/-- The loop of `step_detected` that adds up the fees of the transfers. -/
def estimateFees (r : PaymentRecord) (wallet : Keypair) :
    List StakePosition → UInt64 → Prog UInt64
  | [], fees => pure fees
  | p :: ps, fees => do
      let call := ChainCall.transferStake E.treasury p.hotkey r.netuid p.alpha
      let fee ← Prog.chain (.estimateFee call wallet)
      estimateFees r wallet ps (saturatingAdd fees fee)

/-- `step_detected`: send the payment wallet the fee TAO it needs. -/
def stepDetected (r : PaymentRecord) : Prog Bool := do
  let wallet ← E.wallet r
  let (alpha, pos) ← Prog.chain (.alphaOn wallet r.netuid)
  let (free, _) ← Prog.chain (.account wallet)
  let r := { r with detectedAlpha := max r.detectedAlpha alpha }
  let floor ← E.sweepFloor r.netuid
  let fees ← E.estimateFees r wallet (pos.filter fun p => floor ≤ p.alpha) 0
  let ed ← Prog.chain .existentialDeposit
  let need := if pos.isEmpty then 0 else fundingNeeded fees E.cfg.feeMarginBps ed free
  if need = 0 then do
    let r ← r.transition .funded
    let _ ← Prog.update r
    return true
  else send r .fund (.transferTao wallet need) E.treasury

/-- `step_funded`: move every position on the payment netuid to the treasury. -/
def stepFunded (r : PaymentRecord) : Prog Bool := do
  let wallet ← E.wallet r
  let (_, pos) ← Prog.chain (.alphaOn wallet r.netuid)
  let floor ← E.sweepFloor r.netuid
  match pos.find? fun p => floor ≤ p.alpha && !(r.sweptPositions.map Prod.fst).contains
      (ss58 p.hotkey) with
  | none => do
      let r ← r.transition .swept
      let _ ← Prog.update r
      return true
  | some p =>
      send r (.sweep (ss58 p.hotkey)) (.transferStake E.treasury p.hotkey r.netuid p.alpha) wallet

/-- The second half of an automatic buyback: destroy what was bought. -/
def stepDestroy (r : PaymentRecord) (budget : BuybackBudget) (b : BuybackReceipt) : Prog Bool := do
  if b.taoSpent ≠ budget.amountRao ∨ b.netuid ≠ budget.netuid then
    throw (.store "purchase receipt disagrees with job budget")
  else if b.alphaBought = 0 then
    throw (.insufficient "buyback produced no alpha; completion blocked")
  else if b.destroyTx.isSome ∧ b.alphaDestroyed ≠ b.alphaBought then
    throw (.store "incomplete burn receipt; completion blocked")
  else if budget.destroy = .keep ∨ b.destroyTx.isSome then do
    let _ ← Prog.update { r with buybackDone := true }
    return true
  else do
    let hotkey ← parseSs58 budget.hotkey
    send r (.destroy budget.netuid (budget.destroy == .recycle))
      (destroyCall budget.destroy hotkey budget.netuid b.alphaBought) E.treasury

/-- `spendable`: treasury TAO available to budgeted jobs. -/
def spendable : Prog UInt64 := do
  let free ← Prog.chain (.freeBalance E.treasury)
  let ed ← Prog.chain .existentialDeposit
  return Buyback.spendable free E.cfg.feeReserve ed

/-- `step_auto_buyback`. -/
def stepAutoBuyback (r : PaymentRecord) : Prog Bool := do
  match r.buybackBudget with
  | none => throw (.config "job has no explicit buyback budget; blocked")
  | some budget => do
      budget.validate
      match r.buyback with
      | some b => E.stepDestroy r budget b
      | none => do
          let spendable ← E.spendable
          let tao ← strictBuybackAmount budget.amountRao spendable
          let price ← Prog.chain (.alphaPrice budget.netuid)
          let limitPrice := buyLimitPrice price E.cfg.slippageBps
          let hotkey ← parseSs58 budget.hotkey
          send r (.buyStake budget.netuid limitPrice)
            (.addStakeLimit hotkey budget.netuid tao limitPrice false) E.treasury

/-- Part 3 of `step_swept`: the automatic buyback, then settle. -/
def finish (r : PaymentRecord) : Prog Bool := do
  match r.autoRequired with
  | none => throw (.config "legacy job policy requires explicit migration")
  | some required =>
      if required = true ∧ r.buybackBudget.isNone then
        throw (.config "required job budget missing")
      else do
        (if required = true ∧ r.buybackDone = true then validateCompletedBuyback r
          else .ok () : Result Unit)
        if required = true ∧ r.buybackDone = false then E.stepAutoBuyback r
        else do
          let r ← r.transition .settled
          let r ← Prog.update r
          E.notify r
          return true

/-- Part 2 of `step_swept`: dust, or the TAO of the payment, back to the treasury. -/
def returnDust (r : PaymentRecord) : Prog Bool := do
  if r.dustReturned = false ∧ (E.cfg.returnDust = true ∨ 0 < r.detectedTao) then do
    let wallet ← E.wallet r
    let free ← Prog.chain (.freeBalance wallet)
    if 0 < free then send r .returnDust (.transferAll E.treasury) wallet
    else E.finish { r with dustReturned := true }
  else E.finish r

/-- Part 1 of `step_swept`: the loop over the positions not yet consolidated. -/
def consolidate : List (String × UInt64) → PaymentRecord → Prog Bool
  | [], r => E.returnDust r
  | (hotkey, _) :: rest, r => do
      let hk ← parseSs58 hotkey
      let live ← (if hk = E.cfg.treasuryHotkey then pure 0
        else Prog.chain (.alphaOf hk E.treasury r.netuid))
      if live = 0 then do
        let r ← Prog.update { r with consolidated := r.consolidated + 1 }
        consolidate rest r
      else
        send r (.consolidate (ss58 hk)) (.moveStake hk E.cfg.treasuryHotkey r.netuid live)
          E.treasury

/-- `step_swept`: consolidate, return dust, buy back, then settle. -/
def stepSwept (r : PaymentRecord) : Prog Bool :=
  if E.cfg.consolidate = true then E.consolidate (r.sweptPositions.drop r.consolidated) r
  else E.returnDust r

/-! ## The driver -/

/-- `resolve_pending`. -/
def resolvePending (r : PaymentRecord) (p : PendingTx) : Prog Bool := do
  let (_, changed) ← reconcileJournaled r p E.cfg.maxAttempts
  return changed

/-- The error arm of `step`: a failed attempt is recorded on the stored record,
unless an extrinsic of it may be in flight. -/
def recordError (r : PaymentRecord) (e : Error) : Prog Bool := do
  match ← Prog.store (.get r.id) with
  | none => throw (.notFound r.id)
  | some cur =>
      if cur.pending.isSome then throw e
      else do
        let t ← Prog.now
        let _ ← Prog.update (cur.recordFailure e.display E.cfg.maxAttempts t)
        throw e

/-- The `match res` of `step`. -/
def guarded (r : PaymentRecord) (p : Prog Bool) : Prog Bool := do
  match ← p.attempt with
  | .ok changed => return changed
  | .error (.conflict id) => throw (.conflict id)
  | .error e => E.recordError r e

/-- `step`: advance one payment by at most one chain action. -/
def step (r : PaymentRecord) (positions : Positions) : Prog Bool :=
  if r.identity ≠ some E.jobIdentity then
    throw (.config "job execution identity missing or mismatched")
  else if r.quarantined.isSome then return false
  else if r.pending.isNone ∧
      (r.autoRequired.isNone ∨ (r.autoRequired = some true ∧ r.buybackBudget.isNone)) then
    throw (.config "job policy migration required before processing")
  else
    match r.pending with
    | some p => E.resolvePending r p
    | none =>
        match r.state with
        | .pending => stepPending r positions
        | .detected => E.guarded r (E.stepDetected r)
        | .funded => E.guarded r (E.stepFunded r)
        | .swept => E.guarded r (E.stepSwept r)
        | .settled => do
            E.notify r
            return true
        | .failed | .expired => return false

/-- Whether `tick` leaves a record alone at time `t`. -/
def skips (r : PaymentRecord) (t : UInt64) : Bool :=
  r.pending.isNone &&
    (r.state == .failed || (r.state == .settled && r.notified) || decide (t < r.nextAttemptAt))

/-- The loop of `tick`.  An error of one payment does not stop the others. -/
def drive (positions : Positions) (t : UInt64) : List PaymentRecord → Nat → Prog Nat
  | [], n => pure n
  | r :: rs, n =>
      if skips r t then drive positions t rs n
      else do
        match ← (E.step r positions).attempt with
        | .ok true => drive positions t rs (n + 1)
        | .ok false | .error _ => drive positions t rs n

/-- The coldkeys whose positions `tick` reads in one call. -/
def watched (recs : List PaymentRecord) : List AccountId32 :=
  (recs.filter fun r => r.state == .pending && r.pending.isNone).filterMap fun r =>
    (parseSs58 r.address).toOption

/-- `tick`: one pass over all open payments. -/
def tick : Prog Nat := do
  let recs ← Prog.store (.list [.pending, .detected, .funded, .swept, .settled, .failed])
  let t ← Prog.now
  let coldkeys := watched recs
  let positions ← (if coldkeys.isEmpty then pure []
    else Prog.chain (.stakePositionsMany coldkeys))
  E.drive positions t recs 0

end Engine

end Buyback
