import Buyback.Source.State

/-!
# Legacy recovery

`recovery.rs`: the manifest an operator writes for a legacy job, the check of the
manifest against the stored record, and the replay of the archived receipts.  The
archive scan itself is an RPC, so its result is an argument of `verify`.
-/

namespace Buyback

structure LegacyTransaction where
  block : UInt64
  index : Nat
  signer : String
  nonce : UInt64
  receipt : TxRef
  call : ChainCall
deriving DecidableEq, Repr

structure LegacyManifest where
  job : String
  version : UInt64
  genesisHash : String
  treasury : String
  treasuryHotkey : String
  consolidate : Bool
  returnDust : Bool
  budget : Option BuybackBudget
  firstBlock : UInt64
  stoppedAt : UInt64
  maximumMortality : UInt64
  operatorAttestation : String
  allOldEmittersStoppedNoImmortalSignatures : Bool
  transactions : List LegacyTransaction
deriving DecidableEq, Repr

structure RecoveryReport where
  job : String
  previousVersion : UInt64
  genesisHash : String
  finalizedBlock : UInt64
  finalizedHash : String
  transactions : Nat
  applied : Bool
deriving DecidableEq, Repr

/-- What the archive scan returns: the summaries in order, the head and its hash. -/
abbrev ArchiveScan : Type := List EventSummary × UInt64 × String

/-- The error of a manifest that does not fit its record. -/
def badManifest : Error :=
  .store "legacy recovery requires a complete audited manifest and unresolved-free record"

/-- Positions of the chain in order: block first, then index. -/
def laterOrSame (p q : UInt64 × Nat) : Prop := q.1 < p.1 ∨ (p.1 = q.1 ∧ q.2 ≤ p.2)

instance (p q : UInt64 × Nat) : Decidable (laterOrSame p q) := inferInstanceAs (Decidable (_ ∨ _))

/-- The loop of `validate_manifest` over the transactions, with the last position
and the hashes and nonces seen so far. -/
def validateTransactions (r : PaymentRecord) (m : LegacyManifest) :
    Option (UInt64 × Nat) → List String → List (String × UInt64) → List LegacyTransaction →
      Result Unit
  | _, _, _, [] => .ok ()
  | last, hashes, nonces, t :: ts =>
      if t.block < m.firstBlock ∨ m.stoppedAt < t.block ∨
          (∃ p, last = some p ∧ laterOrSame p (t.block, t.index)) ∨
          t.receipt.txHash ∈ hashes ∨ (t.signer, t.nonce) ∈ nonces ∨
          (t.signer ≠ m.treasury ∧ t.signer ≠ r.address) ∨
          t.receipt.action ≠ t.call.name ∨ t.receipt.amount ≠ t.call.amount then
        .error badManifest
      else
        validateTransactions r m (some (t.block, t.index)) (t.receipt.txHash :: hashes)
          ((t.signer, t.nonce) :: nonces) ts

/-- The first condition of `validate_manifest` that refuses. -/
def manifestRefused (r : PaymentRecord) (m : LegacyManifest) : Prop :=
  r.identity.isSome ∨
  (r.autoRequired.isSome ∧
    (r.autoRequired ≠ some m.budget.isSome ∨ r.buybackBudget ≠ m.budget)) ∨
  r.pending.isSome ∨
  r.quarantined.isSome ∨
  r.notified = true ∨
  (m.transactions = [] ∧ ¬ (r.state = .pending ∨ r.state = .detected)) ∨
  4096 < m.transactions.length ∨
  m.firstBlock = 0 ∨
  m.stoppedAt < m.firstBlock ∨
  m.maximumMortality = 0 ∨
  65536 < m.maximumMortality ∨
  m.allOldEmittersStoppedNoImmortalSignatures = false ∨
  (trim m.operatorAttestation).utf8ByteSize < 16 ∨
  4096 < m.operatorAttestation.utf8ByteSize ∨
  ¬ (r.state = .pending ∨ r.state = .detected ∨ r.state = .funded ∨ r.state = .swept ∨
      r.state = .failed) ∨
  (r.state = .failed ∧ ¬ (r.failedFrom = some .funded ∨ r.failedFrom = some .swept))

/-- The second condition: a job that has not started must have nothing done. -/
def notPristine (r : PaymentRecord) (m : LegacyManifest) : Prop :=
  (r.state = .pending ∨ r.state = .detected) ∧
    (m.transactions ≠ [] ∨ r.fundedTao ≠ 0 ∨ r.sweptAlpha ≠ 0 ∨ r.sweptPositions ≠ [] ∨
      r.consolidated ≠ 0 ∨ r.dustReturned = true ∨ r.buyback.isSome ∨ r.buybackDone = true)

instance (r : PaymentRecord) (m : LegacyManifest) : Decidable (manifestRefused r m) := by
  unfold manifestRefused; infer_instance

instance (r : PaymentRecord) (m : LegacyManifest) : Decidable (notPristine r m) := by
  unfold notPristine; infer_instance

/-- `validate_manifest`. -/
def validateManifest [Ss58] (r : PaymentRecord) (m : LegacyManifest) : Result Unit :=
  if r.id ≠ m.job ∨ r.version ≠ m.version then .error (.conflict m.job)
  else if manifestRefused r m then .error badManifest
  else if notPristine r m then .error badManifest
  else do
    let treasury ← parseSs58 m.treasury
    let deposit ← parseSs58 r.address
    let _ ← parseSs58 m.treasuryHotkey
    if treasury = deposit ∨ ss58 treasury ≠ m.treasury ∨ ss58 deposit ≠ r.address then
      .error badManifest
    else
      validateBudget m.budget
      validateTransactions r m none [] [] m.transactions
      if m.transactions.map (·.receipt) ≠ r.txs then .error badManifest else .ok ()

/-! ## Replay -/

/-- The accounting `replay` rebuilds from the receipts. -/
structure Replayed where
  funded : UInt64 := 0
  positions : List (String × UInt64) := []
  consolidated : Nat := 0
  dust : Bool := false
  postSweep : Bool := false
  buyback : Option BuybackReceipt := none
deriving DecidableEq, Repr

/-- The error of a receipt that does not fit its stage. -/
def invalidReceipt : Error :=
  .store "legacy call, events or stage disagrees with audited job"

/-- One round of the replay loop, after the check of the events. -/
def replayCall [Ss58] (r : PaymentRecord) (m : LegacyManifest)
    (treasury deposit hotkey : AccountId32) (signer : AccountId32) (t : LegacyTransaction)
    (s : EventSummary) (st : Replayed) :
    Result Replayed :=
  match t.call with
  | .transferTao dest amount =>
      if signer = treasury ∧ dest = deposit ∧ st.funded = 0 ∧ st.positions = [] ∧ st.dust = false ∧
          st.buyback = none ∧ 0 < amount ∧ s.transferred = some amount then
        .ok { st with funded := amount }
      else .error invalidReceipt
  | .transferStake destColdkey source netuid alpha =>
      if signer = deposit ∧ destColdkey = treasury ∧ netuid = r.netuid ∧ st.postSweep = false ∧
          st.consolidated = 0 ∧ st.dust = false ∧ st.buyback = none ∧ 0 < alpha ∧
          ss58 source ∉ st.positions.map Prod.fst then
        .ok { st with positions := st.positions ++ [(ss58 source, alpha)] }
      else .error invalidReceipt
  | .moveStake fromHotkey toHotkey netuid alpha =>
      if m.consolidate = true ∧ signer = treasury ∧ toHotkey = hotkey ∧ netuid = r.netuid ∧
          st.dust = false ∧ st.buyback = none ∧
          st.positions[st.consolidated]? = some (ss58 fromHotkey, alpha) then
        .ok { st with postSweep := true, consolidated := st.consolidated + 1 }
      else .error invalidReceipt
  | .transferAll dest =>
      if (m.returnDust = true ∨ 0 < r.detectedTao) ∧ signer = deposit ∧ dest = treasury ∧
          st.dust = false ∧ st.buyback = none ∧
          ¬ (m.consolidate = true ∧ st.consolidated ≠ st.positions.length) then
        .ok { st with postSweep := true, dust := true }
      else .error invalidReceipt
  | .addStakeLimit target netuid tao limitPrice allowPartial =>
      if allowPartial = false ∧ signer = treasury ∧ st.buyback = none ∧
          ¬ (m.consolidate = true ∧ st.consolidated ≠ st.positions.length) ∧
          ¬ ((m.returnDust = true ∨ 0 < r.detectedTao) ∧ st.dust = false) then
        match m.budget, s.stakeAdded with
        | some b, some (spent, bought) =>
            if ss58 target = b.hotkey ∧ netuid = b.netuid ∧ tao = b.amountRao ∧ spent = tao ∧
                bought ≠ 0 then
              .ok { st with
                postSweep := true
                buyback := some
                  { netuid := netuid, taoSpent := spent, alphaBought := bought
                    limitPrice := limitPrice, stakeTx := t.receipt, destroyTx := none
                    alphaDestroyed := 0 } }
            else .error invalidReceipt
        | _, _ => .error invalidReceipt
      else .error invalidReceipt
  | .burnAlpha target netuid alpha =>
      replayDestroy .burn target netuid alpha
  | .recycleAlpha target netuid alpha =>
      replayDestroy .recycle target netuid alpha
  | .associateHotkey _ => .error invalidReceipt
where
  /-- The shared arm of the two destroying calls. -/
  replayDestroy (destroy : Destroy) (target : AccountId32) (netuid : UInt16) (alpha : UInt64) :
      Result Replayed :=
    match m.budget, st.buyback with
    | some b, some receipt =>
        if signer = treasury ∧ b.destroy = destroy ∧ ss58 target = b.hotkey ∧ netuid = b.netuid ∧
            receipt.destroyTx = none ∧ alpha = receipt.alphaBought ∧
            s.alphaDestroyed = some alpha then
          .ok { st with
            buyback := some
              { receipt with destroyTx := some t.receipt, alphaDestroyed := alpha } }
        else .error invalidReceipt
    | _, _ => .error invalidReceipt

/-- The replay loop. -/
def replayLoop [Ss58] (r : PaymentRecord) (m : LegacyManifest)
    (treasury deposit hotkey : AccountId32) :
    Replayed → List (LegacyTransaction × EventSummary) → Result Replayed
  | st, [] => .ok st
  | st, (t, s) :: rest => do
      let signer ← parseSs58 t.signer
      if s.failed = true ∨ s.has "System" "ExtrinsicSuccess" = false ∨
          s.has t.call.expectedEvent.1 t.call.expectedEvent.2 = false then
        .error invalidReceipt
      else
        let st ← replayCall r m treasury deposit hotkey signer t s st
        replayLoop r m treasury deposit hotkey st rest

/-- The sum of the positions, or `none` past the largest `u64`. -/
def checkedTotal (positions : List (String × UInt64)) : Option UInt64 :=
  let total := (positions.map fun p => p.2.toNat).sum
  if total < 2 ^ 64 then some (UInt64.ofNat total) else none

/-- The stage of a record: of a failed one, the stage it failed in. -/
def PaymentRecord.stage (r : PaymentRecord) : PaymentState :=
  if r.state = .failed then r.failedFrom.getD r.state else r.state

/-- Whether the replayed purchase is kept or destroyed. -/
def Replayed.complete (st : Replayed) (m : LegacyManifest) : Bool :=
  st.buyback.any fun b => b.destroyTx.isSome || m.budget.any fun p => p.destroy == .keep

/-- `replay`: the receipts must reproduce the stored accounting. -/
def replay [Ss58] (r : PaymentRecord) (m : LegacyManifest) (scan : ArchiveScan) :
    Result (PaymentRecord × RecoveryReport) := do
  validateManifest r m
  if scan.1.length ≠ m.transactions.length then .error (.store "missing archived receipts")
  else
    let treasury ← parseSs58 m.treasury
    let deposit ← parseSs58 r.address
    let hotkey ← parseSs58 m.treasuryHotkey
    let st ← replayLoop r m treasury deposit hotkey {} (m.transactions.zip scan.1)
    match checkedTotal st.positions with
    | none => .error (.store "legacy amount overflow")
    | some total =>
        if (r.stage = .funded ∧
              (st.consolidated ≠ 0 ∨ st.dust = true ∨ st.buyback.isSome ∨ r.buybackDone = true)) ∨
            st.funded ≠ r.fundedTao ∨ st.positions ≠ r.sweptPositions ∨ total ≠ r.sweptAlpha ∨
            st.consolidated ≠ r.consolidated ∨ st.dust ≠ r.dustReturned ∨ st.buyback ≠ r.buyback ∨
            (r.buybackDone = true ∧ st.complete m = false) then
          .error (.store "legacy receipts do not reproduce stored accounting")
        else
          .ok
            ({ r with
                identity := some
                  { genesisHash := m.genesisHash, treasury := m.treasury
                    treasuryHotkey := m.treasuryHotkey, consolidate := m.consolidate
                    returnDust := m.returnDust }
                autoRequired := some m.budget.isSome
                buybackBudget := m.budget },
              { job := r.id, previousVersion := r.version, genesisHash := m.genesisHash
                finalizedBlock := scan.2.1, finalizedHash := scan.2.2
                transactions := m.transactions.length, applied := false })

/-- `verify`: the manifest check, the archive scan and the replay. -/
def verify [Ss58] (scan : PaymentRecord → LegacyManifest → Result ArchiveScan) (r : PaymentRecord)
    (m : LegacyManifest) : Result (PaymentRecord × RecoveryReport) := do
  validateManifest r m
  let summaries ← scan r m
  replay r m summaries

end Buyback
