import Buyback.Recovery.Steps
import Buyback.System.Script

/-!
# Replay and live accounting

An archived history as an engine would have lived it: the action of each call is
journaled on the record, and its receipt applied.  `Follows` relates the
accounting of the replay to that record.  Each step of the replay is matched by
one application that does not fail.
-/

namespace Buyback

section

variable [Ss58]

/-- The journal of a transaction of the manifest. -/
def LegacyTransaction.journal (t : LegacyTransaction) (action : Action) : PendingTx :=
  { action := action, reservation := none, signer := t.signer, nonce := t.nonce
    txHash := t.receipt.txHash, birthBlock := t.block, amount := t.receipt.amount }

namespace PaymentRecord

/-- The record with nothing done yet. -/
def unstarted (r : PaymentRecord) : PaymentRecord :=
  { r with
    fundedTao := 0, sweptAlpha := 0, sweptPositions := [], consolidated := 0, txs := []
    dustReturned := false, buyback := none, buybackDone := false, pending := none
    state := .detected }

/-- Journal one transaction and apply its receipt. -/
def liveStep (live : PaymentRecord) (t : LegacyTransaction) (s : EventSummary) :
    Result PaymentRecord :=
  match t.call.action with
  | none => .error invalidReceipt
  | some action => { live with pending := some (t.journal action) }.apply t.receipt s

/-- Journal and apply the transactions in turn. -/
def live : PaymentRecord → List (LegacyTransaction × EventSummary) → Result PaymentRecord
  | r, [] => .ok r
  | r, (t, s) :: rest => do
      let r ← r.liveStep t s
      live r rest

/-- The purchase is kept by the budget, or all of it destroyed. -/
def Completed (r : PaymentRecord) (budget : Option BuybackBudget) : Prop :=
  ∃ b, r.buyback = some b ∧
    (b.destroyTx.isSome ∧ b.alphaDestroyed = b.alphaBought ∨
      ∃ p, budget = some p ∧ p.destroy = .keep)

end PaymentRecord

/-! ## The simulation -/

/-- The live record has the accounting of the replay. -/
structure Follows (st : Replayed) (txs : List TxRef) (live : PaymentRecord) : Prop where
  pending : live.pending = none
  txs_eq : live.txs = txs
  funded : live.fundedTao = st.funded
  positions : live.sweptPositions = st.positions
  total : live.sweptAlpha = (st.positions.map Prod.snd).sum
  consolidated : live.consolidated = st.consolidated
  dust : live.dustReturned = st.dust
  buyback : live.buyback = st.buyback
  /-- Nothing but the funding changes the state. -/
  state : st.funded = 0 → live.state = .detected
  bought : ∀ b, st.buyback = some b → b.alphaBought ≠ 0
  destroyed : ∀ b, st.buyback = some b → b.destroyTx.isSome → b.alphaDestroyed = b.alphaBought

variable {r live live' : PaymentRecord} {m : LegacyManifest}
  {treasury deposit hotkey signer : AccountId32} {st st' : Replayed} {txs : List TxRef}
  {receipt : TxRef} {s : EventSummary} {call : ChainCall}

omit [Ss58] in
theorem follows_unstarted : Follows {} [] r.unstarted :=
  ⟨rfl, rfl, rfl, rfl, rfl, rfl, rfl, rfl, fun _ => rfl, fun _ h => (nomatch h),
    fun _ h => (nomatch h)⟩

omit [Ss58] in
/-- Applying what was just journaled. -/
theorem apply_journaled {p : PendingTx} (hp : live.pending = none)
    (h : live.applyAction receipt s p.action = .ok live') :
    { live with pending := some p }.apply receipt s = .ok (live'.receive receipt) := by
  have heq : { { live with pending := some p } with pending := none } = live := by
    cases live
    cases hp
    rfl
  simp only [PaymentRecord.apply]
  rw [heq, h]

omit [Ss58] in
theorem buyStake_applied {netuid : UInt16} {limitPrice bought : UInt64}
    (hadded : s.stakeAdded = some (receipt.amount, bought)) (hbought : bought ≠ 0) :
    live.applyAction receipt s (.buyStake netuid limitPrice) =
      .ok { live with
        buyback := some
          { netuid := netuid, taoSpent := receipt.amount, alphaBought := bought
            limitPrice := limitPrice, stakeTx := receipt, destroyTx := none
            alphaDestroyed := 0 } } := by
  simp only [PaymentRecord.applyAction, hadded]
  exact if_neg (not_or.mpr ⟨fun hne => hne rfl, hbought⟩)

omit [Ss58] in
theorem destroy_applied {netuid : UInt16} {recycle : Bool} {b : BuybackReceipt}
    (hb : live.buyback = some b) (hdestroyed : s.alphaDestroyed = some b.alphaBought)
    (hbought : b.alphaBought ≠ 0) :
    live.applyAction receipt s (.destroy netuid recycle) =
      .ok { live with
        buyback := some { b with destroyTx := some receipt, alphaDestroyed := b.alphaBought }
        buybackDone := true } := by
  simp only [PaymentRecord.applyAction, hdestroyed, hb]
  exact if_neg (not_or.mpr ⟨fun hne => hne rfl, hbought⟩)

/-- One accepted transaction is applied to the live record without an error. -/
theorem Follows.step (hf : Follows st txs live)
    (hstep : Replayed.Step r m treasury deposit hotkey receipt s st signer call st')
    (hconfirms : s.Confirms call) (hamount : receipt.amount = call.amount) :
    ∃ action, call.action = some action ∧ ∃ live',
      live.applyAction receipt s action = .ok live' ∧
        Follows st' (txs ++ [receipt]) (live'.receive receipt) := by
  have htxs : live.txs ++ [receipt] = txs ++ [receipt] := by rw [hf.txs_eq]
  cases hstep with
  | fund hfunded hpositions hdust hbuyback hpos htransferred =>
      have hdetected := hf.state hfunded
      have hok : ({ live with fundedTao := live.fundedTao + receipt.amount }).transition .funded =
          .ok _ :=
        PaymentRecord.transition_ok.mpr
          ⟨⟨by rw [hdetected]; rfl, .inl (by rw [hdetected]; decide)⟩, rfl⟩
      refine ⟨_, rfl, _, hok, { hf with txs_eq := htxs, funded := ?_, state := fun h0 => ?_ }⟩
      · show live.fundedTao + receipt.amount = _
        rw [hf.funded, hfunded, hamount]
        exact UInt64.zero_add _
      · exact absurd (h0 ▸ hpos) (UInt64.lt_irrefl _)
  | sweep hpost hnone hdust hbuyback hpos hnew =>
      have hhas : s.has pallet "StakeTransferred" = true := hconfirms.2.2
      refine ⟨_, rfl, _, if_neg (by rw [hhas]; decide),
        { hf with txs_eq := htxs, positions := ?_, total := ?_ }⟩
      · show live.sweptPositions ++ [(_, receipt.amount)] = _
        rw [hf.positions, hamount]
        rfl
      · show live.sweptAlpha + receipt.amount = _
        rw [hf.total, hamount, List.map_append, List.sum_append]
        exact congrArg _ (List.sum_singleton).symm
  | consolidate hwanted hdust hbuyback hnext =>
      exact ⟨_, rfl, _, rfl,
        { hf with txs_eq := htxs, consolidated := congrArg (· + 1) hf.consolidated }⟩
  | returnDust hwanted hdust hbuyback hall =>
      exact ⟨_, rfl, _, rfl, { hf with txs_eq := htxs, dust := rfl }⟩
  | @buyStake target budget limitPrice bought hbuyback hall hdust hbudget htarget hadded hbought =>
      have hspent : s.stakeAdded = some (receipt.amount, bought) := hamount ▸ hadded
      refine ⟨_, rfl, _, buyStake_applied hspent hbought,
        { hf with txs_eq := htxs, buyback := ?_, bought := ?_, destroyed := ?_ }⟩
      · rw [hamount]
        rfl
      · rintro b ⟨⟩
        exact hbought
      · rintro b ⟨⟩ hsome
        cases hsome
  | @destroy target budget bought hbudget hbought hkeep htarget hnone hdestroyed =>
      have hpurchase := hf.bought bought hbought
      obtain ⟨netuid, recycle, haction⟩ : ∃ netuid recycle,
          (destroyCall budget.destroy target budget.netuid bought.alphaBought).action =
            some (.destroy netuid recycle) := by
        cases budget.destroy <;> exact ⟨_, _, rfl⟩
      refine ⟨_, haction, _, destroy_applied (hf.buyback.trans hbought) hdestroyed hpurchase,
        { hf with txs_eq := htxs, buyback := rfl, bought := ?_, destroyed := ?_ }⟩
      · rintro b ⟨⟩
        exact hpurchase
      · rintro b ⟨⟩ -
        rfl

/-- The whole history is applied without an error. -/
theorem Follows.steps {ts : List (LegacyTransaction × EventSummary)}
    (hsteps : Replayed.Steps r m treasury deposit hotkey st ts st') (hf : Follows st txs live)
    (hamounts : ∀ x ∈ ts, x.1.receipt.amount = x.1.call.amount) :
    ∃ live', live.live ts = .ok live' ∧
      Follows st' (txs ++ ts.map fun x => x.1.receipt) live' := by
  induction hsteps generalizing txs live with
  | nil => exact ⟨live, rfl, (List.append_nil txs).symm ▸ hf⟩
  | @cons st st₁ st₂ t s rest signer hsigner hconfirms hstep hrest ih =>
      obtain ⟨action, haction, live₁, hlive₁, hf₁⟩ := hf.step hstep hconfirms
        (hamounts _ (.head _))
      obtain ⟨live₂, hlive₂, hf₂⟩ := ih hf₁ fun x hx => hamounts x (.tail _ hx)
      have hfirst : live.liveStep t s = .ok (live₁.receive t.receipt) := by
        unfold PaymentRecord.liveStep
        rw [haction]
        exact apply_journaled hf.pending hlive₁
      refine ⟨live₂, ?_, ?_⟩
      · rw [PaymentRecord.live, Result.ok_bind hfirst]
        exact hlive₂
      · rwa [List.append_assoc] at hf₂

omit [Ss58] in
/-- A total that fits is the sum of the positions. -/
theorem sum_of_checkedTotal {positions : List (String × UInt64)} {total : UInt64}
    (h : checkedTotal positions = some total) : (positions.map Prod.snd).sum = total := by
  have hcast (ps : List (String × UInt64)) :
      (ps.map Prod.snd).sum = UInt64.ofNat (ps.map fun p => p.2.toNat).sum := by
    induction ps with
    | nil => rfl
    | cons p ps ih =>
        rw [List.map_cons, List.sum_cons, ih, List.map_cons, List.sum_cons, UInt64.ofNat_add,
          UInt64.ofNat_toNat]
  simp only [checkedTotal] at h
  split at h
  next => exact (hcast positions).trans (Option.some.inj h)
  next => cases h

/-- An accepted replay has the accounting of the live history, and a finished buyback
in it is complete. -/
theorem recovery_relives {next : PaymentRecord} {scan : ArchiveScan} {report : RecoveryReport}
    (h : replay r m scan = .ok (next, report)) :
    ∃ live, r.unstarted.live (m.transactions.zip scan.1) = .ok live ∧
      live.fundedTao = r.fundedTao ∧
      live.sweptAlpha = r.sweptAlpha ∧
      live.sweptPositions = r.sweptPositions ∧
      live.consolidated = r.consolidated ∧
      live.dustReturned = r.dustReturned ∧
      live.buyback = r.buyback ∧
      live.txs = r.txs ∧
      (r.buybackDone = true → live.Completed m.budget) := by
  obtain ⟨-, treasury, deposit, hotkey, st, hreplays⟩ := replay_accepted h
  have hamounts : ∀ x ∈ m.transactions.zip scan.1, x.1.receipt.amount = x.1.call.amount :=
    fun x hx => (hreplays.valid.explained x.1 (List.of_mem_zip hx).1).amount
  have hreceipts : (m.transactions.zip scan.1).map (fun x => x.1.receipt) = r.txs := by
    have hmap : (m.transactions.zip scan.1).map (fun x => x.1.receipt) =
        ((m.transactions.zip scan.1).map Prod.fst).map LegacyTransaction.receipt := by
      rw [List.map_map]
      rfl
    rw [hmap, List.map_fst_zip hreplays.length.ge]
    exact hreplays.valid.receipts
  obtain ⟨live, hlive, hf⟩ :=
    follows_unstarted.steps (replayLoop_steps hreplays.loop) hamounts
  refine ⟨live, hlive, hf.funded.trans hreplays.funded, ?_, hf.positions.trans hreplays.positions,
    hf.consolidated.trans hreplays.consolidated, hf.dust.trans hreplays.dust,
    hf.buyback.trans hreplays.buyback, hf.txs_eq.trans hreceipts, fun hdone => ?_⟩
  · exact hf.total.trans (sum_of_checkedTotal hreplays.total)
  · have hcomplete := hreplays.done hdone
    rw [Replayed.complete, Option.any_eq_true] at hcomplete
    obtain ⟨b, hb, hcomplete⟩ := hcomplete
    refine ⟨b, hf.buyback.trans hb, ?_⟩
    rw [Bool.or_eq_true, Option.any_eq_true] at hcomplete
    rcases hcomplete with hdestroyed | ⟨p, hp, hkeep⟩
    · exact .inl ⟨hdestroyed, hf.destroyed b hb hdestroyed⟩
    · exact .inr ⟨p, hp, beq_iff_eq.mp hkeep⟩

end

/-! ## A job that was swept and bought back -/

/-- The transactions of the sample job: its fees, its sweep, its purchase and the burn. -/
def sampleTransactions : List LegacyTransaction :=
  [⟨1, 0, "xx", 0, ⟨"transfer_keep_alive", "0x", "#", 1500⟩, .transferTao 3 1500⟩,
    ⟨2, 0, "xxx", 0, ⟨"transfer_stake", "0x'", "#'", 700⟩, .transferStake 2 7 1 700⟩,
    ⟨3, 0, "xx", 1, ⟨"add_stake_limit", "0x''", "#''", 6000000⟩,
      .addStakeLimit 1 1 6000000 20 false⟩,
    ⟨4, 0, "xx", 2, ⟨"burn_alpha", "0x'''", "#'''", 500⟩, .burnAlpha 1 1 500⟩]

/-- The summary of an extrinsic that succeeded with the event that its call names. -/
def confirmed (call : ChainCall) : EventSummary :=
  { names := [call.expectedEvent, ("System", "ExtrinsicSuccess")] }

/-- What the archive says of the sample transactions. -/
def sampleArchive : ArchiveScan :=
  ([{ confirmed (.transferTao 3 1500) with transferred := some 1500 },
    confirmed (.transferStake 2 7 1 700),
    { confirmed (.addStakeLimit 1 1 6000000 20 false) with stakeAdded := some (6000000, 500) },
    { confirmed (.burnAlpha 1 1 500) with alphaDestroyed := some 500 }], 200, "head")

/-- The sample job before its recovery. -/
def sampleLegacy : PaymentRecord :=
  { (sampleEngine (some sampleBudget)).sweepRecord "job" "xxx" "path" none ⟨1, "", "", none⟩ 0 with
    state := .swept, autoRequired := none, identity := none, fundedTao := 1500
    sweptAlpha := 700, sweptPositions := [("xxxxxxx", 700)]
    txs := sampleTransactions.map LegacyTransaction.receipt
    buyback := some
      { netuid := 1, taoSpent := 6000000, alphaBought := 500, limitPrice := 20
        stakeTx := ⟨"add_stake_limit", "0x''", "#''", 6000000⟩
        destroyTx := some ⟨"burn_alpha", "0x'''", "#'''", 500⟩, alphaDestroyed := 500 }
    buybackDone := true }

/-- The manifest of the sample job. -/
def sampleManifest : LegacyManifest where
  job := "job"
  version := 0
  genesisHash := "genesis"
  treasury := "xx"
  treasuryHotkey := "xxxxxxxxx"
  consolidate := false
  returnDust := false
  budget := some sampleBudget
  firstBlock := 1
  stoppedAt := 4
  maximumMortality := 64
  operatorAttestation := "0123456789abcdef"
  allOldEmittersStoppedNoImmortalSignatures := true
  transactions := sampleTransactions

theorem sample_replays : ∃ report, replay sampleLegacy sampleManifest sampleArchive =
    .ok (sampleLegacy.recovered sampleManifest, report) := ⟨_, rfl⟩

theorem sampleLegacy_relives :
    ∃ live, sampleLegacy.unstarted.live (sampleTransactions.zip sampleArchive.1) = .ok live ∧
      live.fundedTao = 1500 ∧ live.sweptAlpha = 700 ∧ live.Completed (some sampleBudget) := by
  obtain ⟨report, h⟩ := sample_replays
  obtain ⟨live, hlive, hfunded, htotal, -, -, -, -, -, hdone⟩ := recovery_relives h
  exact ⟨live, hlive, hfunded, htotal, hdone rfl⟩

end Buyback
