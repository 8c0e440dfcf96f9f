import Buyback.Record.Sound

/-!
# Every write keeps a record sound

One lemma for each way a record changes, and from them that every record a process
may write over a sound one is sound.  The lemmas on `moved`, `recordFailure` and
`apply` say what these functions do, so that later modules need not unfold them.
-/

namespace Buyback

open Resumption

namespace PaymentRecord

variable {r new : PaymentRecord} {p : PendingTx} {target : PaymentState} {text : String}
  {maxAttempts : UInt32} {now : UInt64}

/-! ## Stages -/

theorem stage_of_ne (h : r.state ≠ .failed) : r.stage = r.state := if_neg h

theorem stage_of_state {s : PaymentState} (h : r.state = s) (hne : s ≠ .failed) : r.stage = s :=
  (stage_of_ne (h ▸ hne)).trans h

theorem stage_of_swept (h : r.state = .swept) : r.stage = .swept := stage_of_state h (by decide)

theorem stage_of_failed {s : PaymentState} (h : r.state = .failed) (hf : r.failedFrom = some s) :
    r.stage = s := by simp [stage, h, hf]

theorem stage_moved (h : target ≠ .failed) : (r.moved target).stage = target := stage_of_ne h

/-- The two things `record_failure` does: count the attempt, or give up. -/
theorem recordFailure_cases (r : PaymentRecord) (text : String) (maxAttempts : UInt32)
    (now : UInt64) : ∃ lastError nextAttemptAt,
    (r.attempts + 1 < maxAttempts ∨ r.state.canTransition .failed = false) ∧
      r.recordFailure text maxAttempts now =
        { r with
          attempts := r.attempts + 1, lastError := lastError, nextAttemptAt := nextAttemptAt } ∨
    r.state.canTransition .failed = true ∧
      r.recordFailure text maxAttempts now =
        { r with
          attempts := r.attempts + 1, lastError := lastError, nextAttemptAt := nextAttemptAt
          failedFrom := some r.state, state := .failed } := by
  refine ⟨some (String.ofList (text.toList.take 500)),
    now + min (5 <<< (min (r.attempts + 1) 7).toUInt64) 600, ?_⟩
  unfold recordFailure
  dsimp only
  split
  next h => exact .inr ⟨h.2, rfl⟩
  next h =>
    refine .inl ⟨?_, rfl⟩
    rw [not_and_or, UInt32.not_le, Bool.not_eq_true] at h
    exact h

/-- A failure keeps the stage. -/
theorem recordFailure_stage : (r.recordFailure text maxAttempts now).stage = r.stage := by
  obtain ⟨lastError, nextAttemptAt, ⟨-, heq⟩ | ⟨hcan, heq⟩⟩ :=
    r.recordFailure_cases text maxAttempts now
  · rw [heq]
    rfl
  · have hne : r.state ≠ .failed := by
      intro h
      rw [h] at hcan
      cases hcan
    rw [heq, stage_of_ne hne]
    rfl

/-- With one attempt allowed, a working record gives up at once. -/
theorem recordFailure_one (hw : r.state.Working) (ha : r.attempts.toNat + 1 < 2 ^ 32) :
    ∃ lastError nextAttemptAt, r.recordFailure text 1 now =
      { r with
        attempts := r.attempts + 1, lastError := lastError, nextAttemptAt := nextAttemptAt
        failedFrom := some r.state, state := .failed } := by
  obtain ⟨lastError, nextAttemptAt, ⟨hlt, -⟩ | ⟨-, heq⟩⟩ := r.recordFailure_cases text 1 now
  · rcases hlt with hlt | hcan
    · rw [UInt32.lt_iff_toNat_lt, UInt32.toNat_add] at hlt
      simp only [UInt32.toNat_one] at hlt
      omega
    · rw [hw.canFail] at hcan
      cases hcan
  · exact ⟨lastError, nextAttemptAt, heq⟩

theorem recordFailure_keys :
    (r.recordFailure text maxAttempts now).id = r.id ∧
      (r.recordFailure text maxAttempts now).version = r.version := by
  obtain ⟨lastError, nextAttemptAt, ⟨-, heq⟩ | ⟨-, heq⟩⟩ :=
    r.recordFailure_cases text maxAttempts now
  · rw [heq]
    exact ⟨rfl, rfl⟩
  · rw [heq]
    exact ⟨rfl, rfl⟩

/-! ## Applying a receipt -/

/-- What a successful `apply` found in the events and made of the record, by the
action of its journal. -/
inductive Applies (r : PaymentRecord) (tx : TxRef) (s : EventSummary) :
    Action → PaymentRecord → Prop where
  | fund :
      r.state.canTransition .funded = true →
      r.ResumeOk .funded →
      Applies r tx s .fund
        (({ r with pending := none, fundedTao := r.fundedTao + tx.amount }.moved .funded).receive
          tx)
  | sweep {hotkey : String} :
      s.has pallet "StakeTransferred" = true →
      Applies r tx s (.sweep hotkey)
        ({ r with
          pending := none, sweptAlpha := r.sweptAlpha + tx.amount
          sweptPositions := r.sweptPositions ++ [(hotkey, tx.amount)] }.receive tx)
  | consolidate {hotkey : String} :
      Applies r tx s (.consolidate hotkey)
        ({ r with pending := none, consolidated := r.consolidated + 1 }.receive tx)
  | returnDust :
      Applies r tx s .returnDust ({ r with pending := none, dustReturned := true }.receive tx)
  | buyStake {netuid : UInt16} {limitPrice alpha : UInt64} :
      s.stakeAdded = some (tx.amount, alpha) →
      alpha ≠ 0 →
      Applies r tx s (.buyStake netuid limitPrice)
        ({ r with
          pending := none
          buyback := some
            { netuid := netuid, taoSpent := tx.amount, alphaBought := alpha
              limitPrice := limitPrice, stakeTx := tx, destroyTx := none
              alphaDestroyed := 0 } }.receive tx)
  | destroy {netuid : UInt16} {recycle : Bool} {b : BuybackReceipt} :
      s.alphaDestroyed = some b.alphaBought →
      r.buyback = some b →
      b.alphaBought ≠ 0 →
      Applies r tx s (.destroy netuid recycle)
        ({ r with
          pending := none
          buyback := some { b with destroyTx := some tx, alphaDestroyed := b.alphaBought }
          buybackDone := true }.receive tx)

theorem Applies.keys {tx : TxRef} {s : EventSummary} {action : Action}
    (ha : Applies r tx s action new) : new.id = r.id ∧ new.version = r.version := by
  cases ha <;> exact ⟨rfl, rfl⟩

theorem apply_ok {tx : TxRef} {s : EventSummary} (h : r.apply tx s = .ok new)
    (hp : r.pending = some p) : Applies r tx s p.action new := by
  unfold apply at h
  rw [hp] at h
  dsimp only at h
  split at h
  next => cases h
  next r₁ h₁ =>
    cases h
    generalize p.action = action at h₁ ⊢
    cases action with
    | fund =>
        obtain ⟨⟨hcan, hresume⟩, rfl⟩ := transition_ok.mp h₁
        exact .fund hcan hresume
    | sweep hotkey =>
        simp only [applyAction] at h₁
        split_ifs at h₁ with hhas
        cases h₁
        exact .sweep (by simpa using hhas)
    | consolidate hotkey => cases h₁; exact .consolidate
    | returnDust => cases h₁; exact .returnDust
    | buyStake netuid limitPrice =>
        simp only [applyAction] at h₁
        split at h₁
        next => cases h₁
        next tao alpha hadded =>
          split_ifs at h₁ with hbad
          cases h₁
          rw [not_or, not_not] at hbad
          rw [hbad.1] at hadded ⊢
          exact .buyStake hadded hbad.2
    | destroy netuid recycle =>
        simp only [applyAction] at h₁
        split at h₁
        next => cases h₁
        next destroyed hdestroyed =>
          split at h₁
          next => cases h₁
          next b hb =>
            split_ifs at h₁ with hbad
            cases h₁
            rw [not_or, not_not] at hbad
            rw [hbad.1] at hdestroyed ⊢
            exact .destroy hdestroyed hb (hbad.1 ▸ hbad.2)

/-- Funding never fails to apply while the record is detected. -/
theorem apply_fund {tx : TxRef} {s : EventSummary} (hp : r.pending = some p)
    (ha : p.action = .fund) (hd : r.state = .detected) : ∃ new, r.apply tx s = .ok new := by
  refine ⟨({ r with
    pending := none, fundedTao := r.fundedTao + tx.amount }.moved .funded).receive tx, ?_⟩
  have ht : { r with pending := none, fundedTao := r.fundedTao + tx.amount }.transition .funded =
      .ok ({ r with pending := none, fundedTao := r.fundedTao + tx.amount }.moved .funded) := by
    refine transition_ok.mpr ⟨⟨?_, .inl ?_⟩, rfl⟩
    · simp only [hd]
      rfl
    · simp only [hd]
      decide
  simp only [apply, hp, ha, applyAction, ht]

variable [Ss58]

/-! ## Bookkeeping -/

namespace Sound

theorem stage_eq (hs : r.Sound) : r.state ≠ .failed ∧ r.stage = r.state ∨
    r.state = .failed ∧ r.stage.Working ∧ r.failedFrom = some r.stage := by
  by_cases h : r.state = .failed
  · obtain ⟨s, hf, hw⟩ := hs.failed h
    rw [stage_of_failed h hf]
    exact .inr ⟨h, hw, hf⟩
  · exact .inl ⟨h, stage_of_ne h⟩

/-- A failed record has no journal. -/
theorem pending_of_failed (hs : r.Sound) (h : r.state = .failed) : r.pending = none := by
  cases hp : r.pending with
  | none => rfl
  | some p => exact absurd h (hs.journal p hp).1

theorem quarantined_of_ne (hs : r.Sound) (h : r.state ≠ .failed) : r.quarantined = none := by
  cases hq : r.quarantined with
  | none => rfl
  | some q => exact absurd (hs.quarantine q hq).1 h

/-- A record with a journal is in a working state. -/
theorem working_of_pending (hs : r.Sound) (hp : r.pending = some p) : r.state.Working := by
  obtain ⟨hne, -, hfits⟩ := hs.journal p hp
  exact stage_of_ne hne ▸ hfits.working

/-- Moving on in the transition table. -/
theorem moved (hs : r.Sound) (hp : r.pending = none) (hq : r.quarantined = none)
    (hto : target ≠ .failed) (hle : r.stage.rank ≤ target.rank)
    (hf : target = .settled → r.Finished) :
    (r.moved target).Sound where
  required := hs.required
  valid := hs.valid
  identified := hs.identified
  failed h := absurd h hto
  resumed _ s hs' := by
    have hs' : r.failedFrom = some s := by simpa [PaymentRecord.moved, hto] using hs'
    rcases hs.stage_eq with ⟨hne, hstage⟩ | ⟨-, hw, hfrom⟩
    · obtain ⟨hw, hrank⟩ := hs.resumed hne s hs'
      exact ⟨hw, (hstage ▸ hrank).trans hle⟩
    · cases hfrom.symm.trans hs'
      exact ⟨hw, hle⟩
  attempts _ := by
    change (0 : UInt32).toNat + 1 < 2 ^ 32
    decide
  booked := by
    rw [stage_moved hto]
    exact hs.booked.mono hle
  journal p h := by
    rw [show (r.moved target).pending = r.pending from rfl, hp] at h
    cases h
  quarantine q h := by
    rw [show (r.moved target).quarantined = r.quarantined from rfl, hq] at h
    cases h
  settled h := ⟨(hf h).bought, (hf h).consolidated, (hf h).dust⟩

/-- A failed attempt of a record that is at least detected. -/
theorem recordFailure (hs : r.Sound) (hp : r.pending = none) (hr : 2 ≤ r.stage.rank) :
    (r.recordFailure text maxAttempts now).Sound := by
  obtain ⟨lastError, nextAttemptAt, ⟨hlt, heq⟩ | ⟨hcan, heq⟩⟩ :=
    r.recordFailure_cases text maxAttempts now
  · rw [heq]
    exact
      { hs with
        attempts := fun hw => by
          rcases hlt with hlt | hcan
          · have hmax := maxAttempts.toNat_lt
            rw [UInt32.lt_iff_toNat_lt] at hlt
            exact Nat.lt_of_le_of_lt hlt hmax
          · rw [PaymentState.Working.canFail hw] at hcan
            cases hcan
        booked := hs.booked
        journal := hs.journal
        settled := fun h => ⟨(hs.settled h).bought, (hs.settled h).consolidated,
          (hs.settled h).dust⟩ }
  · have hne : r.state ≠ .failed := by
      intro h
      rw [h] at hcan
      cases hcan
    rw [stage_of_ne hne] at hr
    have hw := PaymentState.working_of_rank hr hcan
    have hstage : (r.recordFailure text maxAttempts now).stage = r.stage := recordFailure_stage
    rw [heq] at hstage ⊢
    exact
      { hs with
        failed := fun _ => ⟨r.state, rfl, hw⟩
        resumed := fun h => absurd rfl h
        attempts := fun h => absurd rfl h.ne_failed
        booked := hstage ▸ hs.booked
        journal := fun p h => by
          rw [hp] at h
          cases h
        quarantine := fun q h => by
          rw [hs.quarantined_of_ne hne] at h
          cases h
        settled := fun h => by cases h }

/-- The fields read from the chain. -/
theorem detect (hs : r.Sound) {alpha tao : UInt64} (hne : r.state ≠ .settled) :
    { r with detectedAlpha := alpha, detectedTao := tao }.Sound :=
  { hs with booked := hs.booked, settled := fun h => absurd h hne }

theorem detectAlpha (hs : r.Sound) {alpha : UInt64} : { r with detectedAlpha := alpha }.Sound :=
  { hs with
    booked := hs.booked
    settled := fun h => ⟨(hs.settled h).bought, (hs.settled h).consolidated, (hs.settled h).dust⟩ }

end Sound

end PaymentRecord

variable [Ss58]

/-! ## Ledgers -/

/-- A ledger of the last stage may have everything. -/
theorem Booked.of_swept {l : Ledger} {budget : Option BuybackBudget} {done : Bool}
    (hb : l.Balanced) (ha : ∀ p ∈ l.sweptPositions, ∃ a, p.1 = ss58 a)
    (hp : ∀ b, l.buyback = some b → ∃ budget', budget = some budget' ∧ b.Pays budget')
    (hd : done = true → ∃ b budget', l.buyback = some b ∧ budget = some budget' ∧
      (budget'.destroy = .keep ∨ b.destroyTx.isSome = true)) :
    Booked l .swept budget done :=
  ⟨hb, ha, fun h => absurd h (by decide), fun h => absurd h (by decide), hp, hd⟩

namespace PaymentRecord.Sound

variable {r new : PaymentRecord} {p : PendingTx} {E : Engine} {e : Entry} {h : History rpc}

theorem booked_swept (hs : r.Sound) (hstate : r.state = .swept) :
    Booked r.ledger .swept r.buybackBudget r.buybackDone := by
  exact hs.booked.cast (stage_of_swept hstate).symm

/-- A swept record whose ledger changes while nothing is in flight. -/
theorem withLedger (hs : r.Sound) (hp : r.pending = none) (hstate : r.state = .swept) {n : ℕ}
    {d done : Bool}
    (hb : Booked { r.ledger with consolidated := n, dustReturned := d } .swept r.buybackBudget
      done) :
    { r with consolidated := n, dustReturned := d, buybackDone := done }.Sound := by
  have hne : r.state ≠ .failed := by rw [hstate]; decide
  have hq := hs.quarantined_of_ne hne
  exact
    { hs with
      booked := hb.cast (stage_of_swept hstate)
      journal := fun p h => by
        rw [hp] at h
        cases h
      quarantine := fun q h => by
        rw [hq] at h
        cases h
      settled := fun h => by
        rw [hstate] at h
        cases h }

/-- The dust flag of a swept record. -/
theorem dusted (hs : r.Sound) (hp : r.pending = none) (hstate : r.state = .swept) {d : Bool}
    (hd : r.dustReturned = true → d = true) : { r with dustReturned := d }.Sound := by
  have hb := hs.booked_swept hstate
  exact hs.withLedger hp hstate (.of_swept (hb.balanced.dust hd) hb.addresses hb.purchased
    hb.done_buyback)

/-- A new journal. -/
theorem withJournal (hs : r.Sound) (hne : r.state ≠ .failed)
    (hfits : Fits r.ledger r.buybackBudget r.stage p.action p.amount) :
    { r with pending := some p }.Sound :=
  { hs with
    booked := hs.booked
    journal := fun q h => by
      cases h
      exact ⟨hne, hs.quarantined_of_ne hne, hfits⟩
    settled := fun h => ⟨(hs.settled h).bought, (hs.settled h).consolidated, (hs.settled h).dust⟩ }

/-- A journal dropped without effect. -/
theorem dropped (hs : r.Sound) : { r with pending := none }.Sound :=
  { hs with
    booked := hs.booked
    journal := fun q h => by cases h
    settled := fun h => ⟨(hs.settled h).bought, (hs.settled h).consolidated, (hs.settled h).dust⟩ }

/-- The journal of what an engine builds. -/
theorem journaled (hs : r.Sound) (hd : E.Drives r) {r' : PaymentRecord} {action : Action}
    {call : ChainCall} {signer : Keypair} (hb : E.Builds h r r' action call signer)
    (tx : PreparedTx) (token : String) :
    { r' with pending := some (tx.journal action call token) }.Sound := by
  cases hb with
  | fund hstate hneed =>
      have hne : r.state ≠ .failed := by simp [hstate]
      exact hs.detectAlpha.withJournal hne (Fits.fund.cast ((stage_of_ne hne).trans hstate))
  | sweep hstate hnew =>
      have hne : r.state ≠ .failed := by simp [hstate]
      exact hs.withJournal hne ((Fits.sweep hnew).cast ((stage_of_ne hne).trans hstate))
  | @consolidate hotkey position live hstate _ hposition hparse =>
      obtain ⟨a, ha⟩ := hs.booked.addresses position (List.mem_of_getElem? hposition)
      have hhotkey : position.1 = ss58 hotkey := by
        rw [ha, parseSs58_ss58] at hparse
        cases hparse
        exact ha
      refine hs.withJournal (by simp [hstate]) (Fits.cast ?_ (stage_of_swept hstate))
      rw [← hhotkey]
      exact .consolidate hposition
  | returnDust hstate _ hdust =>
      exact hs.withJournal (by simp [hstate])
        ((Fits.returnDust hdust).cast (stage_of_swept hstate))
  | buyStake hstate _ hdust _ _ hbudget _ hbuyback _ _ =>
      exact (hs.dusted hd.pending hstate hdust.keeps).withJournal (by simp [hstate])
        ((Fits.buyStake hbudget hbuyback).cast (stage_of_swept hstate))
  | destroy hstate _ hdust _ _ hbudget hkeep hbuyback _ _ hopen =>
      refine (hs.dusted hd.pending hstate hdust.keeps).withJournal (by simp [hstate])
        (Fits.cast ?_ (stage_of_swept hstate))
      simp only [PreparedTx.journal, destroyCall_amount]
      exact .destroy hbudget hkeep hbuyback hopen

/-! ## Finalized extrinsics -/

/-- The ledger of a record that received a receipt. -/
def posted (r : PaymentRecord) (tx : TxRef) : Ledger :=
  { r.ledger with receipts := r.ledger.receipts ++ [tx] }

omit [Ss58] in
theorem ledger_receive (hq : r.quarantined = none) {tx : TxRef} {alpha : UInt64}
    {positions : List (String × UInt64)} {n : ℕ} {d done : Bool} {b : Option BuybackReceipt} :
    ({ r with
      pending := none, sweptAlpha := alpha, sweptPositions := positions, consolidated := n
      dustReturned := d, buyback := b, buybackDone := done }.receive tx).ledger =
      { posted r tx with
        sweptAlpha := alpha, sweptPositions := positions, consolidated := n, dustReturned := d
        buyback := b } := by
  simp [ledger, receive, posted, hq]

/-- A receipt with its effect, at the same stage. -/
theorem received (hs : r.Sound) (hp : r.pending = some p) {tx : TxRef} {alpha : UInt64}
    {positions : List (String × UInt64)} {n : ℕ} {d done : Bool} {b : Option BuybackReceipt}
    (hb : Booked
      { posted r tx with
        sweptAlpha := alpha, sweptPositions := positions, consolidated := n, dustReturned := d
        buyback := b } r.stage r.buybackBudget done) :
    ({ r with
      pending := none, sweptAlpha := alpha, sweptPositions := positions, consolidated := n
      dustReturned := d, buyback := b, buybackDone := done }.receive tx).Sound := by
  obtain ⟨hne, hq, hfits⟩ := hs.journal p hp
  exact
    { hs with
      attempts := fun _ => by
        change (0 : UInt32).toNat + 1 < 2 ^ 32
        decide
      booked := hb.congr (ledger_receive hq)
      journal := fun q h => by cases h
      quarantine := fun q h => by
        rw [show _ = r.quarantined from rfl, hq] at h
        cases h
      settled := fun h => by
        have hw := hs.working_of_pending hp
        rw [show r.state = .settled from h] at hw
        rcases hw with h | h | h <;> cases h }

omit [Ss58] in
theorem ledger_funded (hq : r.quarantined = none) {tx : TxRef} :
    (({ r with pending := none, fundedTao := r.fundedTao + tx.amount }.moved .funded).receive
      tx).ledger = { posted r tx with fundedTao := r.fundedTao + tx.amount } := by
  simp [ledger, receive, posted, hq, PaymentRecord.moved]

/-- The fees have arrived. -/
theorem fundArrived (hs : r.Sound) (hp : r.pending = some p) {tx : TxRef}
    (hstate : r.state = .detected) (htx : tx.action = "transfer_keep_alive") :
    (({ r with pending := none, fundedTao := r.fundedTao + tx.amount }.moved .funded).receive
      tx).Sound := by
  obtain ⟨hne, hq, -⟩ := hs.journal p hp
  have hb := hs.booked
  have hstage : r.stage = .detected := (stage_of_ne hne).trans hstate
  have hempty := hb.unfunded (by rw [hstage]; decide)
  exact
    { hs with
      failed := fun h => by cases h
      resumed := fun _ s hf => by
        have hf : r.failedFrom = some s := hf
        obtain ⟨hw, hle⟩ := hs.resumed hne s hf
        rw [hstate] at hle
        exact ⟨hw, hle.trans (Nat.le_succ 2)⟩
      attempts := fun _ => by
        change (0 : UInt32).toNat + 1 < 2 ^ 32
        decide
      booked := by
        refine Booked.congr ?_ (ledger_funded hq)
        refine ⟨hb.balanced.fund htx (by rw [hempty.1]; rfl), hb.addresses,
          fun h => absurd (show 3 ≤ 2 from h) (by decide), fun _ => ?_, hb.purchased,
          hb.done_buyback⟩
        exact hb.unswept (by rw [hstage]; decide)
      journal := fun q h => by cases h
      quarantine := fun q h => by
        rw [show _ = r.quarantined from rfl, hq] at h
        cases h
      settled := fun h => by cases h }

theorem applied (hs : r.Sound) (hp : r.pending = some p) {blockHash : String} {s : EventSummary}
    (hbh : blockHash ≠ "") (ha : Applies r (p.receipt blockHash) s p.action new) :
    new.Sound := by
  obtain ⟨hne, hq, hfits⟩ := hs.journal p hp
  have hb := hs.booked
  have hname : (p.receipt blockHash).action = actionName p.action := rfl
  have hamount : (p.receipt blockHash).amount = p.amount := rfl
  have hhash : (p.receipt blockHash).blockHash = blockHash := rfl
  generalize p.receipt blockHash = tx at ha hname hamount hhash
  generalize p.action = action at ha hname hfits
  generalize p.amount = amount at hamount hfits
  have hstage := stage_of_ne hne
  generalize hst : r.stage = stage at hfits
  cases hfits with
  | fund =>
      cases ha with
      | fund _ _ => exact hs.fundArrived hp (hstage.symm.trans hst) hname
  | @sweep hotkey _ hnew =>
      cases ha with
      | sweep _ =>
          have hun := hb.unswept (by rw [hst]; decide)
          refine hs.received hp ⟨hb.balanced.sweep hname hnew, ?_, ?_, fun _ => hun, hb.purchased,
            hb.done_buyback⟩
          · intro q hq
            rcases List.mem_append.mp hq with hq | hq
            · exact hb.addresses q hq
            · rw [List.mem_singleton.mp hq]
              exact ⟨hotkey, rfl⟩
          · intro h
            rw [hst] at h
            exact absurd h (by decide)
  | consolidate hposition =>
      cases ha with
      | consolidate =>
          have hlt := (List.getElem?_eq_some_iff.mp hposition).1
          refine hs.received hp (Booked.cast ?_ hst)
          exact .of_swept (hb.balanced.consolidate hname hlt) hb.addresses hb.purchased
            hb.done_buyback
  | returnDust hdust =>
      cases ha with
      | returnDust =>
          refine hs.received hp (Booked.cast ?_ hst)
          exact .of_swept (hb.balanced.returnDust hname hdust) hb.addresses hb.purchased
            hb.done_buyback
  | @buyStake budget limitPrice hbudget hbuyback =>
      cases ha with
      | @buyStake _ _ alpha _ halpha =>
          refine hs.received hp (Booked.cast ?_ hst)
          refine .of_swept (hb.balanced.buyStake hname hbuyback rfl) hb.addresses ?_ ?_
          · rintro b ⟨⟩
            exact ⟨budget, hbudget, hamount, rfl, halpha, hhash ▸ hbh, .inl ⟨rfl, rfl⟩⟩
          · intro hdone
            obtain ⟨b, -, hsome, -⟩ := hb.done_buyback hdone
            rw [show r.ledger.buyback = none from hbuyback] at hsome
            cases hsome
  | @destroy budget receipt hbudget hkeep hbuyback hopen =>
      cases ha with
      | @destroy _ _ b _ hold hbought =>
          have hsame : b = receipt := Option.some.inj (hold.symm.trans hbuyback)
          subst hsame
          refine hs.received hp (Booked.cast ?_ hst)
          have htx : tx.action = "burn_alpha" ∨ tx.action = "recycle_alpha" := by
            rw [hname]
            cases (budget.destroy == .recycle) <;> simp [actionName]
          obtain ⟨budget', hbudget', hpays⟩ := hb.purchased b hbuyback
          cases hbudget.symm.trans hbudget'
          refine .of_swept (hb.balanced.destroy htx hbuyback hopen rfl) hb.addresses ?_ ?_
          · rintro b' ⟨⟩
            refine ⟨budget, hbudget, hpays.taoSpent, hpays.netuid, hpays.alphaBought,
              hpays.finalized, .inr ⟨tx, rfl, rfl, hhash ▸ hbh, hkeep, ?_⟩⟩
            rw [hname]
            cases hd : budget.destroy with
            | keep => exact absurd hd hkeep
            | burn => rfl
            | recycle => rfl
          · exact fun _ => ⟨_, budget, rfl, hbudget, .inr rfl⟩

/-- A finalized receipt that does not fit is kept with its extrinsic, and the record
fails. -/
theorem quarantine_eq (hs : r.Sound) (hp : r.pending = some p) (blockHash : String) (err : Error)
    (now : UInt64) : ∃ lastError nextAttemptAt, r.quarantine p blockHash err now =
      { r with
        pending := none, quarantined := some p, txs := r.txs ++ [p.receipt blockHash]
        attempts := r.attempts + 1, lastError := lastError, nextAttemptAt := nextAttemptAt
        failedFrom := some r.state, state := .failed } := by
  have hw := hs.working_of_pending hp
  exact recordFailure_one hw (hs.attempts hw)

omit [Ss58] in
theorem ledger_quarantine (hq : r.quarantined = none) {tx : TxRef} {attempts : UInt32}
    {lastError : Option String} {nextAttemptAt : UInt64} {failedFrom : Option PaymentState} :
    ({ r with
      pending := none, quarantined := some p, txs := r.txs ++ [tx], attempts := attempts
      lastError := lastError, nextAttemptAt := nextAttemptAt, failedFrom := failedFrom
      state := .failed } : PaymentRecord).ledger = r.ledger := by
  simp [ledger, hq]

theorem quarantined (hs : r.Sound) (hp : r.pending = some p) {blockHash : String}
    {s : EventSummary} {err : Error} (herr : r.apply (p.receipt blockHash) s = .error err)
    (now : UInt64) : (r.quarantine p blockHash err now).Sound := by
  obtain ⟨hne, hq, hfits⟩ := hs.journal p hp
  have hw := hs.working_of_pending hp
  obtain ⟨lastError, nextAttemptAt, heq⟩ := hs.quarantine_eq hp blockHash err now
  have hstage : r.state = r.stage := (stage_of_ne hne).symm
  rw [heq]
  exact
    { hs with
      failed := fun _ => ⟨r.state, rfl, hw⟩
      resumed := fun h => absurd rfl h
      attempts := fun h => absurd rfl h.ne_failed
      booked := (hs.booked.congr (ledger_quarantine hq)).cast hstage
      journal := fun q h => by cases h
      quarantine := fun q h => by
        cases h
        refine ⟨rfl, fun hfund => ?_, ?_, r.txs, blockHash, rfl⟩
        · have hstate : r.state = .detected := by
            rw [hstage]
            rw [hfund] at hfits
            generalize r.stage = stage at hfits
            cases hfits
            rfl
          obtain ⟨new, hnew⟩ : ∃ new, r.apply (p.receipt blockHash) s = .ok new :=
            apply_fund hp hfund hstate
          rw [hnew] at herr
          cases herr
        · rw [ledger_quarantine hq]
          exact hfits.cast hstage
      settled := fun h => by cases h }

end PaymentRecord.Sound

/-! ## Every write -/

/-- What the process knows about the versions of a record it has seen. -/
structure Knows (h : History rpc) (r : PaymentRecord) : Prop where
  older : ∀ r₀, Seen h r₀ → r₀.id = r.id → r₀.stage.rank ≤ r.stage.rank
  gets : ∀ id r', ⟨.store (.get id), .ok (some r')⟩ ∈ h → r'.id = id

namespace PaymentRecord.Sound

variable {r new : PaymentRecord} {p : PendingTx} {E : Engine} {e : Entry} {h : History rpc}

theorem tick (hs : r.Sound) (hk : Knows h r) (hw : E.Writes h r new) : new.Sound := by
  have hstage {s : PaymentState} (hstate : r.state = s) (hne : s ≠ .failed) : r.stage = s :=
    (stage_of_ne (hstate ▸ hne)).trans hstate
  cases hw with
  | detected hd hstate _ _ =>
      refine (hs.detect (by simp [hstate])).moved hd.pending hd.quarantined (by decide) ?_ nofun
      exact (hstage hstate (by decide)).symm ▸ Nat.zero_le _
  | expired hd hstate =>
      refine hs.detectAlpha.moved hd.pending hd.quarantined (by decide) ?_ nofun
      exact (hstage hstate (by decide)).symm ▸ Nat.zero_le _
  | funded hd hstate =>
      refine hs.detectAlpha.moved hd.pending hd.quarantined (by decide) ?_ nofun
      exact (hstage hstate (by decide)).symm ▸ (by decide : PaymentState.detected.rank ≤ _)
  | swept hd hstate =>
      refine hs.moved hd.pending hd.quarantined (by decide) ?_ nofun
      exact (hstage hstate (by decide)).symm ▸ (by decide : PaymentState.funded.rank ≤ _)
  | consolidated hd hstate _ hlt =>
      have hb := hs.booked_swept hstate
      exact hs.withLedger hd.pending hstate (.of_swept (hb.balanced.skip hlt) hb.addresses
        hb.purchased hb.done_buyback)
  | bought hd hstate hdust hreq hb =>
      have hbooked := hs.booked_swept hstate
      refine hs.withLedger hd.pending hstate (.of_swept (hbooked.balanced.dust hdust.keeps)
        hbooked.addresses hbooked.purchased fun _ => ?_)
      exact ⟨_, _, hb.buyback_eq, hb.budget_eq, hb.complete⟩
  | settled hd hstate hcons hdust hdone =>
      refine (hs.dusted hd.pending hstate hdust.keeps).moved hd.pending hd.quarantined (by decide)
        ((stage_of_swept hstate).symm ▸ (by decide : PaymentState.swept.rank ≤ _)) fun _ => ?_
      refine ⟨fun hbudget => ?_, fun i hi hconsolidate => ?_, fun i hi hreturn => ?_⟩
      · refine (hdone ?_).1
        rw [hs.required, hbudget]
      · cases hd.identity.symm.trans hi
        exact le_antisymm (hs.booked.balanced.consolidated) (hcons hconsolidate)
      · cases hd.identity.symm.trans hi
        exact hdust.done.resolve_right (not_not.mpr hreturn)
  | applied hp _ hbh _ happly => exact hs.applied hp hbh (apply_ok happly hp)
  | dead _ _ => exact hs.dropped
  | failedOnChain hp _ _ =>
      refine hs.dropped.recordFailure rfl ?_
      exact (hs.journal _ hp).2.2.working.two_le_rank
  | quarantined hp _ _ herr => exact hs.quarantined hp herr _
  | attempted hp hseen hworking hget =>
      refine hs.recordFailure hp ?_
      have hid := hk.gets _ _ hget
      have hle := hk.older _ hseen hid.symm
      rw [stage_of_ne hworking.ne_failed] at hle
      exact hworking.two_le_rank.trans hle
  | notified hstate =>
      exact
        { hs with
          booked := hs.booked
          settled := fun h => ⟨(hs.settled h).bought, (hs.settled h).consolidated,
            (hs.settled h).dust⟩ }
  | postponed hstate =>
      exact
        { hs with
          booked := hs.booked
          settled := fun h => ⟨(hs.settled h).bought, (hs.settled h).consolidated,
            (hs.settled h).dust⟩ }

/-- A retry resumes a failed record in the state it failed in, or opens a record
that was not paid. -/
theorem retry_cases (hs : r.Sound) (hcan : r.state.canTransition r.retryTarget = true) :
    r.state = .failed ∧ r.retryTarget = r.stage ∧ r.stage.Working ∨
      (r.state = .pending ∨ r.state = .expired) ∧ r.retryTarget = .detected := by
  rcases hs.stage_eq with ⟨hne, -⟩ | ⟨hf, hw, hfrom⟩
  · right
    cases hfrom : r.failedFrom with
    | none =>
        have ht : r.retryTarget = .detected := by simp [retryTarget, hfrom]
        rw [ht] at hcan
        refine ⟨?_, ht⟩
        cases hstate : r.state <;> simp_all [PaymentState.canTransition]
    | some s =>
        obtain ⟨hw, hle⟩ := hs.resumed hne s hfrom
        have ht : r.retryTarget = s := by
          rcases hw with rfl | rfl | rfl <;> simp [retryTarget, hfrom]
        rw [ht] at hcan
        rcases hw with rfl | rfl | rfl <;> cases hstate : r.state <;>
          simp_all [PaymentState.canTransition, PaymentState.rank]
  · refine .inl ⟨hf, ?_, hw⟩
    have hne : r.stage ≠ .pending := by rcases hw with h | h | h <;> rw [h] <;> decide
    simp only [retryTarget, hfrom]

/-- A forced sweep opens a record that was not paid, or resumes a detected one. -/
theorem forceSweep_cases (hs : r.Sound) (hcan : r.state.canTransition .detected = true)
    (hresume : r.ResumeOk .detected) :
    (r.state = .pending ∨ r.state = .expired) ∨ r.state = .failed ∧ r.stage = .detected := by
  rcases hs.stage_eq with ⟨hne, -⟩ | ⟨hf, hw, hfrom⟩
  · left
    cases hstate : r.state <;> simp_all [PaymentState.canTransition]
  · right
    refine ⟨hf, ?_⟩
    rcases hresume with h | h | ⟨h, -⟩
    · exact absurd hf h
    · exact Option.some.inj (hfrom.symm.trans h)
    · rw [Option.some.inj (hfrom.symm.trans h)] at hw
      rcases hw with h | h | h <;> cases h

theorem pending_of_unpaid (hs : r.Sound) (h : r.state = .pending ∨ r.state = .expired) :
    r.pending = none ∧ r.quarantined = none ∧ r.stage.rank ≤ 1 := by
  have hne : r.state ≠ .failed := by rcases h with h | h <;> rw [h] <;> decide
  refine ⟨?_, hs.quarantined_of_ne hne, ?_⟩
  · cases hp : r.pending with
    | none => rfl
    | some p =>
        have := hs.working_of_pending hp
        rcases h with h | h <;> rw [h] at this <;> rcases this with h | h | h <;> cases h
  · rw [stage_of_ne hne]
    rcases h with h | h <;> rw [h] <;> decide

/-- A record that failed while it was detected is not quarantined. -/
theorem quarantined_of_detected (hs : r.Sound) (h : r.stage = .detected) :
    r.quarantined = none := by
  cases hq : r.quarantined with
  | none => rfl
  | some q =>
      obtain ⟨-, hfund, hfits, -⟩ := hs.quarantine q hq
      rw [h] at hfits
      generalize q.action = action at hfits hfund
      cases hfits
      exact absurd rfl hfund

theorem retry (hs : r.Sound) (hq : r.quarantined = none)
    (hcan : r.state.canTransition r.retryTarget = true) : (r.moved r.retryTarget).Sound := by
  rcases hs.retry_cases hcan with ⟨hf, ht, hw⟩ | ⟨hunpaid, ht⟩
  · rw [ht]
    refine hs.moved (hs.pending_of_failed hf) hq hw.ne_failed le_rfl fun h => ?_
    rw [h] at hw
    rcases hw with h | h | h <;> cases h
  · obtain ⟨hp, -, hle⟩ := hs.pending_of_unpaid hunpaid
    rw [ht]
    exact hs.moved hp hq (by decide) (hle.trans (by decide)) nofun

theorem forceSweep (hs : r.Sound) (hcan : r.state.canTransition .detected = true)
    (hresume : r.ResumeOk .detected) : (r.moved .detected).Sound := by
  rcases hs.forceSweep_cases hcan hresume with hunpaid | ⟨hf, hstage⟩
  · obtain ⟨hp, hq, hle⟩ := hs.pending_of_unpaid hunpaid
    exact hs.moved hp hq (by decide) (hle.trans (by decide)) nofun
  · exact hs.moved (hs.pending_of_failed hf) (hs.quarantined_of_detected hstage) (by decide)
      (hstage ▸ le_rfl) nofun

/-- Every write over a sound record is sound. -/
theorem writes (hs : r.Sound) (hk : Knows h r) (hw : e.Writes h r new) : new.Sound := by
  cases hw with
  | tick _ hw => exact hs.tick hk hw
  | journal hd hb _ _ => exact hs.journaled hd hb _ _
  | retry _ _ hq hcan _ => exact hs.retry hq hcan
  | forceSweep _ _ hcan hresume => exact hs.forceSweep hcan hresume

theorem stamped (hs : r.Sound) (t : UInt64) : (r.stamped t).Sound :=
  { hs with
    booked := hs.booked
    settled := fun h => ⟨(hs.settled h).bought, (hs.settled h).consolidated, (hs.settled h).dust⟩ }

/-- A record with nothing done, pending or detected, is sound. -/
theorem fresh {s : PaymentState} (hstate : r.state = s) (hs : s = .pending ∨ s = .detected)
    (hreq : r.autoRequired = some r.buybackBudget.isSome)
    (hvalid : ∀ b, r.buybackBudget = some b → b.validate = .ok ()) (hid : r.identity ≠ none)
    (hfrom : r.failedFrom = none) (hattempts : r.attempts = 0) (hp : r.pending = none)
    (hq : r.quarantined = none) (hledger : r.ledger = ⟨[], 0, 0, [], 0, false, none⟩)
    (hdone : r.buybackDone = false) : r.Sound where
  required := hreq
  valid := hvalid
  identified := hid
  failed h := by
    rw [hstate] at h
    rcases hs with rfl | rfl <;> cases h
  resumed _ s hs' := by
    rw [hfrom] at hs'
    cases hs'
  attempts _ := by
    rw [hattempts]
    decide
  booked := by
    rw [hledger, hdone]
    exact ⟨Ledger.balanced_nil, nofun, fun _ => ⟨rfl, rfl⟩, fun _ => ⟨rfl, rfl, rfl, rfl⟩,
      nofun, nofun⟩
  journal p h := by
    rw [hp] at h
    cases h
  quarantine q h := by
    rw [hq] at h
    cases h
  settled h := by
    rw [hstate] at h
    rcases hs with rfl | rfl <;> cases h

/-- A new record is sound. -/
theorem created (hc : e.Creates r) : r.Sound := by
  cases hc with
  | payment hvalid => exact fresh rfl (.inl rfl) rfl hvalid nofun rfl rfl rfl rfl rfl rfl
  | sweep hvalid => exact fresh rfl (.inr rfl) rfl hvalid nofun rfl rfl rfl rfl rfl rfl

end PaymentRecord.Sound

end Buyback
