import Buyback.System.Processes

/-!
# What a process may do

The guarantee of each entry, as a condition on its next request after its own
history.  `Builds` lists the extrinsics an engine builds, and `Writes` the records
it writes, each with what the process knows at that point.  Both are stated over
the record the process read, and not over the stored one: that the two agree is
the work of the store's version check.

A reservation is followed by the preparation, and the preparation by a
cancellation or by the journal.  `Sending` states this order.
-/

namespace Buyback

open Resumption

/-! ## What a process knows -/

/-- An answer that shows a record: a read, or the process's own write. -/
inductive Shows : Event rpc → PaymentRecord → Prop where
  | get {id : String} {r : PaymentRecord} : Shows ⟨.store (.get id), .ok (some r)⟩ r
  | list {states : List PaymentState} {rs : List PaymentRecord} {r : PaymentRecord} :
      r ∈ rs → Shows ⟨.store (.list states), .ok rs⟩ r
  | update {r : PaymentRecord} {t : UInt64} :
      Shows ⟨.store (.update r), .ok t⟩ (r.stamped t)

/-- A record the process has seen. -/
def Seen (h : History rpc) (r : PaymentRecord) : Prop := ∃ e ∈ h, Shows e r

theorem Seen.cons {h : History rpc} {r : PaymentRecord} (hs : Seen h r) (ev : Event rpc) :
    Seen (ev :: h) r := by
  obtain ⟨e, he, hr⟩ := hs
  exact ⟨e, .tail _ he, hr⟩

theorem Seen.mono {h h' : History rpc} {r : PaymentRecord} (hs : Seen h r) (hh : h <:+ h') :
    Seen h' r := by
  obtain ⟨e, he, hr⟩ := hs
  exact ⟨e, hh.subset he, hr⟩

/-- The process saw the extrinsic `p` in the finalized block `blockHash` with the
summary `s`: through its own broadcast, or by looking for it. -/
inductive Landed (h : History rpc) (p : PendingTx) (blockHash : String) (s : EventSummary) :
    Prop where
  | broadcast {tx : PreparedTx} {evs : Events} :
      ⟨.chain (.waitForSuccess tx), .ok (blockHash, evs)⟩ ∈ h →
      tx.txHash = p.txHash →
      EventSummary.fromEvents evs = .ok s →
      Landed h p blockHash s
  | found : ⟨.chain (.findPending p), .ok (.included blockHash s)⟩ ∈ h → Landed h p blockHash s

/-- The process read the chain for the payment `r` and found `alpha` on its
netuid, and `tao` if the record asks for it. -/
structure Observed [Ss58] (h : History rpc) (r : PaymentRecord) (alpha tao : UInt64) : Prop where
  alpha_eq : ∃ who coldkeys positions, parseSs58 r.address = .ok who ∧ who ∈ coldkeys ∧
    ⟨.chain (.stakePositionsMany coldkeys), .ok positions⟩ ∈ h ∧
    alpha = positions.alphaOf who r.netuid
  tao_eq : r.minTao.isSome → ∃ who, parseSs58 r.address = .ok who ∧
    ⟨.chain (.freeBalance who), .ok tao⟩ ∈ h

/-- The observed amounts reach a minimum of the payment. -/
def PaymentRecord.PaidBy (r : PaymentRecord) (alpha tao : UInt64) : Prop :=
  r.minAlpha ≤ alpha ∨ ∃ m, r.minTao = some m ∧ m ≤ tao

/-! ## What an engine builds -/

/-- The states in which an engine sends extrinsics. -/
def PaymentState.Working (s : PaymentState) : Prop := s = .detected ∨ s = .funded ∨ s = .swept

variable [Ss58]

/-- The checks of `step` that let an engine work on a record without a journal. -/
structure Engine.Drives (E : Engine) (r : PaymentRecord) : Prop where
  identity : r.identity = some E.jobIdentity
  quarantined : r.quarantined = none
  pending : r.pending = none
  policy : ∃ required, r.autoRequired = some required ∧
    (required = true → r.buybackBudget.isSome)

/-- Part 1 of `step_swept` is over. -/
def Engine.Consolidated (E : Engine) (r : PaymentRecord) : Prop :=
  E.cfg.consolidate = true → r.sweptPositions.length ≤ r.consolidated

/-- Part 2 of `step_swept` is over, with `d` for the flag of the record. -/
structure Engine.Dusted (E : Engine) (r : PaymentRecord) (d : Bool) : Prop where
  keeps : r.dustReturned = true → d = true
  done : d = true ∨ ¬ (E.cfg.returnDust = true ∨ 0 < r.detectedTao)

/-- `E.Builds h r r' action call signer`: after the history `h`, the engine builds
`call` for `action` on the record `r`, which it has changed to `r'` in memory. -/
inductive Engine.Builds (E : Engine) (h : History rpc) (r : PaymentRecord) :
    PaymentRecord → Action → ChainCall → Keypair → Prop where
  | fund {alpha need : UInt64} {wallet : Keypair} :
      r.state = .detected →
      need ≠ 0 →
      E.Builds h r { r with detectedAlpha := alpha } .fund (.transferTao wallet need) E.treasury
  | sweep {hotkey : AccountId32} {alpha : UInt64} {wallet : Keypair} :
      r.state = .funded →
      ss58 hotkey ∉ r.sweptPositions.map Prod.fst →
      E.Builds h r r (.sweep (ss58 hotkey)) (.transferStake E.treasury hotkey r.netuid alpha) wallet
  | consolidate {hotkey : AccountId32} {position : String × UInt64} {live : UInt64} :
      r.state = .swept →
      E.cfg.consolidate = true →
      r.sweptPositions[r.consolidated]? = some position →
      parseSs58 position.1 = .ok hotkey →
      E.Builds h r r (.consolidate (ss58 hotkey))
        (.moveStake hotkey E.cfg.treasuryHotkey r.netuid live) E.treasury
  | returnDust {wallet : Keypair} :
      r.state = .swept →
      E.Consolidated r →
      r.dustReturned = false →
      E.Builds h r r .returnDust (.transferAll E.treasury) wallet
  | buyStake {d : Bool} {budget : BuybackBudget} {hotkey : AccountId32}
      {free ed price : UInt64} {rest : History rpc} :
      r.state = .swept →
      E.Consolidated r →
      E.Dusted r d →
      r.autoRequired = some true →
      r.buybackDone = false →
      r.buybackBudget = some budget →
      budget.validate = .ok () →
      r.buyback = none →
      h = ⟨.chain (.alphaPrice budget.netuid), .ok price⟩ ::
        ⟨.chain .existentialDeposit, .ok ed⟩ ::
        ⟨.chain (.freeBalance E.treasury), .ok free⟩ :: rest →
      strictBuybackAmount budget.amountRao (Buyback.spendable free E.cfg.feeReserve ed) =
        .ok budget.amountRao →
      E.Builds h r { r with dustReturned := d }
        (.buyStake budget.netuid (buyLimitPrice price E.cfg.slippageBps))
        (.addStakeLimit hotkey budget.netuid budget.amountRao
          (buyLimitPrice price E.cfg.slippageBps) false) E.treasury
  | destroy {d : Bool} {budget : BuybackBudget} {hotkey : AccountId32} {b : BuybackReceipt} :
      r.state = .swept →
      E.Consolidated r →
      E.Dusted r d →
      r.autoRequired = some true →
      r.buybackDone = false →
      r.buybackBudget = some budget →
      budget.destroy ≠ .keep →
      r.buyback = some b →
      b.taoSpent = budget.amountRao →
      b.netuid = budget.netuid →
      b.destroyTx = none →
      E.Builds h r { r with dustReturned := d }
        (.destroy budget.netuid (budget.destroy == .recycle))
        (destroyCall budget.destroy hotkey budget.netuid b.alphaBought) E.treasury

/-- What a job keeps in memory, when an engine builds an extrinsic for it. -/
theorem Engine.Builds.keeps {E : Engine} {h : History rpc} {r r' : PaymentRecord}
    {action : Action} {call : ChainCall} {signer : Keypair}
    (hb : E.Builds h r r' action call signer) : r'.id = r.id ∧ r'.version = r.version ∧
      r'.buybackBudget = r.buybackBudget ∧ r'.autoRequired = r.autoRequired ∧
      r'.identity = r.identity := by
  cases hb <;> exact ⟨rfl, rfl, rfl, rfl, rfl⟩

/-! ## What a process writes -/

/-- A receipt of `r`'s finished buyback that lets `step_auto_buyback` set the flag. -/
structure PaymentRecord.Bought (r : PaymentRecord) (budget : BuybackBudget) (b : BuybackReceipt) :
    Prop where
  budget_eq : r.buybackBudget = some budget
  buyback_eq : r.buyback = some b
  taoSpent : b.taoSpent = budget.amountRao
  netuid : b.netuid = budget.netuid
  alphaBought : b.alphaBought ≠ 0
  destroyed : b.destroyTx.isSome → b.alphaDestroyed = b.alphaBought
  complete : budget.destroy = .keep ∨ b.destroyTx.isSome

/-- `E.Writes h r new`: after the history `h`, in which the process saw `r`, a tick
of the engine may ask the store to write `new`. -/
inductive Engine.Writes (E : Engine) (h : History rpc) (r : PaymentRecord) :
    PaymentRecord → Prop where
  | detected {alpha tao tao' : UInt64} :
      E.Drives r →
      r.state = .pending →
      Observed h r alpha tao →
      r.PaidBy alpha tao →
      E.Writes h r ({ r with detectedAlpha := alpha, detectedTao := tao' }.moved .detected)
  | expired {alpha tao t : UInt64} {rest : History rpc} :
      E.Drives r →
      r.state = .pending →
      h = ⟨.host .now, t⟩ :: rest →
      r.expiresAt < t →
      Observed rest r alpha tao →
      ¬ r.PaidBy alpha tao →
      E.Writes h r ({ r with detectedAlpha := alpha }.moved .expired)
  | funded {alpha : UInt64} :
      E.Drives r →
      r.state = .detected →
      E.Writes h r ({ r with detectedAlpha := alpha }.moved .funded)
  | swept :
      E.Drives r →
      r.state = .funded →
      E.Writes h r (r.moved .swept)
  | consolidated :
      E.Drives r →
      r.state = .swept →
      E.cfg.consolidate = true →
      r.consolidated < r.sweptPositions.length →
      E.Writes h r { r with consolidated := r.consolidated + 1 }
  | bought {d : Bool} {budget : BuybackBudget} {b : BuybackReceipt} :
      E.Drives r →
      r.state = .swept →
      E.Dusted r d →
      r.autoRequired = some true →
      r.Bought budget b →
      E.Writes h r { r with dustReturned := d, buybackDone := true }
  | settled {d : Bool} :
      E.Drives r →
      r.state = .swept →
      E.Consolidated r →
      E.Dusted r d →
      (r.autoRequired = some true →
        r.buybackDone = true ∧ validateCompletedBuyback r = .ok ()) →
      E.Writes h r ({ r with dustReturned := d }.moved .settled)
  | applied {new : PaymentRecord} {p : PendingTx} {blockHash : String} {s : EventSummary} :
      r.pending = some p →
      Landed h p blockHash s →
      blockHash ≠ "" →
      s.failed = false →
      r.apply (p.receipt blockHash) s = .ok new →
      E.Writes h r new
  | dead {p : PendingTx} :
      r.pending = some p →
      ⟨.chain (.findPending p), .ok .dead⟩ ∈ h →
      E.Writes h r { r with pending := none }
  | failedOnChain {p : PendingTx} {blockHash : String} {s : EventSummary} {t : UInt64} :
      r.pending = some p →
      Landed h p blockHash s →
      s.failed = true →
      E.Writes h r (r.failedOnChain E.cfg.maxAttempts t)
  | quarantined {p : PendingTx} {blockHash : String} {s : EventSummary} {e : Error} {t : UInt64} :
      r.pending = some p →
      Landed h p blockHash s →
      s.failed = false →
      r.apply (p.receipt blockHash) s = .error e →
      E.Writes h r (r.quarantine p blockHash e t)
  | attempted {r₀ : PaymentRecord} {text : String} {t : UInt64} :
      r.pending = none →
      Seen h r₀ →
      r₀.state.Working →
      ⟨.store (.get r₀.id), .ok (some r)⟩ ∈ h →
      E.Writes h r (r.recordFailure text E.cfg.maxAttempts t)
  | notified :
      r.state = .settled →
      E.Writes h r { r with notified := true }
  | postponed {t : UInt64} :
      r.state = .settled →
      E.Writes h r { r with nextAttemptAt := t }

/-- The process holds no reservation that it has to journal or to cancel. -/
def Idle : History rpc → Prop
  | ⟨.store (.reserveSignerForRecord ..), .ok _⟩ :: _ => False
  | ⟨.chain (.prepare ..), _⟩ :: _ => False
  | _ => True

/-- What the program of an entry asks the store to write over the record `r`. -/
inductive Entry.Writes : Entry → History rpc → PaymentRecord → PaymentRecord → Prop where
  | tick {E : Engine} {h : History rpc} {r new : PaymentRecord} :
      Idle h →
      E.Writes h r new →
      Entry.Writes (.tick E) h r new
  | journal {E : Engine} {h : History rpc} {r r' : PaymentRecord} {action : Action}
      {call : ChainCall} {signer : Keypair} {token : String} {tx : PreparedTx} :
      E.Drives r →
      E.Builds h r r' action call signer →
      tx.call = call →
      tx.signer = ss58 signer →
      Entry.Writes (.tick E)
        (⟨.chain (.prepare call signer), .ok tx⟩ ::
          ⟨.store (.reserveSignerForRecord (ss58 signer) r'), .ok token⟩ :: h)
        r { r' with pending := some (tx.journal action call token) }
  | retry {id : String} {h : History rpc} {r : PaymentRecord} :
      Idle h →
      ⟨.store (.get id), .ok (some r)⟩ ∈ h →
      r.quarantined = none →
      r.state.canTransition r.retryTarget = true →
      r.ResumeOk r.retryTarget →
      Entry.Writes (.retry id) h r (r.moved r.retryTarget)
  | forceSweep {id : String} {h : History rpc} {r : PaymentRecord} :
      Idle h →
      ⟨.store (.get id), .ok (some r)⟩ ∈ h →
      r.state.canTransition .detected = true →
      r.ResumeOk .detected →
      Entry.Writes (.forceSweep id) h r (r.moved .detected)

/-- The records the program of an entry inserts. -/
inductive Entry.Creates : Entry → PaymentRecord → Prop where
  | payment {E : Engine} {opts : CreatePayment} {id address : String} {sealed : SealedSecret}
      {t : UInt64} :
      (∀ b, E.cfg.buybackBudget = some b → b.validate = .ok ()) →
      Entry.Creates (.createPayment E opts) (E.paymentRecord opts id address sealed t)
  | sweep {E : Engine} {id address path expectedAddress : String} {metadata : Option String}
      {sealed : SealedSecret} {t : UInt64} :
      (∀ b, E.cfg.buybackBudget = some b → b.validate = .ok ()) →
      Entry.Creates (.createSweepJob E id path expectedAddress metadata)
        (E.sweepRecord id address path metadata sealed t)

/-- Requests any process may make at any time it holds no reservation. -/
def Op.Plain : Op → Prop
  | .store .requireSigning | .store (.get _) | .store (.list _) => True
  | .chain (.prepare ..) | .chain (.submitAndWatch _) => False
  | .chain _ | .host _ => True
  | .store _ => False

/-- The requests an entry may make after its own history. -/
inductive Entry.Allows : Entry → History rpc → Op → Prop where
  | plain {e : Entry} {h : History rpc} {o : Op} : Idle h → o.Plain → e.Allows h o
  | insert {e : Entry} {h : History rpc} {r : PaymentRecord} :
      Idle h → e.Creates r → e.Allows h (.store (.insert r))
  | update {e : Entry} {h : History rpc} {r new : PaymentRecord} :
      Seen h r → e.Writes h r new → e.Allows h (.store (.update new))
  | reserve {E : Engine} {h : History rpc} {r r' : PaymentRecord} {action : Action}
      {call : ChainCall} {signer : Keypair} :
      Idle h → Seen h r → E.Drives r → E.Builds h r r' action call signer →
      Entry.Allows (.tick E) h (.store (.reserveSignerForRecord (ss58 signer) r'))
  | prepare {E : Engine} {h : History rpc} {r r' : PaymentRecord} {action : Action}
      {call : ChainCall} {signer : Keypair} {token : String} :
      E.Builds h r r' action call signer →
      Entry.Allows (.tick E)
        (⟨.store (.reserveSignerForRecord (ss58 signer) r'), .ok token⟩ :: h)
        (.chain (.prepare call signer))
  | cancel {E : Engine} {h : History rpc} {r : PaymentRecord} {call : ChainCall}
      {signer : Keypair} {token : String} {a : Result PreparedTx} :
      (∀ tx, a = .ok tx → tx.signer ≠ ss58 signer) →
      Entry.Allows (.tick E)
        (⟨.chain (.prepare call signer), a⟩ ::
          ⟨.store (.reserveSignerForRecord (ss58 signer) r), .ok token⟩ :: h)
        (.store (.cancelPreparation (ss58 signer) r.id token))
  | submit {E : Engine} {h : History rpc} {r : PaymentRecord} {action : Action}
      {call : ChainCall} {signer : Keypair} {token : String} {tx : PreparedTx} {t : UInt64} :
      Entry.Allows (.tick E)
        (⟨.store (.update { r with pending := some (tx.journal action call token) }), .ok t⟩ ::
          ⟨.chain (.prepare call signer), .ok tx⟩ ::
          ⟨.store (.reserveSignerForRecord (ss58 signer) r), .ok token⟩ :: h)
        (.chain (.submitAndWatch tx))
  | migrate {id : String} {version : UInt64} {budget : Option BuybackBudget} {h : History rpc} :
      Idle h →
      Entry.Allows (.migrateLegacyPolicy id version budget) h
        (.store (.migrateLegacyPolicy id version budget))
  | recover {manifest : LegacyManifest} {h : History rpc} :
      Idle h → Entry.Allows (.recoverLegacy manifest) h (.store (.recoverLegacy manifest))

end Buyback
