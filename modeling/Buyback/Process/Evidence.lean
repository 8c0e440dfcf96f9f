import Buyback.Process.Funding
import Buyback.Process.Obeys
import Buyback.Record.Preserved

/-!
# What a process has read

The readings behind what a process does: the wallet of a job it creates, the account and
the amount of an extrinsic it signs, and the look at the chain after which it goes on
without an extrinsic.  `Grounds` is a second guarantee next to `Allows`, with one lemma
for each function as there.

`Allows` says that a request fits the record.  `Grounds` says what it was decided on.
-/

namespace Buyback

open Resumption

/-! ## Readings -/

section

variable [Ss58]

namespace Engine

variable (E : Engine) (h : History rpc) (r : PaymentRecord)

/-- A look at the wallet has shown no position worth sweeping that is not swept. -/
def Emptied : Prop := ∃ wallet total pos price, E.wallet r = .ok wallet ∧
  ⟨.chain (.alphaOn wallet r.netuid), .ok (total, pos)⟩ ∈ h ∧
  ⟨.chain (.alphaPrice r.netuid), .ok price⟩ ∈ h ∧
  ∀ p ∈ pos, E.floorAt price ≤ p.alpha → ss58 p.hotkey ∈ r.sweptPositions.map Prod.fst

/-- A look at the wallet has shown no TAO. -/
def Drained : Prop := ∃ wallet, E.wallet r = .ok wallet ∧
  ⟨.chain (.freeBalance wallet), .ok 0⟩ ∈ h

/-- A swept position is on the treasury hotkey, or nothing is left of it. -/
def Merged (position : String × UInt64) : Prop := ∃ hotkey, parseSs58 position.1 = .ok hotkey ∧
  (hotkey = E.cfg.treasuryHotkey ∨ ⟨.chain (.alphaOf hotkey E.treasury r.netuid), .ok 0⟩ ∈ h)

/-- The webhook of the record took its status, or there is none to deliver to. -/
def Delivered : Prop := r.callbackUrl = none ∨ E.webhook = false ∨
  ∃ url, r.callbackUrl = some url ∧ ⟨.host (.post url r.status), .ok ()⟩ ∈ h

variable {E h r}

theorem Emptied.mono {h' : History rpc} (he : E.Emptied h r) (hh : h <:+ h') :
    E.Emptied h' r := by
  obtain ⟨wallet, total, pos, price, hw, hpos, hprice, hall⟩ := he
  exact ⟨wallet, total, pos, price, hw, hh.subset hpos, hh.subset hprice, hall⟩

theorem Drained.mono {h' : History rpc} (he : E.Drained h r) (hh : h <:+ h') :
    E.Drained h' r := by
  obtain ⟨wallet, hw, hfree⟩ := he
  exact ⟨wallet, hw, hh.subset hfree⟩

theorem Merged.mono {h' : History rpc} {position : String × UInt64}
    (he : E.Merged h r position) (hh : h <:+ h') : E.Merged h' r position := by
  obtain ⟨hotkey, hparse, hgone⟩ := he
  exact ⟨hotkey, hparse, hgone.imp id (hh.subset ·)⟩

omit [Ss58] in
theorem Delivered.mono {h' : History rpc} (hd : E.Delivered h r) (hh : h <:+ h') :
    E.Delivered h' r := by
  rcases hd with hnone | hoff | ⟨url, hurl, hpost⟩
  · exact .inl hnone
  · exact .inr (.inl hoff)
  · exact .inr (.inr ⟨url, hurl, hh.subset hpost⟩)

/-- The extrinsics of an engine for the record `r`, with the readings they follow from. -/
inductive Pays (E : Engine) (h : History rpc) (r : PaymentRecord) : ChainCall → Keypair → Prop where
  | fund {wallet : Keypair} {need : UInt64} :
      E.wallet r = .ok wallet →
      Pays E h r (.transferTao wallet need) E.treasury
  | sweep {wallet : Keypair} {total price : UInt64} {pos : List StakePosition}
      {p : StakePosition} :
      E.wallet r = .ok wallet →
      ⟨.chain (.alphaOn wallet r.netuid), .ok (total, pos)⟩ ∈ h →
      ⟨.chain (.alphaPrice r.netuid), .ok price⟩ ∈ h →
      p ∈ pos →
      E.floorAt price ≤ p.alpha →
      Pays E h r (.transferStake E.treasury p.hotkey r.netuid p.alpha) wallet
  | consolidate {position : String × UInt64} {hotkey : AccountId32} {live : UInt64} :
      position ∈ r.sweptPositions →
      parseSs58 position.1 = .ok hotkey →
      ⟨.chain (.alphaOf hotkey E.treasury r.netuid), .ok live⟩ ∈ h →
      Pays E h r (.moveStake hotkey E.cfg.treasuryHotkey r.netuid live) E.treasury
  | returnDust {wallet : Keypair} {free : UInt64} :
      E.wallet r = .ok wallet →
      ⟨.chain (.freeBalance wallet), .ok free⟩ ∈ h →
      0 < free →
      Pays E h r (.transferAll E.treasury) wallet
  | buyStake {budget : BuybackBudget} {hotkey : AccountId32} {price : UInt64} :
      r.buybackBudget = some budget →
      parseSs58 budget.hotkey = .ok hotkey →
      ⟨.chain (.alphaPrice budget.netuid), .ok price⟩ ∈ h →
      Pays E h r (.addStakeLimit hotkey budget.netuid budget.amountRao
        (buyLimitPrice price E.cfg.slippageBps) false) E.treasury
  | destroy {budget : BuybackBudget} {hotkey : AccountId32} {b : BuybackReceipt} :
      r.buybackBudget = some budget →
      budget.destroy ≠ .keep →
      parseSs58 budget.hotkey = .ok hotkey →
      r.buyback = some b →
      Pays E h r (destroyCall budget.destroy hotkey budget.netuid b.alphaBought) E.treasury

/-- What a tick has read before it writes `new` over `r` without an extrinsic of its own. -/
structure Reads (E : Engine) (h : History rpc) (r new : PaymentRecord) : Prop where
  swept : r.state = .funded → new.state = .swept →
    r.identity = some E.jobIdentity ∧ E.Emptied h r
  drained : r.pending = none → r.dustReturned = false → new.dustReturned = true →
    r.identity = some E.jobIdentity ∧ E.Drained h r
  merged : r.pending = none → new.consolidated ≠ r.consolidated →
    r.identity = some E.jobIdentity ∧
      ∃ position, r.sweptPositions[r.consolidated]? = some position ∧ E.Merged h r position
  delivered : r.notified = false → new.notified = true →
    r.identity = some E.jobIdentity ∧ E.Delivered h r

end Engine

/-- The wallet of a new job: its secret is sealed for the record, or derived again from
its path. -/
structure Entry.Seals (e : Entry) (h : History rpc) (r : PaymentRecord) (wallet : Keypair) :
    Prop where
  signing : ⟨.store .requireSigning, .ok ()⟩ ∈ h
  address : r.address = ss58 wallet
  sealed : ⟨.host (.sealWith wallet (walletAad r.id r.address)), .ok r.sealedSecret⟩ ∈ h
  path : ∀ path, r.derivationPath = some path → ∃ E expectedAddress metadata seed,
    e = .createSweepJob E r.id path expectedAddress metadata ∧ E.seed = some seed ∧
      seed path = .ok wallet

end

/-- The requests that need no reading. -/
def Op.Free : Op → Prop
  | .store (.insert _) | .store (.update _) | .chain (.prepare ..) | .host (.post ..) => False
  | _ => True

/-- The requests an entry makes after its own history, with what they are decided on. -/
inductive Entry.Grounds [Ss58] : Entry → History rpc → Op → Prop where
  | free {e : Entry} {h : History rpc} {o : Op} : o.Free → e.Grounds h o
  | other {e : Entry} {h : History rpc} {new : PaymentRecord} :
      (∀ E, e ≠ .tick E) → e.Grounds h (.store (.update new))
  | insert {e : Entry} {h : History rpc} {r : PaymentRecord} {wallet : Keypair} :
      e.Seals h r wallet → e.Grounds h (.store (.insert r))
  | update {E : Engine} {h : History rpc} {r new : PaymentRecord} :
      Seen h r →
      new.id = r.id →
      new.version = r.version →
      E.Reads h r new →
      Entry.Grounds (.tick E) h (.store (.update new))
  | prepare {E : Engine} {h : History rpc} {r r' : PaymentRecord} {call : ChainCall}
      {signer : Keypair} {token : String} :
      Seen h r →
      r.identity = some E.jobIdentity →
      r'.id = r.id →
      E.Pays h r call signer →
      Entry.Grounds (.tick E)
        (⟨.store (.reserveSignerForRecord (ss58 signer) r'), .ok token⟩ :: h)
        (.chain (.prepare call signer))
  | post {E : Engine} {h : History rpc} {r : PaymentRecord} {url : String} :
      Seen h r →
      r.identity = some E.jobIdentity →
      r.state = .settled →
      r.callbackUrl = some url →
      E.webhook = true →
      Entry.Grounds (.tick E) h (.host (.post url r.status))

variable [Ss58]

theorem Entry.Grounds.prepare_inv {e : Entry} {h : History rpc} {call : ChainCall}
    {signer : Keypair} (hg : e.Grounds h (.chain (.prepare call signer))) :
    ∃ E ev past r, e = .tick E ∧ h = ev :: past ∧ Seen past r ∧
      r.identity = some E.jobIdentity ∧ E.Pays past r call signer := by
  cases hg with
  | free h => exact h.elim
  | prepare hs hidentity _ hpays => exact ⟨_, _, _, _, rfl, rfl, hs, hidentity, hpays⟩

/-! ## Writes that change nothing of this -/

namespace Engine.Reads

variable {E : Engine} {h : History rpc} {r new : PaymentRecord}

theorem mono {h' : History rpc} (hr : E.Reads h r new) (hh : h <:+ h') : E.Reads h' r new where
  swept h₁ h₂ := (hr.swept h₁ h₂).imp id (·.mono hh)
  drained h₁ h₂ h₃ := (hr.drained h₁ h₂ h₃).imp id (·.mono hh)
  merged h₁ h₂ := by
    obtain ⟨hid, position, hget, hmerged⟩ := hr.merged h₁ h₂
    exact ⟨hid, position, hget, hmerged.mono hh⟩
  delivered h₁ h₂ := (hr.delivered h₁ h₂).imp id (·.mono hh)

/-- A write that neither ends the sweeps nor passes a step of the swept stage. -/
theorem same (hstate : new.state = r.state ∨ new.state ≠ .swept)
    (hdust : new.dustReturned = r.dustReturned) (hcons : new.consolidated = r.consolidated)
    (hnotified : new.notified = r.notified) : E.Reads h r new where
  swept h₁ h₂ := by
    rcases hstate with hsame | hne
    · cases h₁.symm.trans (hsame.symm.trans h₂)
    · exact absurd h₂ hne
  drained _ h₁ h₂ := by cases h₁.symm.trans (hdust.symm.trans h₂)
  merged _ h := absurd hcons h
  delivered h₁ h₂ := by cases h₁.symm.trans (hnotified.symm.trans h₂)

/-- A failed attempt, recorded on the record or on one that differs in other fields. -/
theorem recordFailure {r' : PaymentRecord} {text : String} {maxAttempts : UInt32} {t : UInt64}
    (hstate : r'.state = r.state) (hdust : r'.dustReturned = r.dustReturned)
    (hcons : r'.consolidated = r.consolidated) (hnotified : r'.notified = r.notified) :
    E.Reads h r (r'.recordFailure text maxAttempts t) := by
  obtain ⟨lastError, nextAttemptAt, ⟨-, heq⟩ | ⟨-, heq⟩⟩ :=
    r'.recordFailure_cases text maxAttempts t
  · rw [heq]
    exact .same (.inl hstate) hdust hcons hnotified
  · rw [heq]
    exact .same (.inr nofun) hdust hcons hnotified

/-- What an extrinsic has done, is applied without another look. -/
theorem applied {p : PendingTx} (hp : r.pending = some p) {tx : TxRef} {s : EventSummary}
    (happly : r.apply tx s = .ok new) : E.Reads h r new := by
  have happly := PaymentRecord.apply_ok happly hp
  generalize p.action = action at happly
  constructor
  case swept =>
    intro h₁ h₂
    cases happly with
    | fund _ _ => cases h₂
    | _ => cases h₁.symm.trans h₂
  case drained => exact fun hnone => by cases hnone.symm.trans hp
  case merged => exact fun hnone => by cases hnone.symm.trans hp
  case delivered =>
    intro h₁ h₂
    cases happly <;> cases h₁.symm.trans h₂

end Engine.Reads

/-! ## Rules -/

section Rules

variable {α β : Type} {e : Entry} {E : Engine} {h : History rpc} {r : PaymentRecord}

/-- Every request of the program has its readings. -/
def Entry.Grounded (e : Entry) (h : History rpc) (p : Prog α) : Prop :=
  p.Asks Relies e.Grounds h

namespace Entry.Grounded

theorem done {x : Result α} : e.Grounded h (.done x : Prog α) := trivial

theorem lift {x : Result α} {f : α → Prog β} (hf : ∀ a, x = .ok a → e.Grounded h (f a)) :
    e.Grounded h ((Program.done x).bind f) :=
  Program.Asks.lift hf

theorem bind {p : Prog α} {f : α → Prog β} (hp : e.Grounded h p)
    (hf : ∀ h' a, h <:+ h' → e.Grounded h' (f a)) : e.Grounded h (p.bind f) :=
  Program.Asks.bind hp hf

/-- A sequence, with what its first half has learned. -/
theorem sat_bind {p : Prog α} {f : α → Prog β} {P : History rpc → Result α → Prop}
    (hp : p.Sat Relies e.Grounds h P)
    (hf : ∀ h' a, h <:+ h' → P h' (.ok a) → e.Grounded h' (f a)) : e.Grounded h (p.bind f) :=
  Program.Asks.sat_bind hp hf

theorem attempt {p : Prog α} {f : Result α → Prog β} (hp : e.Grounded h p)
    (hf : ∀ h' x, h <:+ h' → e.Grounded h' (f x)) : e.Grounded h (p.attempt.bind f) :=
  Program.Asks.attempt hp hf

theorem ite {c : Prop} [Decidable c] {p q : Prog α} (hp : c → e.Grounded h p)
    (hq : ¬ c → e.Grounded h q) : e.Grounded h (if c then p else q) :=
  Program.Asks.ite hp hq

/-- A request that needs no reading. -/
theorem free {o : Op} {answer : o.Ans → Result α} {f : α → Prog β} (ho : o.Free)
    (hf : ∀ a x, answer a = .ok x → e.Grounded (⟨o, a⟩ :: h) (f x)) :
    e.Grounded h ((Program.request (I := rpc) o answer).bind f) :=
  Program.Asks.request (.free ho) fun a x _ => hf a x

theorem store {o : StoreOp} {f : o.Ret → Prog β} (ho : (Op.store o).Free)
    (hf : ∀ x, e.Grounded (⟨.store o, .ok x⟩ :: h) (f x)) :
    e.Grounded h ((Prog.store o).bind f) :=
  free ho fun a x (hx : a = Except.ok x) => by subst hx; exact hf x

theorem chain {o : ChainOp} {f : o.Ret → Prog β} (ho : (Op.chain o).Free)
    (hf : ∀ x, e.Grounded (⟨.chain o, .ok x⟩ :: h) (f x)) :
    e.Grounded h ((Prog.chain o).bind f) :=
  free ho fun a x (hx : a = Except.ok x) => by subst hx; exact hf x

theorem now {f : UInt64 → Prog β}
    (hf : ∀ t : UInt64, e.Grounded (⟨.host .now, t⟩ :: h) (f t)) :
    e.Grounded h (Prog.now.bind f) :=
  free trivial fun a x (hx : Except.ok a = Except.ok x) => by cases hx; exact hf a

/-- A write of a tick over the record `r`. -/
theorem update {new : PaymentRecord} {f : PaymentRecord → Prog β} (hs : Seen h r)
    (hid : new.id = r.id) (hversion : new.version = r.version) (hr : E.Reads h r new)
    (hf : ∀ t, (Entry.tick E).Grounded (⟨.store (.update new), .ok t⟩ :: h) (f (new.stamped t))) :
    (Entry.tick E).Grounded h ((Prog.update new).bind f) := by
  refine Program.Asks.request (.update hs hid hversion hr) fun a x _ hx => ?_
  cases a with
  | ok t =>
      cases hx
      exact hf t
  | error err => cases hx

/-- A write by another entry than a tick. -/
theorem other {new : PaymentRecord} {f : PaymentRecord → Prog β} (he : ∀ E, e ≠ .tick E)
    (hf : ∀ h' x, e.Grounded h' (f x)) : e.Grounded h ((Prog.update new).bind f) :=
  Program.Asks.request (.other he) fun _ _ _ _ => hf _ _

end Entry.Grounded

end Rules

/-! ## Journaled sending -/

variable {E : Engine} {h : History rpc} {r r' : PaymentRecord} {action : Action}
  {call : ChainCall} {signer : Keypair}

theorem deliver_grounded {p : PendingTx} (hs : Seen h r) (hp : r.pending = some p)
    (tx : PreparedTx) : (Entry.tick E).Grounded h (deliver r tx) := by
  unfold deliver Prog.broadcast
  simp only [Program.monad_bind_eq, Program.bind_assoc]
  refine .chain trivial fun _ => .chain trivial fun landed => .lift fun fin _ => ?_
  refine .lift fun applied happlied => ?_
  have hkeys := (PaymentRecord.apply_ok happlied hp).keys
  exact .update (hs.cons _ |>.cons _) hkeys.1 hkeys.2 (.applied hp happlied) fun _ => .done

/-- The record that is sent for is `r`, up to what the step has changed in memory. -/
theorem sendJournaled_grounded (hs : Seen h r) (hidentity : r.identity = some E.jobIdentity)
    (hid : r'.id = r.id) (hversion : r'.version = r.version)
    (hreads : ∀ p, E.Reads h r { r' with pending := p }) (hpays : E.Pays h r call signer) :
    (Entry.tick E).Grounded h (sendJournaled r' action call signer) := by
  unfold sendJournaled
  simp only [Program.monad_bind_eq]
  refine .ite (fun _ => .done) fun _ => .store trivial fun token => ?_
  refine ⟨.prepare hs hidentity hid hpays, fun a _ => ?_⟩
  cases a with
  | error err => exact Entry.Grounded.store trivial fun _ => .done
  | ok tx =>
      change Entry.Grounded _ _ (if tx.signer ≠ ss58 signer then _ else _)
      refine .ite (fun _ => .store trivial fun _ => .done) fun _ => ?_
      have hs' := (hs.cons ⟨.store (.reserveSignerForRecord (ss58 signer) r'), .ok token⟩).cons
        ⟨.chain (.prepare call signer), .ok tx⟩
      refine .update hs' hid hversion ((hreads _).mono ?_) fun t => ?_
      · exact (List.suffix_cons _ _).trans (List.suffix_cons _ _)
      · exact deliver_grounded (seen_written _ t _) rfl tx

/-! ## Reconciliation and callbacks -/

theorem reconciled_grounded {p : PendingTx} (hp : r.pending = some p) (blockHash : String)
    (summary : EventSummary) :
    (r.reconciled p blockHash summary E.cfg.maxAttempts).Sat Relies (Entry.tick E).Grounds h
      fun h' x => ∀ new, x = .ok new →
        new.id = r.id ∧ new.version = r.version ∧ E.Reads h' r new := by
  unfold PaymentRecord.reconciled
  split
  next =>
    refine ⟨.free trivial, fun t _ => ?_⟩
    rintro new ⟨⟩
    exact ⟨PaymentRecord.recordFailure_keys.1, PaymentRecord.recordFailure_keys.2,
      .recordFailure rfl rfl rfl rfl⟩
  next =>
    split
    next applied happlied =>
      rintro new ⟨⟩
      have hkeys := (PaymentRecord.apply_ok happlied hp).keys
      exact ⟨hkeys.1, hkeys.2, .applied hp happlied⟩
    next err herr =>
      refine ⟨.free trivial, fun t _ => ?_⟩
      rintro new ⟨⟩
      exact ⟨PaymentRecord.recordFailure_keys.1, PaymentRecord.recordFailure_keys.2,
        .recordFailure rfl rfl rfl rfl⟩

/-- A write that keeps what is collected, up to the flag of the dust. -/
theorem Engine.Reads.dusted (hidentity : r.identity = some E.jobIdentity)
    (hdust : new.dustReturned = r.dustReturned ∨ E.Drained h r)
    (hstate : new.state = r.state ∨ new.state ≠ .swept) (hcons : new.consolidated = r.consolidated)
    (hnotified : new.notified = r.notified) : E.Reads h r new where
  swept h₁ h₂ := by
    rcases hstate with hsame | hne
    · cases h₁.symm.trans (hsame.symm.trans h₂)
    · exact absurd h₂ hne
  drained _ h₁ h₂ := by
    refine ⟨hidentity, hdust.resolve_left fun hsame => ?_⟩
    cases h₁.symm.trans (hsame.symm.trans h₂)
  merged _ h := absurd hcons h
  delivered h₁ h₂ := by cases h₁.symm.trans (hnotified.symm.trans h₂)

theorem reconcileJournaled_grounded (hs : Seen h r) {p : PendingTx} (hp : r.pending = some p) :
    (Entry.tick E).Grounded h (reconcileJournaled r p E.cfg.maxAttempts) := by
  unfold reconcileJournaled
  simp only [Program.monad_bind_eq]
  refine .ite (fun _ => .done) fun _ => .chain trivial fun outcome => ?_
  cases outcome with
  | wait => exact .done
  | dead => exact .update (hs.cons _) rfl rfl (.same (.inl rfl) rfl rfl rfl) fun _ => .done
  | included blockHash summary =>
      refine .sat_bind (reconciled_grounded hp blockHash summary) fun h' new hh hnew => ?_
      obtain ⟨hid, hversion, hreads⟩ := hnew new rfl
      exact .update (hs.mono ((List.suffix_cons _ _).trans hh)) hid hversion hreads
        fun _ => .done

theorem notify_grounded (hs : Seen h r) (hidentity : r.identity = some E.jobIdentity)
    (hstate : r.state = .settled) : (Entry.tick E).Grounded h (E.notify r) := by
  unfold Engine.notify
  simp only [Program.monad_bind_eq]
  refine .sat_bind (P := fun h' x => x = .ok (.ok ()) → E.Delivered h' r) ?_
    fun h' delivered hh hdelivered => ?_
  · split
    next url hurl hwebhook =>
      refine ⟨.post hs hidentity hstate hurl hwebhook, fun a _ hx => ?_⟩
      have ha : a = .ok () := Except.ok.inj hx
      exact .inr (.inr ⟨url, hurl, ha ▸ .head _⟩)
    next hother =>
      intro _
      cases hurl : r.callbackUrl with
      | none => exact .inl hurl
      | some url =>
          refine .inr (.inl ?_)
          rw [← Bool.not_eq_true]
          exact fun hwebhook => hother url hurl hwebhook
  · cases delivered with
    | error err =>
        exact .now fun t => .update ((hs.mono hh).cons _) rfl rfl
          (.same (.inl rfl) rfl rfl rfl) fun _ => .done
    | ok u =>
        refine .update (hs.mono hh) rfl rfl ?_ fun _ => .done
        refine ⟨fun h₁ _ => ?_, fun _ h₁ h₂ => ?_, fun _ h => absurd rfl h, fun _ _ => ?_⟩
        · cases h₁.symm.trans hstate
        · cases h₁.symm.trans h₂
        · exact ⟨hidentity, hdelivered rfl⟩

/-! ## The steps of a payment -/

theorem stepPending_grounded (hs : Seen h r) {positions : Positions} :
    (Entry.tick E).Grounded h (Engine.stepPending r positions) := by
  unfold Engine.stepPending
  simp only [Program.monad_bind_eq]
  refine .lift fun who _ => .bind ?_ fun h' tao hh => ?_
  · exact .ite (fun _ => ⟨.free trivial, fun _ _ => trivial⟩) fun _ => .done
  · refine .ite (fun _ => .lift fun new hnew => ?_) fun _ => .now fun t => .ite (fun _ => ?_)
      fun _ => .done
    · obtain ⟨-, rfl⟩ := PaymentRecord.transition_ok.mp hnew
      exact .update (hs.mono hh) rfl rfl (.same (.inr nofun) rfl rfl rfl) fun _ => .done
    · refine .lift fun new hnew => ?_
      obtain ⟨-, rfl⟩ := PaymentRecord.transition_ok.mp hnew
      exact .update ((hs.mono hh).cons _) rfl rfl (.same (.inr nofun) rfl rfl rfl) fun _ => .done

/-- The floor is the one at a price the process has read. -/
theorem sweepFloor_sat (netuid : UInt16) :
    (E.sweepFloor netuid).Sat Relies (Entry.tick E).Grounds h fun h' x =>
      ∀ floor, x = .ok floor → ∃ price, ⟨.chain (.alphaPrice netuid), .ok price⟩ ∈ h' ∧
        floor = E.floorAt price := by
  refine ⟨.free trivial, fun a _ => ?_⟩
  cases a with
  | ok price =>
      rintro floor ⟨⟩
      exact ⟨price, .head _, rfl⟩
  | error err => exact nofun

theorem estimateFees_grounded (r : PaymentRecord) (wallet : Keypair) (ps : List StakePosition) :
    ∀ {h : History rpc} {fees : UInt64},
      (Entry.tick E).Grounded h (E.estimateFees r wallet ps fees) := by
  induction ps with
  | nil => exact .done
  | cons p ps ih => exact .chain trivial fun _ => ih

theorem stepDetected_grounded (hs : Seen h r) (hidentity : r.identity = some E.jobIdentity) :
    (Entry.tick E).Grounded h (E.stepDetected r) := by
  unfold Engine.stepDetected
  simp only [Program.monad_bind_eq]
  refine .lift fun wallet hwallet => .chain trivial fun alphas => .chain trivial fun balance => ?_
  refine .sat_bind (sweepFloor_sat _) fun h₁ floor hh₁ _ => ?_
  refine .bind (estimateFees_grounded _ _ _) fun h₂ fees hh₂ => .chain trivial fun ed => ?_
  have hs' := ((hs.cons _ |>.cons _).mono (hh₁.trans hh₂)).cons
    ⟨.chain .existentialDeposit, .ok ed⟩
  refine .ite (fun _ => .lift fun new hnew => ?_) fun _ => ?_
  · obtain ⟨-, rfl⟩ := PaymentRecord.transition_ok.mp hnew
    exact .update hs' rfl rfl (.same (.inr nofun) rfl rfl rfl) fun _ => .done
  · exact sendJournaled_grounded hs' hidentity rfl rfl
      (fun _ => .same (.inl rfl) rfl rfl rfl) (.fund hwallet)

theorem stepFunded_grounded (hs : Seen h r) (hidentity : r.identity = some E.jobIdentity) :
    (Entry.tick E).Grounded h (E.stepFunded r) := by
  unfold Engine.stepFunded
  simp only [Program.monad_bind_eq]
  refine .lift fun wallet hwallet => .chain trivial fun alphas => ?_
  refine .sat_bind (sweepFloor_sat _) fun h₁ floor hh₁ hfloor => ?_
  obtain ⟨price, hprice, rfl⟩ := hfloor floor rfl
  have hs₁ := (hs.cons ⟨.chain (.alphaOn wallet r.netuid), .ok alphas⟩).mono hh₁
  have halpha := hh₁.subset (List.mem_cons_self (a := (⟨.chain (.alphaOn wallet r.netuid),
    .ok alphas⟩ : Event rpc)) (l := h))
  split
  next hnone =>
    refine .lift fun new hnew => ?_
    obtain ⟨-, rfl⟩ := PaymentRecord.transition_ok.mp hnew
    refine .update hs₁ rfl rfl ?_ fun _ => .done
    refine ⟨fun _ _ => ⟨hidentity, wallet, _, _, price, hwallet, halpha, hprice, ?_⟩,
      fun _ h₁ h₂ => ?_, fun _ h => absurd rfl h, fun h₁ h₂ => ?_⟩
    · intro p hp hle
      have := List.find?_eq_none.mp hnone p hp
      simpa [hle] using this
    · cases h₁.symm.trans h₂
    · cases h₁.symm.trans h₂
  next p hp =>
    refine sendJournaled_grounded hs₁ hidentity rfl rfl (fun _ => .same (.inl rfl) rfl rfl rfl)
      (.sweep hwallet halpha hprice (List.mem_of_find?_eq_some hp) ?_)
    have := List.find?_some hp
    simp only [Bool.and_eq_true, decide_eq_true_eq] at this
    exact this.1

/-- A step of the swept stage on `r`, with `d` for the flag of the dust in memory. -/
theorem stepAutoBuyback_grounded {d : Bool} (hs : Seen h r)
    (hidentity : r.identity = some E.jobIdentity) (hdust : d = r.dustReturned ∨ E.Drained h r) :
    (Entry.tick E).Grounded h (E.stepAutoBuyback { r with dustReturned := d }) := by
  unfold Engine.stepAutoBuyback
  simp only [Program.monad_bind_eq]
  split
  next => exact .done
  next budget hbudget =>
    refine .lift fun _ _ => ?_
    split
    next b hb =>
      unfold Engine.stepDestroy
      simp only [Program.monad_bind_eq]
      refine .ite (fun _ => .done) fun _ => .ite (fun _ => .done) fun _ =>
        .ite (fun _ => .done) fun _ => .ite (fun _ => ?_) fun hopen => .lift fun hotkey hparse => ?_
      · exact .update hs rfl rfl (.dusted hidentity hdust (.inl rfl) rfl rfl) fun _ => .done
      · rw [not_or] at hopen
        exact sendJournaled_grounded hs hidentity rfl rfl
          (fun _ => .dusted hidentity hdust (.inl rfl) rfl rfl)
          (.destroy hbudget hopen.1 hparse hb)
    next hb =>
      unfold Engine.spendable
      simp only [Program.monad_bind_eq, Program.bind_assoc]
      refine .chain trivial fun free => .chain trivial fun ed => .lift fun spendable _ => ?_
      refine .lift fun tao htao => .chain trivial fun price => .lift fun hotkey hparse => ?_
      obtain rfl := strictBuybackAmount_ok htao
      refine sendJournaled_grounded (hs.cons _ |>.cons _ |>.cons _) hidentity rfl rfl
        (fun _ => .dusted hidentity (hdust.imp_right fun hd => hd.mono ?_) (.inl rfl) rfl rfl)
        (.buyStake hbudget hparse (.head _))
      exact ((List.suffix_cons _ _).trans (List.suffix_cons _ _)).trans (List.suffix_cons _ _)

theorem finish_grounded {d : Bool} (hs : Seen h r) (hidentity : r.identity = some E.jobIdentity)
    (hdust : d = r.dustReturned ∨ E.Drained h r) :
    (Entry.tick E).Grounded h (E.finish { r with dustReturned := d }) := by
  unfold Engine.finish
  simp only [Program.monad_bind_eq]
  split
  next => exact .done
  next required hreq =>
    refine .ite (fun _ => .done) fun _ => .lift fun _ _ => .ite (fun _ => ?_) fun _ =>
      .lift fun new hnew => ?_
    · exact stepAutoBuyback_grounded hs hidentity hdust
    · obtain ⟨-, rfl⟩ := PaymentRecord.transition_ok.mp hnew
      refine .update hs rfl rfl (.dusted hidentity hdust (.inr nofun) rfl rfl) fun t => ?_
      exact .bind (notify_grounded (seen_written _ t h) hidentity rfl) fun _ _ _ => .done

theorem returnDust_grounded (hs : Seen h r) (hidentity : r.identity = some E.jobIdentity) :
    (Entry.tick E).Grounded h (E.returnDust r) := by
  unfold Engine.returnDust
  simp only [Program.monad_bind_eq]
  refine .ite (fun _ => .lift fun wallet hwallet => .chain trivial fun free => ?_) fun _ =>
    finish_grounded hs hidentity (.inl rfl)
  refine .ite (fun hpos => ?_) fun hzero => ?_
  · exact sendJournaled_grounded (hs.cons _) hidentity rfl rfl
      (fun _ => .same (.inl rfl) rfl rfl rfl) (.returnDust hwallet (.head _) hpos)
  · have hfree : free = 0 := by
      rw [UInt64.lt_iff_toNat_lt, UInt64.toNat_zero, not_lt, Nat.le_zero] at hzero
      exact UInt64.toNat_inj.mp hzero
    exact finish_grounded (hs.cons _) hidentity (.inr ⟨wallet, hwallet, hfree ▸ .head _⟩)

/-- The list the loop runs over is what is left of the positions. -/
theorem consolidate_grounded (rest : List (String × UInt64)) :
    ∀ {h : History rpc} {r : PaymentRecord}, Seen h r → r.identity = some E.jobIdentity →
      r.sweptPositions.drop r.consolidated = rest →
      (Entry.tick E).Grounded h (E.consolidate rest r) := by
  induction rest with
  | nil => exact fun hs hidentity _ => returnDust_grounded hs hidentity
  | cons position rest ih =>
      intro h r hs hidentity hrest
      have hposition : r.sweptPositions[r.consolidated]? = some position := by
        rw [← Nat.add_zero r.consolidated, ← List.getElem?_drop, hrest]
        rfl
      have htail : r.sweptPositions.drop (r.consolidated + 1) = rest := by
        rw [← List.drop_drop, hrest]
        rfl
      unfold Engine.consolidate
      simp only [Program.monad_bind_eq]
      refine .lift fun hk hparse => ?_
      refine .sat_bind (P := fun h' x => ∀ live, x = .ok live →
        (hk = E.cfg.treasuryHotkey ∧ live = 0) ∨
          ⟨.chain (.alphaOf hk E.treasury r.netuid), .ok live⟩ ∈ h') ?_ fun h' live hh hlive => ?_
      · split
        next hown =>
          rintro live ⟨⟩
          exact .inl ⟨hown, rfl⟩
        next =>
          refine ⟨.free trivial, fun a _ => ?_⟩
          rintro live rfl
          exact .inr (.head _)
      · refine .ite (fun hzero => ?_) fun hne => ?_
        · subst hzero
          refine .update (hs.mono hh) rfl rfl ?_ fun t =>
            ih (seen_written _ t h') hidentity htail
          refine ⟨fun h₁ h₂ => ?_, fun _ h₁ h₂ => ?_, fun _ _ => ⟨hidentity, ?_⟩, fun h₁ h₂ => ?_⟩
          · cases h₁.symm.trans h₂
          · cases h₁.symm.trans h₂
          · exact ⟨position, hposition, hk, hparse, (hlive 0 rfl).imp And.left id⟩
          · cases h₁.symm.trans h₂
        · refine sendJournaled_grounded (hs.mono hh) hidentity rfl rfl
            (fun _ => .same (.inl rfl) rfl rfl rfl)
            (.consolidate (List.mem_of_getElem? hposition) hparse ?_)
          exact (hlive live rfl).resolve_left fun hown => hne hown.2

theorem stepSwept_grounded (hs : Seen h r) (hidentity : r.identity = some E.jobIdentity) :
    (Entry.tick E).Grounded h (E.stepSwept r) :=
  .ite (fun _ => consolidate_grounded _ hs hidentity rfl) fun _ =>
    returnDust_grounded hs hidentity

/-! ## The driver -/

/-- The error of a step is recorded on the stored record. -/
theorem guarded_grounded {p : Prog Bool} (hp : (Entry.tick E).Grounded h p) :
    (Entry.tick E).Grounded h (E.guarded r p) := by
  unfold Engine.guarded
  simp only [Program.monad_bind_eq]
  refine .attempt hp fun h' x hh => ?_
  split
  next => exact .done
  next => exact .done
  next err _ =>
    unfold Engine.recordError
    simp only [Program.monad_bind_eq]
    refine .store trivial fun found => ?_
    cases found with
    | none => exact .done
    | some cur =>
        refine .ite (fun _ => .done) fun _ => .now fun t => ?_
        exact .update ⟨_, .tail _ (.head _), .get⟩ PaymentRecord.recordFailure_keys.1
          PaymentRecord.recordFailure_keys.2 (.recordFailure rfl rfl rfl rfl) fun _ => .done

theorem step_grounded (hs : Seen h r) (positions : Positions) :
    (Entry.tick E).Grounded h (E.step r positions) := by
  unfold Engine.step
  simp only [Program.monad_bind_eq]
  refine .ite (fun _ => .done) fun hidentity => .ite (fun _ => .done) fun _ =>
    .ite (fun _ => .done) fun _ => ?_
  have hidentity : r.identity = some E.jobIdentity := not_not.mp hidentity
  split
  next p hp => exact .bind (reconcileJournaled_grounded hs hp) fun _ _ _ => .done
  next =>
    split
    next => exact stepPending_grounded hs
    next => exact guarded_grounded (stepDetected_grounded hs hidentity)
    next => exact guarded_grounded (stepFunded_grounded hs hidentity)
    next => exact guarded_grounded (stepSwept_grounded hs hidentity)
    next hstate => exact .bind (notify_grounded hs hidentity hstate) fun _ _ _ => .done
    next => exact .done
    next => exact .done

theorem drive_grounded {positions : Positions} {t : UInt64} (rs : List PaymentRecord) :
    ∀ {h : History rpc} {n : ℕ}, (∀ r ∈ rs, Seen h r) →
      (Entry.tick E).Grounded h (E.drive positions t rs n) := by
  induction rs with
  | nil => exact fun _ => .done
  | cons r rs ih =>
      intro h n hs
      have hs' := fun r' (hr' : r' ∈ rs) => hs r' (.tail _ hr')
      unfold Engine.drive
      simp only [Program.monad_bind_eq]
      refine .ite (fun _ => ih hs') fun _ => ?_
      refine .attempt (step_grounded (hs r (.head _)) positions) fun h' x hh => ?_
      have hgo (n : ℕ) := ih (n := n) fun r' hr' => (hs' r' hr').mono hh
      split <;> exact hgo _

theorem tick_grounded : (Entry.tick E).Grounded h E.tick := by
  unfold Engine.tick
  simp only [Program.monad_bind_eq]
  refine .store trivial fun recs => .now fun t => .bind ?_ fun h' positions hh => ?_
  · exact .ite (fun _ => .done) fun _ => ⟨.free trivial, fun _ _ => trivial⟩
  · exact drive_grounded recs fun r hr => Seen.mono ⟨_, .tail _ (.head _), .list hr⟩ hh

/-! ## The other calls -/

theorem insertJob_grounded {e : Entry} {w : Keypair} (hr : e.Seals h r w) :
    e.Grounded h (E.insertJob r) := by
  unfold Engine.insertJob
  simp only [Program.monad_bind_eq]
  exact .ite (fun _ => .done) fun _ => .lift fun _ _ => ⟨.insert hr, fun _ _ => trivial⟩

theorem createPayment_grounded (opts : CreatePayment) :
    (Entry.createPayment E opts).Grounded h (E.createPayment opts) := by
  unfold Engine.createPayment
  simp only [Program.monad_bind_eq]
  refine .store trivial fun _ => .free trivial fun a wallet hwallet => ?_
  refine .free trivial fun b id hid => .free trivial fun c sealed hsealed => .now fun t => ?_
  cases hid
  cases hsealed
  refine .bind (insertJob_grounded (w := wallet) ?_) fun _ _ _ => .done
  exact ⟨.tail _ (.tail _ (.tail _ (.tail _ (.head _)))), rfl, .tail _ (.head _), nofun⟩

theorem createSweepJob_grounded (id path expectedAddress : String) (metadata : Option String) :
    (Entry.createSweepJob E id path expectedAddress metadata).Grounded h
      (E.createSweepJob id path expectedAddress metadata) := by
  unfold Engine.createSweepJob
  simp only [Program.monad_bind_eq]
  refine .store trivial fun _ => ?_
  split
  next => exact .done
  next seed hseed =>
    refine .lift fun wallet hwallet => .ite (fun _ => .done) fun _ => ?_
    refine .free trivial fun c sealed hsealed => .now fun t => ?_
    cases hsealed
    refine .bind (insertJob_grounded (w := wallet) ?_) fun _ _ _ => .done
    refine ⟨.tail _ (.tail _ (.head _)), rfl, .tail _ (.head _), ?_⟩
    rintro path' ⟨⟩
    exact ⟨E, expectedAddress, metadata, seed, rfl, hseed, hwallet⟩

theorem retry_grounded (id : String) : (Entry.retry id).Grounded h (Buyback.retry id) := by
  unfold Buyback.retry
  simp only [Program.monad_bind_eq]
  refine .store trivial fun found => ?_
  cases found with
  | none => exact .done
  | some r =>
      refine .ite (fun _ => .done) fun _ => .lift fun new _ => .other ?_ fun _ _ => .done
      exact fun E heq => by cases heq

theorem forceSweep_grounded (id : String) :
    (Entry.forceSweep id).Grounded h (Buyback.forceSweep id) := by
  unfold Buyback.forceSweep
  simp only [Program.monad_bind_eq]
  refine .store trivial fun found => ?_
  cases found with
  | none => exact .done
  | some r =>
      refine .lift fun new _ => .other ?_ fun _ _ => .done
      exact fun E heq => by cases heq

/-- Every entry has read what its requests rest on. -/
theorem Entry.body_grounded (e : Entry) : e.Grounded [] e.body := by
  have hdrop {α : Type} {p : Prog α} (hp : e.Grounded [] p) :
      e.Grounded [] (p.bind fun _ => .done (.ok ())) := .bind hp fun _ _ _ => .done
  cases e with
  | createPayment E opts => exact hdrop (createPayment_grounded opts)
  | createSweepJob E id path addr metadata =>
      exact hdrop (createSweepJob_grounded id path addr metadata)
  | tick E => exact hdrop tick_grounded
  | retry id => exact hdrop (retry_grounded id)
  | forceSweep id => exact hdrop (forceSweep_grounded id)
  | migrateLegacyPolicy id version budget => exact hdrop ⟨.free trivial, fun _ _ => trivial⟩
  | recoverLegacy manifest => exact hdrop ⟨.free trivial, fun _ _ => trivial⟩

/-- The processes have read what their requests rest on. -/
theorem processes_ground (set : Setting) :
    Meets (processes set) Relies Entry.Grounds fun _ _ _ => True :=
  ⟨Entry.body_grounded, fun _ _ _ _ hs => hs.relies⟩

end Buyback
