import Buyback.Process.Turns
import Buyback.Record.Preserved
import Buyback.Resumption.Bound

/-!
# From the observation to the write

A tick that has found the minimum of a payment reached is bound to ask for detected, and
writes the payment no other way before.  Its own clock does not matter any more, nor do the
answers about other payments.

The loop of `tick` comes to the payment after others.  So the first half shows that a step
writes the record of its own payment only, with one lemma for each function, in the order of
the source.
-/

namespace Buyback

open Resumption

/-! ## Payments apart -/

/-- The request writes over the record of the payment `j`. -/
def Op.Rewrites (j : String) : Op → Prop
  | .store (.update r) => r.id = j
  | _ => False

/-- The store answers with the record it is asked for. -/
def Named (o : Op) (a : o.Ans) : Prop :=
  ∀ id r, (⟨o, a⟩ : Event rpc) = ⟨.store (.get id), .ok (some r)⟩ → r.id = id

/-- The program leaves the record of the payment `j` alone. -/
def Apart {α : Type} (j : String) (p : Prog α) : Prop :=
  ∀ h, p.Asks Named (fun _ (o : Op) => ¬ o.Rewrites j) h

namespace Apart

variable {α β : Type} {j : String}

theorem done {x : Result α} : Apart j (.done x : Prog α) := fun _ => .done

theorem lift {x : Result α} {f : α → Prog β} (hf : ∀ a, x = .ok a → Apart j (f a)) :
    Apart j ((Program.done x).bind f) :=
  fun h => .lift fun a ha => hf a ha h

theorem bind {p : Prog α} {f : α → Prog β} (hp : Apart j p) (hf : ∀ a, Apart j (f a)) :
    Apart j (p.bind f) :=
  fun h => .bind (hp h) fun h' a _ => hf a h'

theorem attempt {p : Prog α} {f : Result α → Prog β} (hp : Apart j p) (hf : ∀ x, Apart j (f x)) :
    Apart j (p.attempt.bind f) :=
  fun h => .attempt (hp h) fun h' x _ => hf x h'

theorem request {o : Op} {answer : o.Ans → Result α} {f : α → Prog β} (ho : ¬ o.Rewrites j)
    (hf : ∀ a x, Named o a → answer a = .ok x → Apart j (f x)) :
    Apart j ((Program.request o answer).bind f) :=
  fun _ => .request ho fun a x ha hx => hf a x ha hx _

theorem single {o : Op} {answer : o.Ans → Result α} (ho : ¬ o.Rewrites j) :
    Apart j (Program.request o answer) :=
  fun _ => ⟨ho, fun _ _ => trivial⟩

theorem chain {o : ChainOp} {f : o.Ret → Prog β} (hf : ∀ a, Apart j (f a)) :
    Apart j ((Prog.chain o).bind f) :=
  request (fun h => h) fun _ a _ _ => hf a

theorem now {f : UInt64 → Prog β} (hf : ∀ t, Apart j (f t)) : Apart j (Prog.now.bind f) :=
  request (fun h => h) fun _ t _ _ => hf t

/-- A write over another record, which keeps its id. -/
theorem update {new : PaymentRecord} {f : PaymentRecord → Prog β} (hid : new.id ≠ j)
    (hf : ∀ t, Apart j (f (new.stamped t))) : Apart j ((Prog.update new).bind f) := by
  refine request hid fun a r _ hr => ?_
  cases a with
  | error e => cases hr
  | ok t =>
      cases hr
      exact hf t

theorem ite {c : Prop} [Decidable c] {p q : Prog α} (hp : c → Apart j p) (hq : ¬ c → Apart j q) :
    Apart j (if c then p else q) :=
  fun h => .ite (fun hc => hp hc h) fun hc => hq hc h

end Apart

/-- A record that is moved keeps its id. -/
theorem Apart.transition {α : Type} {j : String} {r : PaymentRecord} {s : PaymentState}
    {f : PaymentRecord → Prog α} (hid : r.id ≠ j) (hf : ∀ new, new.id ≠ j → Apart j (f new)) :
    Apart j ((Program.done (r.transition s)).bind f) := by
  refine .lift fun new hnew => ?_
  obtain ⟨-, rfl⟩ := PaymentRecord.transition_ok.mp hnew
  exact hf _ hid

section

variable {α : Type} {E : Engine} {r : PaymentRecord} {j : String}

variable [Ss58]

end

/-! ## The observation -/

namespace Engine

variable {r : PaymentRecord} {positions : Positions} {who : AccountId32} {alpha tao : UInt64}

/-- The record of a request whose minimum is reached. -/
def detected (r : PaymentRecord) (alpha tao : UInt64) : PaymentRecord :=
  { r with
    detectedAlpha := alpha
    detectedTao := if r.minTao.any (fun m => m ≤ tao) then tao else 0 }.moved .detected

variable [Ss58] {E : Engine}

/-- The tick has found the minimum of `r` reached, with `alpha` and `tao` on the chain.  The
latest event is the last reading it needs. -/
inductive Finds (E : Engine) : History rpc → PaymentRecord → UInt64 → UInt64 → Prop where
  /-- Where the request asks for alpha only, that is the batch read. -/
  | stake {rs : List PaymentRecord} {r : PaymentRecord} {t : UInt64} {positions : Positions}
      {who : AccountId32} :
      r ∈ rs →
      r.state = .pending →
      r.identity = some E.jobIdentity →
      r.minTao = none →
      parseSs58 r.address = .ok who →
      r.minAlpha ≤ positions.alphaOf who r.netuid →
      Finds E [⟨.chain (.stakePositionsMany (watched rs)), .ok positions⟩, ⟨.host .now, t⟩,
        ⟨.store (.list [.pending, .detected, .funded, .swept, .settled, .failed]), .ok rs⟩]
        r (positions.alphaOf who r.netuid) 0
  /-- Otherwise it is the balance, which the step of the payment reads. -/
  | balance {h : History rpc} {r : PaymentRecord} {positions : Positions} {who : AccountId32}
      {tao : UInt64} {f : Result Bool → Prog Unit} :
      Seen h r →
      r.state = .pending →
      r.identity = some E.jobIdentity →
      r.minTao.isSome →
      parseSs58 r.address = .ok who →
      (Entry.tick E).body.Leads h.reverse ((E.step r positions).attempt.bind f) →
      r.PaidBy (positions.alphaOf who r.netuid) tao →
      Finds E (⟨.chain (.freeBalance who), .ok tao⟩ :: h) r (positions.alphaOf who r.netuid) tao

variable {h : History rpc} {t : UInt64} {rs : List PaymentRecord}

theorem Finds.seen (hf : E.Finds h r alpha tao) : Seen h r := by
  cases hf with
  | stake hmem _ _ _ _ _ => exact ⟨_, .tail _ (.tail _ (.head _)), .list hmem⟩
  | balance hseen _ _ _ _ _ _ => exact hseen.cons _

theorem Finds.pending (hf : E.Finds h r alpha tao) :
    r.state = .pending ∧ r.identity = some E.jobIdentity := by
  cases hf with
  | stake _ hstate hidentity _ _ _ => exact ⟨hstate, hidentity⟩
  | balance _ hstate hidentity _ _ _ _ => exact ⟨hstate, hidentity⟩

end Engine

end Buyback
