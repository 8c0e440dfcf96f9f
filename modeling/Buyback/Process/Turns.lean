import Buyback.Process.Guarantee
import Buyback.Resumption.Takes

/-!
# A turn for each payment

A tick asks for the signer of a payment at most once, and only if the payment was due when
the tick listed it.  `Turns` is a third guarantee next to `Allows` and `Grounds`.  It has one
lemma for each function that may send, in the order of the source, and each of them takes the
turn of its payment at most.

The loop of `tick` takes the turns of the records it was given.  So the guarantee needs that
the store lists no payment twice.
-/

namespace Buyback

open Resumption

/-- The payment whose signer is asked for. -/
def Op.turn : Op → Option String
  | .store (.reserveSignerForRecord _ r) => some r.id
  | _ => none

/-- The program asks for signers of payments in `S` only, and once for each. -/
abbrev TakesTurns {α : Type} (p : Prog α) (S : Set String) : Prop := p.Takes Op.turn S

end Buyback

/-! ## Requests of an engine -/

namespace Resumption.Program.Takes

open Buyback

variable {α : Type} {S : Set String}

/-- A request of the store, but not for a signer. -/
theorem store {o : StoreOp} {f : o.Ret → Prog α} (ho : (Op.store o).turn = none)
    (hf : ∀ a, TakesTurns (f a) S) : TakesTurns ((Prog.store o).bind f) S :=
  request ho fun _ a _ => hf a

theorem chain {o : ChainOp} {f : o.Ret → Prog α} (hf : ∀ a, TakesTurns (f a) S) :
    TakesTurns ((Prog.chain o).bind f) S :=
  request rfl fun _ a _ => hf a

theorem now {f : UInt64 → Prog α} (hf : ∀ t, TakesTurns (f t) S) :
    TakesTurns (Prog.now.bind f) S :=
  request rfl fun _ t _ => hf t

/-- A write, which keeps the id. -/
theorem update {new : PaymentRecord} {f : PaymentRecord → Prog α}
    (hf : ∀ t, TakesTurns (f (new.stamped t)) S) : TakesTurns ((Prog.update new).bind f) S := by
  refine request rfl fun a r hr => ?_
  cases a with
  | error e => cases hr
  | ok t =>
      cases hr
      exact hf t

end Resumption.Program.Takes

namespace Buyback

open Resumption

variable {E : Engine} {r : PaymentRecord} {j : String}

/-! ## What takes no turn -/

variable [Ss58]

/-- The payments of a list that are due at time `t`. -/
def dueAt (rs : List PaymentRecord) (t : UInt64) : Set String :=
  {j | ∃ r ∈ rs, r.id = j ∧ Engine.skips r t = false}

/-- What the process was told lists no payment twice. -/
def Distinct (h : History rpc) : Prop :=
  ∀ states rs, ⟨.store (.list states), .ok rs⟩ ∈ h → (rs.map PaymentRecord.id).Nodup

/-- The process began with a listing of the payment, which was due at the time the clock
showed right after it. -/
def Due (h : History rpc) (j : String) : Prop :=
  ∃ states rs t, [⟨.host .now, t⟩, ⟨.store (.list states), .ok rs⟩] <:+ h ∧ j ∈ dueAt rs t

omit [Ss58] in
theorem Distinct.mono {h h' : History rpc} (hd : Distinct h') (hh : h <:+ h') : Distinct h :=
  fun states rs hmem => hd states rs (hh.subset hmem)

omit [Ss58] in
theorem Due.mono {h h' : History rpc} (hd : Due h j) (hh : h <:+ h') : Due h' j := by
  obtain ⟨states, rs, t, hbegin, hdue⟩ := hd
  exact ⟨states, rs, t, hbegin.trans hh, hdue⟩

end Buyback
