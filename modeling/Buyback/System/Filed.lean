import Buyback.Store.Crashes
import Buyback.System.Processes

/-!
# Processes on a directory

The system with a `FileStore` in place of the database.  The files are those of `Recent`, so
a request to the store may fail before or after it was carried out, and the power may be lost.

A directory has no reservations.  Where the store trait asks for them, its own methods
answer, which refuse.  The recovery of legacy records works on a database only.
-/

namespace Buyback

open Resumption

/-- The refusal of the store trait, where a directory has no method of its own. -/
def StoreOp.unsupported : StoreOp → Option Error
  | .requireSigning =>
      some (.store "shared signer reservations unsupported; requests disabled")
  | .reserveSignerForRecord .. => some (.store "atomic signer reservation unsupported")
  | .reserveSigner .. =>
      some (.store "shared durable signer reservations unsupported; signing disabled")
  | .cancelPreparation .. => some (.store "preparation cancellation unsupported")
  | _ => none

/-- An operation of a directory as one of the store, with its answers.  Of an update the
caller is told the time. -/
inductive StoreOp.Filed : (o : StoreOp) → Result o.Ret → (o' : SharedOp) → Result o'.Ret → Prop
    where
  | insert {rec : PaymentRecord} {x : Result Unit} : Filed (.insert rec) x (.insert rec) x
  | get {id : String} {x : Result (Option PaymentRecord)} : Filed (.get id) x (.get id) x
  | list {states : List PaymentState} {x : Result (List PaymentRecord)} :
      Filed (.list states) x (.list states) x
  | update {rec : PaymentRecord} {x : Result PaymentRecord} :
      Filed (.update rec) (x.map PaymentRecord.updatedAt) (.update rec) x
  | migrateLegacyPolicy {id : String} {version : UInt64} {budget : Option BuybackBudget}
      {x : Result PaymentRecord} :
      Filed (.migrateLegacyPolicy id version budget) x (.migrateLegacyPolicy id version budget) x

/-- The directory and the chain. -/
structure FiledWorld where
  store : Recent
  chain : Finalized

section

variable [Ss58]

/-- Serving a request. -/
inductive FiledWorld.Serves (set : Setting) : FiledWorld → (o : Op) → o.Ans → FiledWorld → Prop
    where
  | store {w : FiledWorld} {o : StoreOp} {a : Result o.Ret} {o' : SharedOp} {a' : Result o'.Ret}
      {now : UInt64} {s : Recent} :
      StoreOp.Filed o a o' a' →
      w.store.Step (.returned now o' a') s →
      Serves set w (.store o) a { w with store := s }
  | unsupported {w : FiledWorld} {o : StoreOp} {e : Error} :
      o.unsupported = some e → Serves set w (.store o) (.error e) w
  | chain {w : FiledWorld} {o : ChainOp} {a : Result o.Ret} {c : Finalized} :
      w.chain.Serves o a c → Serves set w (.chain o) a { w with chain := c }
  | hearsay {w : FiledWorld} {o : ChainOp} {a : Result o.Ret} :
      ¬ set.truthful → Relies (.chain o) a → Serves set w (.chain o) a w
  | host {w : FiledWorld} {o : HostOp} {a : o.Ans} : Serves set w (.host o) a w

/-- What happens by itself. -/
inductive FiledWorld.Changes (set : Setting) (w : FiledWorld) : FiledWorld → Prop where
  | block {b : Block} {free : AccountId32 → UInt64} :
      w.chain.Appends set.own b free →
      Changes set w { w with chain := w.chain.append b free }
  | lost {s : Recent} : w.store.Step .lost s → Changes set w { w with store := s }

/-- Nothing is signed at the start, and the files are those of `f₀`. -/
def FiledWorld.Fresh (f₀ : FileStore) (w : FiledWorld) : Prop :=
  w.store = ⟨f₀, []⟩ ∧ w.chain.signed = [] ∧ w.chain.submitted = []

/-- The processes of a run on a directory. -/
@[reducible] def filing (set : Setting) (f₀ : FileStore) : System where
  interface := rpc
  Err := Error
  State := FiledWorld
  Entry := Entry
  body := Entry.body
  init := FiledWorld.Fresh f₀
  serve := FiledWorld.Serves set
  env := FiledWorld.Changes set
  crashes := set.crashes

end

end Buyback
