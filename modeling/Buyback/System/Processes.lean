import Buyback.Resumption.Interleave
import Buyback.Source.Engine
import Buyback.System.Finalized

/-!
# Processes sharing one store

The system the results are about: any number of engine processes over one
`SqliteStore` and one chain.  Every call of the public interface that writes is an
entry, with an engine of its own configuration, so a process that ticks forever
is a sequence of entries.  An operation of the store is one transaction.

A run starts with an empty store.  Reservation tokens never repeat.
-/

namespace Buyback

open Resumption

/-- The calls a run may make, each by an engine of its own. -/
inductive Entry where
  | createPayment (E : Engine) (opts : CreatePayment)
  | createSweepJob (E : Engine) (id path expectedAddress : String) (metadata : Option String)
  | tick (E : Engine)
  | retry (id : String)
  | forceSweep (id : String)
  | migrateLegacyPolicy (id : String) (version : UInt64) (budget : Option BuybackBudget)
  | recoverLegacy (manifest : LegacyManifest)

/-- The program of an entry.  What it returns to its caller is dropped. -/
def Entry.body [Ss58] : Entry → Prog Unit
  | .createPayment E opts => do let _ ← E.createPayment opts
  | .createSweepJob E id path expectedAddress metadata => do
      let _ ← E.createSweepJob id path expectedAddress metadata
  | .tick E => do let _ ← E.tick
  | .retry id => do let _ ← Buyback.retry id
  | .forceSweep id => do let _ ← Buyback.forceSweep id
  | .migrateLegacyPolicy id version budget => do
      let _ ← Prog.store (.migrateLegacyPolicy id version budget)
  | .recoverLegacy manifest => do let _ ← Prog.store (.recoverLegacy manifest)

/-- The store, the chain, and the reservation tokens drawn so far. -/
structure World where
  store : SqliteStore
  chain : Finalized
  tokens : List String

/-- What a run may suffer, and the accounts only the engines spend from. -/
structure Setting where
  /-- Operations of the store may fail without effect. -/
  faults : Prop
  /-- Processes may stop at any point. -/
  crashes : Prop
  /-- The chain answers from its blocks and balances. -/
  truthful : Prop
  own : AccountId32 → Prop

/-- What every process may rely on in an answer, whether the chain is truthful or not. -/
def Relies : (o : Op) → o.Ans → Prop
  | .chain (.prepare call _), .ok tx => tx.call = call
  | .chain (.waitForSuccess _), .ok (blockHash, evs) => blockHash ≠ "" ∧ Events.failed evs = false
  | .chain (.findPending _), .ok (.included blockHash _) => blockHash ≠ ""
  | _, _ => True

/-- Serving a request. -/
inductive Serves [Ss58] (set : Setting) : World → (o : Op) → o.Ans → World → Prop where
  | store {w : World} {o : StoreOp} (x : Outside) :
      x.token ∉ w.tokens →
      Serves set w (.store o) (w.store.perform x o).1
        { w with store := (w.store.perform x o).2, tokens := x.token :: w.tokens }
  | fault {w : World} {o : StoreOp} {e : Error} :
      set.faults → Serves set w (.store o) (.error e) w
  | chain {w : World} {o : ChainOp} {a : Result o.Ret} {c : Finalized} :
      w.chain.Serves o a c → Serves set w (.chain o) a { w with chain := c }
  | hearsay {w : World} {o : ChainOp} {a : Result o.Ret} :
      ¬ set.truthful → Relies (.chain o) a → Serves set w (.chain o) a w
  | host {w : World} {o : HostOp} {a : o.Ans} : Serves set w (.host o) a w

/-- The chain finalizes another block. -/
inductive Finalizes [Ss58] (set : Setting) : World → World → Prop where
  | block {w : World} {b : Block} {free : AccountId32 → UInt64} :
      w.chain.Appends set.own b free →
      Finalizes set w { w with chain := w.chain.append b free }

/-- A world a run may start in: nothing stored, nothing signed. -/
def World.Fresh (w : World) : Prop :=
  w.store = SqliteStore.empty ∧ w.chain.signed = [] ∧ w.chain.submitted = []

/-- The processes of a run. -/
@[reducible] def processes [Ss58] (set : Setting) : System where
  interface := rpc
  Err := Error
  State := World
  Entry := Entry
  body := Entry.body
  init := World.Fresh
  serve := Serves set
  env := Finalizes set
  crashes := set.crashes

end Buyback
