import Buyback.Resumption.Program
import Buyback.Source.Store

/-!
# The requests of the engine

Everything the engine asks of its surroundings: the operations of `Store`, the
calls of `EngineRpc` and `TransactionRpc`, and the clock, the random sources and
the webhook.  `Chain::broadcast` is two requests, since its reply may come long
after the submission, or never.

An update is answered by the time it was written at.  The record the store
returns is then `PaymentRecord.stamped`.  `SqliteStore.perform` runs one operation
as one transaction.
-/

namespace Buyback

open Resumption

/-- The operations of the store. -/
inductive StoreOp where
  | requireSigning
  | insert (rec : PaymentRecord)
  | get (id : String)
  | list (states : List PaymentState)
  | update (rec : PaymentRecord)
  | reserveSignerForRecord (signer : String) (rec : PaymentRecord)
  | reserveSigner (signer job : String)
  | cancelPreparation (signer job token : String)
  | migrateLegacyPolicy (id : String) (version : UInt64) (budget : Option BuybackBudget)
  | recoverLegacy (manifest : LegacyManifest)

/-- What an operation of the store returns. -/
@[reducible] def StoreOp.Ret : StoreOp → Type
  | .requireSigning => Unit
  | .insert _ => Unit
  | .get _ => Option PaymentRecord
  | .list _ => List PaymentRecord
  | .update _ => UInt64
  | .reserveSignerForRecord .. => String
  | .reserveSigner .. => String
  | .cancelPreparation .. => Unit
  | .migrateLegacyPolicy .. => PaymentRecord
  | .recoverLegacy _ => RecoveryReport

/-- What a transaction reads from outside the database. -/
structure Outside where
  now : UInt64
  token : String
  scan : PaymentRecord → LegacyManifest → Result ArchiveScan

/-- A transaction commits its store, or fails and leaves the old one. -/
def commit {α : Type} (s : SqliteStore) : Result (α × SqliteStore) → Result α × SqliteStore
  | .ok (a, s') => (.ok a, s')
  | .error e => (.error e, s)

/-- Run one operation of the store. -/
def SqliteStore.perform [Ss58] (s : SqliteStore) (x : Outside) :
    (o : StoreOp) → Result o.Ret × SqliteStore
  | .requireSigning => (.ok (), s)
  | .insert rec => commit s (s.insert rec)
  | .get id => (.ok (s.get id), s)
  | .list states => (.ok (s.list states), s)
  | .update rec => commit s ((s.update rec x.now).map fun y => (x.now, y.2))
  | .reserveSignerForRecord signer rec => commit s (s.reserveSignerForRecord signer rec x.token)
  | .reserveSigner signer job => commit s (s.reserveSigner signer job x.token)
  | .cancelPreparation signer job token => commit s (s.cancelPreparation signer job token)
  | .migrateLegacyPolicy id version budget =>
      commit s (s.migrateLegacyPolicy id version budget x.now)
  | .recoverLegacy manifest => commit s (s.recoverLegacy x.scan manifest x.now)

/-- The calls of the chain. -/
inductive ChainOp where
  | freeBalance (who : AccountId32)
  | account (who : AccountId32)
  | alphaOn (who : AccountId32) (netuid : UInt16)
  | alphaOf (hotkey coldkey : AccountId32) (netuid : UInt16)
  | estimateFee (call : ChainCall) (signer : Keypair)
  | existentialDeposit
  | alphaPrice (netuid : UInt16)
  | stakePositionsMany (coldkeys : List AccountId32)
  | prepare (call : ChainCall) (signer : Keypair)
  | submitAndWatch (tx : PreparedTx)
  | waitForSuccess (tx : PreparedTx)
  | findPending (tx : PendingTx)

/-- Stake positions by coldkey. -/
abbrev Positions : Type := List (AccountId32 × List StakePosition)

/-- What a call of the chain returns.  `waitForSuccess` returns the block and the
events of an extrinsic that finalized with success. -/
@[reducible] def ChainOp.Ret : ChainOp → Type
  | .freeBalance _ => UInt64
  | .account _ => UInt64 × UInt32
  | .alphaOn .. => UInt64 × List StakePosition
  | .alphaOf .. => UInt64
  | .estimateFee .. => UInt64
  | .existentialDeposit => UInt64
  | .alphaPrice _ => UInt64
  | .stakePositionsMany _ => Positions
  | .prepare .. => PreparedTx
  | .submitAndWatch _ => Unit
  | .waitForSuccess _ => String × List (Except String RuntimeEvent)
  | .findPending _ => PendingOutcome

/-- The clock, the random sources and the webhook. -/
inductive HostOp where
  | now
  | newId
  | generateWallet
  | sealWith (wallet : Keypair) (aad : String)
  | post (url : String) (status : PaymentStatus)

/-- What the host answers. -/
@[reducible] def HostOp.Ans : HostOp → Type
  | .now => UInt64
  | .newId => String
  | .generateWallet => Result Keypair
  | .sealWith .. => Result SealedSecret
  | .post .. => Result Unit

/-- A request of the engine. -/
inductive Op where
  | store (o : StoreOp)
  | chain (o : ChainOp)
  | host (o : HostOp)

/-- The answer to a request. -/
@[reducible] def Op.Ans : Op → Type
  | .store o => Result o.Ret
  | .chain o => Result o.Ret
  | .host o => o.Ans

/-- The interface of the engine. -/
@[reducible] def rpc : Interface := ⟨Op, Op.Ans⟩

/-- A program of the engine. -/
abbrev Prog (α : Type) : Type := Program rpc Error α

namespace Prog

/-- Ask the store. -/
def store (o : StoreOp) : Prog o.Ret := Program.request (I := rpc) (.store o) id

/-- Ask the chain. -/
def chain (o : ChainOp) : Prog o.Ret := Program.request (I := rpc) (.chain o) id

/-- The current time. -/
def now : Prog UInt64 := Program.request (I := rpc) (.host .now) .ok

/-- A fresh record id. -/
def newId : Prog String := Program.request (I := rpc) (.host .newId) .ok

/-- A fresh wallet. -/
def generateWallet : Prog Keypair := Program.request (I := rpc) (.host .generateWallet) id

/-- The secret of a wallet, encrypted with its associated data. -/
def sealWith (wallet : Keypair) (aad : String) : Prog SealedSecret :=
  Program.request (I := rpc) (.host (.sealWith wallet aad)) id

/-- Deliver a webhook. -/
def post (url : String) (status : PaymentStatus) : Prog Unit :=
  Program.request (I := rpc) (.host (.post url status)) id

/-- `Store::update`: the record as written. -/
def update (rec : PaymentRecord) : Prog PaymentRecord :=
  Program.request (I := rpc) (.store (.update rec)) (Except.map rec.stamped)

/-- `Chain::broadcast`: submit, wait for finalization, require success and the
expected event. -/
def broadcast (tx : PreparedTx) : Prog FinalizedTx := do
  chain (.submitAndWatch tx)
  let (blockHash, evs) ← chain (.waitForSuccess tx)
  tx.finalized blockHash evs

end Prog

end Buyback
