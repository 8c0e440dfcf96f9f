import Buyback.Source.Store

/-!
# The file store

`store.rs`: a `FileStore` is a directory with one JSON file for each record.  The file
of a record is named by its id, so the directory is a table keyed by id.  Writing goes
through a temporary file and a rename, and is one step here.

The mutex of the store makes an insertion, an update and a migration one step each.
`SharedOp` lists the operations both stores implement.
-/

namespace Buyback

structure FileStore where
  /-- The `.json` files of the directory, keyed by the id in their name. -/
  files : AList fun _ : String => PaymentRecord

namespace FileStore

/-- An empty directory. -/
def empty : FileStore := ⟨∅⟩

/-- The characters of an id that may name a file. -/
def idChar (c : Char) : Bool := c.isAlphanum || c == '-'

/-- `path`: the file of an id. -/
def path [StdTexts] (id : String) : Result String :=
  if id = "" ∨ id.toList.all idChar = false then .error (.store ("invalid id " ++ debugStr id))
  else .ok id

/-- Read a file, if it exists. -/
def read (f : FileStore) (path : String) : Option PaymentRecord := f.files.lookup path

/-- Replace a file. -/
def write (f : FileStore) (path : String) (rec : PaymentRecord) : FileStore :=
  ⟨f.files.insert path rec⟩

/-- Explicit migration of a pristine legacy record. -/
def migrateLegacyPolicy [Ss58] (f : FileStore) (id : String) (version : UInt64)
    (budget : Option BuybackBudget) (now : UInt64) : Result (PaymentRecord × FileStore) := do
  let path ← path id
  match f.read path with
  | none => .error (.notFound id)
  | some previous => do
      let next ← migratedPolicy previous version budget now
      return (next, f.write path next)

/-- Insert a new record.  Fails if the id exists. -/
def insert [StdTexts] (f : FileStore) (rec : PaymentRecord) : Result (Unit × FileStore) := do
  let p ← path rec.id
  if (f.read p).isSome then .error (.store (rec.id ++ " exists"))
  else return ((), f.write p rec)

/-- The record stored for an id. -/
def get [StdTexts] (f : FileStore) (id : String) : Result (Option PaymentRecord) := do
  let p ← path id
  return f.read p

/-- The records in the given states, by creation time. -/
def list (f : FileStore) (states : List PaymentState) : List PaymentRecord :=
  ((f.files.entries.map Sigma.snd).filter fun r => states.contains r.state).insertionSort
    fun a b => a.createdAt ≤ b.createdAt

/-- Write `rec` if the stored version is its version. -/
def update [StdTexts] (f : FileStore) (rec : PaymentRecord) (now : UInt64) :
    Result (PaymentRecord × FileStore) := do
  let p ← path rec.id
  match f.read p with
  | none => .error (.notFound rec.id)
  | some cur =>
      if cur.buybackBudget ≠ rec.buybackBudget ∨ cur.autoRequired ≠ rec.autoRequired ∨
          cur.identity ≠ rec.identity then
        .error (.store "immutable job budget")
      else if cur.version ≠ rec.version then .error (.conflict rec.id)
      else
        let next := { rec with version := rec.version + 1, updatedAt := now }
        return (next, f.write p next)

end FileStore

/-- The operations both stores implement. -/
inductive SharedOp where
  | insert (rec : PaymentRecord)
  | get (id : String)
  | list (states : List PaymentState)
  | update (rec : PaymentRecord)
  | migrateLegacyPolicy (id : String) (version : UInt64) (budget : Option BuybackBudget)

/-- What an operation returns. -/
@[reducible] def SharedOp.Ret : SharedOp → Type
  | .insert _ => Unit
  | .get _ => Option PaymentRecord
  | .list _ => List PaymentRecord
  | .update _ => PaymentRecord
  | .migrateLegacyPolicy .. => PaymentRecord

/-- An operation that fails leaves the store as it was. -/
def orKeep {σ α : Type} (s : σ) : Result (α × σ) → Result α × σ
  | .ok (a, s') => (.ok a, s')
  | .error e => (.error e, s)

/-- Run one operation on a directory. -/
def FileStore.perform [Ss58] (f : FileStore) (now : UInt64) :
    (o : SharedOp) → Result o.Ret × FileStore
  | .insert rec => orKeep f (f.insert rec)
  | .get id => (f.get id, f)
  | .list states => (.ok (f.list states), f)
  | .update rec => orKeep f (f.update rec now)
  | .migrateLegacyPolicy id version budget => orKeep f (f.migrateLegacyPolicy id version budget now)

/-- Run one operation on a database. -/
def SqliteStore.performShared [Ss58] (s : SqliteStore) (now : UInt64) :
    (o : SharedOp) → Result o.Ret × SqliteStore
  | .insert rec => orKeep s (s.insert rec)
  | .get id => (.ok (s.get id), s)
  | .list states => (.ok (s.list states), s)
  | .update rec => orKeep s (s.update rec now)
  | .migrateLegacyPolicy id version budget => orKeep s (s.migrateLegacyPolicy id version budget now)

end Buyback
