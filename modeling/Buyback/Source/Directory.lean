import Buyback.Durable.Volume
import Buyback.Source.FileStore

/-!
# The file store, request by request

`store.rs`: the methods of `FileStore` as programs over the files of its directory, with
the temporary file, the two syncs and the rename of `write`.  A file name is relative to
the directory.  The bytes of a record are those of the JSON library, of which only the
round trip is used, for the records that it gives back as they were.

`insert`, `update` and `migrate_legacy_policy` run under the mutex of the store, so one
such program runs at a time.
-/

namespace Buyback

open Resumption Durable

/-- The JSON of a record. -/
class RecordJson where
  encode : PaymentRecord → List UInt8
  decode : List UInt8 → Result PaymentRecord
  /-- The records that JSON gives back as they were.  Those whose metadata is `null` are not
  among them, since that is read as no metadata. -/
  Writable : PaymentRecord → Prop
  decode_encode : ∀ r, Writable r → decode (encode r) = .ok r

/-! ## File names -/

/-- What stands before and after the last dot, if there is one. -/
def rsplitDot : List Char → Option (List Char × List Char)
  | [] => none
  | c :: cs =>
      match rsplitDot cs with
      | some (before, after) => some (c :: before, after)
      | none => if c = '.' then some ([], cs) else none

/-- `Path::file_stem` and `Path::extension`.  A dot at the start does not count. -/
def stemExtension (name : String) : String × Option String :=
  match rsplitDot name.toList with
  | none | some ([], _) => (name, none)
  | some (before, after) => (String.ofList before, some (String.ofList after))

/-- `Path::with_extension`. -/
def withExtension (name ext : String) : String := (stemExtension name).1 ++ "." ++ ext

/-! ## Programs -/

/-- A program over the directory of a store. -/
abbrev Task (α : Type) : Type := Program (fs String UInt8 Error) Error α

namespace Task

/-- A request that may fail. -/
def ask (o : FsOp String UInt8) {α : Type} (answer : o.Ans Error → Result α) : Task α :=
  Program.request (I := fs String UInt8 Error) o answer

/-- `Path::exists`. -/
def pathExists (name : String) : Task Bool := ask (.exists name) .ok

/-- `std::fs::read`, with nothing for a file that is not found. -/
def readFile (name : String) : Task (Option (List UInt8)) := ask (.read name) id

/-- `std::fs::read_dir`. -/
def readDir : Task (List String) := ask .list id

/-- `OpenOptions::open` to write, created or truncated. -/
def openFile (name : String) : Task ℕ := ask (.create name) id

/-- `write_all`. -/
def writeAll (file : ℕ) (bytes : List UInt8) : Task Unit := ask (.append file bytes) id

/-- `sync_all` of a file. -/
def syncAll (file : ℕ) : Task Unit := ask (.syncNode file) id

/-- `std::fs::rename`. -/
def rename (a b : String) : Task Unit := ask (.rename a b) id

/-- `sync_all` of the directory. -/
def syncDir : Task Unit := ask .syncNames id

end Task

namespace Directory

/-- `path`: the file of an id. -/
def path [StdTexts] (id : String) : Result String :=
  if id = "" ∨ id.toList.all FileStore.idChar = false then
    .error (.store ("invalid id " ++ debugStr id))
  else .ok (id ++ ".json")

section

variable [RecordJson]

/-- `read`. -/
def read (path : String) : Task (Option PaymentRecord) := do
  match ← Task.readFile path with
  | none => return none
  | some b => do
      let r ← RecordJson.decode b
      return some r

/-- `write`: the record appears under its name when it is on disk. -/
def write (path : String) (rec : PaymentRecord) : Task Unit := do
  let tmp := withExtension path "json.tmp"
  let f ← Task.openFile tmp
  Task.writeAll f (RecordJson.encode rec)
  Task.syncAll f
  Task.rename tmp path
  -- the directory entry is on disk before a journaled transaction can broadcast
  Task.syncDir

/-- `migrate_legacy_policy`. -/
def migrateLegacyPolicy [Ss58] (id : String) (version : UInt64) (budget : Option BuybackBudget)
    (now : UInt64) : Task PaymentRecord := do
  let path ← path id
  match ← read path with
  | none => throw (.notFound id)
  | some previous => do
      let next ← migratedPolicy previous version budget now
      write path next
      return next

/-- `insert`. -/
def insert [StdTexts] (rec : PaymentRecord) : Task Unit := do
  let p ← path rec.id
  if (← Task.pathExists p) = true then throw (.store (rec.id ++ " exists"))
  else write p rec

/-- `get`. -/
def get [StdTexts] (id : String) : Task (Option PaymentRecord) := do
  let p ← path id
  read p

/-- The loop of `list` over the entries of the directory. -/
def collect (states : List PaymentState) :
    List String → List PaymentRecord → Task (List PaymentRecord)
  | [], out => return out
  | p :: ps, out =>
      if (stemExtension p).2 = some "json" then do
        match ← read p with
        | some r => collect states ps (if states.contains r.state then out ++ [r] else out)
        | none => collect states ps out
      else collect states ps out

/-- `list`. -/
def list (states : List PaymentState) : Task (List PaymentRecord) := do
  let entries ← Task.readDir
  let out ← collect states entries []
  return out.insertionSort fun a b => a.createdAt ≤ b.createdAt

/-- `update`. -/
def update [StdTexts] (rec : PaymentRecord) (now : UInt64) : Task PaymentRecord := do
  let p ← path rec.id
  match ← read p with
  | none => throw (.notFound rec.id)
  | some cur =>
      if cur.buybackBudget ≠ rec.buybackBudget ∨ cur.autoRequired ≠ rec.autoRequired ∨
          cur.identity ≠ rec.identity then
        throw (.store "immutable job budget")
      else if cur.version ≠ rec.version then throw (.conflict rec.id)
      else do
        let next := { rec with version := rec.version + 1, updatedAt := now }
        write p next
        return next

/-- The program of an operation. -/
def body [Ss58] (now : UInt64) : (o : SharedOp) → Task o.Ret
  | .insert rec => insert rec
  | .get id => get id
  | .list states => list states
  | .update rec => update rec now
  | .migrateLegacyPolicy id version budget => migrateLegacyPolicy id version budget now

end

end Directory

end Buyback
