import Mathlib.Data.List.AList
import Mathlib.Data.List.Sort
import Buyback.Source.Recovery

/-!
# The SQLite store

`store.rs`: the two tables of a `SqliteStore` and its operations, each one
transaction.  An operation takes what it reads from outside as an argument (the
clock, a fresh token, the archive scan) and returns its answer with the new
store, or an error and no store: a transaction that fails is rolled back.

A table is an `AList`, so a primary key occurs at most once.  The columns `state`,
`version` and `created_at` of a payment are kept next to the JSON record, since
`reserve` and `list` read the columns and the rest reads the record.
-/

namespace Buyback

/-- A row of `payments`, without its key. -/
structure PaymentRow where
  state : PaymentState
  version : Int64
  createdAt : Int64
  record : PaymentRecord
deriving DecidableEq, Repr

/-- A row of `signer_reservations`, without its key. -/
structure Reservation where
  job : String
  token : String
deriving DecidableEq, Repr

structure SqliteStore where
  /-- Keyed by record id. -/
  payments : AList fun _ : String => PaymentRow
  /-- Keyed by signer. -/
  signerReservations : AList fun _ : String => Reservation
  /-- The audit table of recoveries, keyed by job and previous version. -/
  legacyRecoveries : AList fun _ : String × Int64 => LegacyManifest × RecoveryReport

/-- `i64::try_from` of a `u64`. -/
def i64TryFrom (n : UInt64) : Option Int64 := if n.toNat < 2 ^ 63 then some n.toInt64 else none

/-- `checked_add(1)` of a version. -/
def nextVersion (version : UInt64) : Result UInt64 :=
  if version.toNat + 1 < 2 ^ 64 then .ok (version + 1) else .error (.store "version overflow")

/-- `migrated_policy`. -/
def migratedPolicy [Ss58] (rec : PaymentRecord) (version : UInt64) (budget : Option BuybackBudget)
    (now : UInt64) : Result PaymentRecord :=
  if rec.version ≠ version then .error (.conflict rec.id)
  else if rec.autoRequired.isSome ∨ rec.buybackBudget.isSome ∨ rec.pending.isSome ∨
      rec.quarantined.isSome ∨ rec.txs ≠ [] ∨ rec.buyback.isSome ∨ rec.buybackDone = true ∨
      rec.fundedTao ≠ 0 ∨ rec.sweptAlpha ≠ 0 ∨ rec.sweptPositions ≠ [] ∨ rec.consolidated ≠ 0 ∨
      rec.dustReturned = true ∨ ¬ (rec.state = .pending ∨ rec.state = .detected) then
    .error (.store "legacy job has policy or execution evidence; manual reconciliation required")
  else do
    validateBudget budget
    let next ← nextVersion rec.version
    return { rec with
      autoRequired := some budget.isSome, buybackBudget := budget, version := next
      updatedAt := now }

namespace SqliteStore

/-- A database with no rows. -/
def empty : SqliteStore := ⟨∅, ∅, ∅⟩

/-- The record stored for an id. -/
def get (s : SqliteStore) (id : String) : Option PaymentRecord :=
  (s.payments.lookup id).map PaymentRow.record

/-- The records in the given states, by creation time. -/
def list (s : SqliteStore) (states : List PaymentState) : List PaymentRecord :=
  (((s.payments.entries.map Sigma.snd).insertionSort fun a b => a.createdAt ≤ b.createdAt).filter
    fun row => states.contains row.state).map PaymentRow.record

/-- Whether a stored journal is signed by `signer`. -/
def journaled (s : SqliteStore) (signer : String) : Bool :=
  s.payments.entries.any fun row => row.2.record.pending.any fun p => p.signer == signer

/-- Whether the record of `job` has a journal. -/
def jobJournaled (s : SqliteStore) (job : String) : Bool :=
  (s.get job).any fun r => r.pending.isSome

/-- Whether the row `(signer, job, token)` is in the table of reservations. -/
def owned (s : SqliteStore) (signer job token : String) : Bool :=
  s.signerReservations.lookup signer == some ⟨job, token⟩

/-- Insert a new record.  Fails if the id exists. -/
def insert (s : SqliteStore) (rec : PaymentRecord) : Result (Unit × SqliteStore) :=
  if rec.id ∈ s.payments then .error (.store "UNIQUE constraint failed: payments.id")
  else
    .ok ((), { s with
      payments := s.payments.insert rec.id
        { state := rec.state, version := rec.version.toInt64, createdAt := rec.createdAt.toInt64
          record := rec } })

/-- `reserve`: take `signer` for `job`, if the stored version is the expected one,
no journal of that signer is unresolved and the signer is free. -/
def reserve (s : SqliteStore) (signer job : String) (version : Option UInt64) (token : String) :
    Result (String × SqliteStore) :=
  if ∃ v, version = some v ∧ (s.payments.lookup job).map PaymentRow.version ≠ i64TryFrom v then
    .error (.conflict job)
  else if s.journaled signer = true then .error (.conflict "unresolved signer journal")
  else if signer ∈ s.signerReservations ∨
      (s.signerReservations.entries.any fun row => row.2.token == token) = true then
    -- INSERT OR IGNORE wrote no row
    .error (.conflict ("signer " ++ signer ++ " reserved"))
  else
    .ok (token, { s with
      signerReservations := s.signerReservations.insert signer ⟨job, token⟩ })

/-- Reserve a signer for the record a caller holds. -/
def reserveSignerForRecord (s : SqliteStore) (signer : String) (rec : PaymentRecord)
    (token : String) : Result (String × SqliteStore) :=
  s.reserve signer rec.id (some rec.version) token

/-- Reserve a signer for a job of any version. -/
def reserveSigner (s : SqliteStore) (signer job token : String) : Result (String × SqliteStore) :=
  s.reserve signer job none token

/-- Release a reservation whose preparation failed. -/
def cancelPreparation (s : SqliteStore) (signer job token : String) :
    Result (Unit × SqliteStore) :=
  if s.owned signer job token = true ∧ s.journaled signer = false ∧ s.jobJournaled job = false then
    .ok ((), { s with signerReservations := s.signerReservations.erase signer })
  else .error (.conflict "preparation token or pending journal changed")

/-- The reservations after `update` replaced the journal `previous` by `next`. -/
def releaseResolved (s : SqliteStore) (job : String) (previous next : Option PendingTx) :
    Result (AList fun _ : String => Reservation) :=
  match previous with
  | none => .ok s.signerReservations
  | some p =>
      if next.isSome ∧ next ≠ previous then .error (.store "cannot replace unresolved journal")
      else if next.isSome then .ok s.signerReservations
      else
        match p.reservation with
        | none => .error (.store "legacy journal requires manual reconciliation")
        | some token =>
            if s.owned p.signer job token then .ok (s.signerReservations.erase p.signer)
            else .error (.store "signer reservation mismatch")

/-- The check of the journal `update` is asked to store. -/
def checkJournal (s : SqliteStore) (job : String) : Option PendingTx → Result Unit
  | none => .ok ()
  | some p =>
      match p.reservation with
      | none => .error (.store "legacy journal requires manual reconciliation")
      | some token =>
          if s.owned p.signer job token then .ok ()
          else .error (.store "signer reservation mismatch")

/-- Write `rec` if the stored version is its version. -/
def update (s : SqliteStore) (rec : PaymentRecord) (now : UInt64) :
    Result (PaymentRecord × SqliteStore) :=
  match s.get rec.id with
  | none => .error (.notFound rec.id)
  | some previous =>
      if previous.version ≠ rec.version then .error (.conflict rec.id)
      else if previous.buybackBudget ≠ rec.buybackBudget ∨
          previous.autoRequired ≠ rec.autoRequired ∨ previous.identity ≠ rec.identity then
        .error (.store "immutable job budget")
      else do
        s.checkJournal rec.id rec.pending
        let reservations ← s.releaseResolved rec.id previous.pending rec.pending
        let version ← nextVersion rec.version
        let next := { rec with version := version, updatedAt := now }
        return (next, { s with
          signerReservations := reservations
          payments := (s.payments.lookup next.id).elim s.payments fun row =>
            s.payments.insert next.id
              { row with state := next.state, version := next.version.toInt64, record := next } })

/-- Explicit migration of a pristine legacy record. -/
def migrateLegacyPolicy [Ss58] (s : SqliteStore) (id : String) (version : UInt64)
    (budget : Option BuybackBudget) (now : UInt64) : Result (PaymentRecord × SqliteStore) :=
  if (s.signerReservations.entries.any fun row => row.2.job == id) = true then
    .error (.conflict "job has a signer reservation")
  else
    match s.payments.lookup id with
    | none => .error (.store "Query returned no rows")
    | some row => do
        let next ← migratedPolicy row.record version budget now
        match i64TryFrom next.version with
        | none => .error (.store StdTexts.outOfRange)
        | some v =>
            return (next, { s with
              payments := s.payments.insert id { row with version := v, record := next } })

/-- Whether a signer of the recovery, or its job, is reserved or unresolved. -/
def recoveryBusy (s : SqliteStore) (address treasury job : String) : Bool :=
  (s.signerReservations.entries.any fun row =>
    row.1 == address || row.1 == treasury || row.2.job == job) ||
  s.payments.entries.any fun row =>
    (row.2.record.pending.any fun p => p.signer == address || p.signer == treasury) ||
    row.2.record.quarantined.any fun p => p.signer == address || p.signer == treasury

/-- Apply a verified legacy manifest in one exclusive transaction. -/
def recoverLegacy [Ss58] (s : SqliteStore)
    (scan : PaymentRecord → LegacyManifest → Result ArchiveScan) (manifest : LegacyManifest)
    (now : UInt64) : Result (RecoveryReport × SqliteStore) :=
  match s.payments.lookup manifest.job with
  | none => .error (.store "Query returned no rows")
  | some row => do
      let record := row.record
      validateManifest record manifest
      if s.recoveryBusy record.address manifest.treasury record.id = true then
        .error (.conflict "legacy recovery signers have unresolved ownership")
      else
        let (next, report) ← verify scan record manifest
        let version ← nextVersion next.version
        let next := { next with version := version, updatedAt := now }
        let report := { report with applied := true }
        match i64TryFrom next.version, i64TryFrom record.version with
        | some v, some previous =>
            if next.id = manifest.job ∧ row.version = previous then
              if (record.id, previous) ∈ s.legacyRecoveries then
                .error (.store "UNIQUE constraint failed: legacy_recoveries")
              else
                return (report, { s with
                  payments :=
                    s.payments.insert manifest.job { row with version := v, record := next }
                  legacyRecoveries :=
                    s.legacyRecoveries.insert (record.id, previous) (manifest, report) })
            else .error (.conflict record.id)
        | _, _ => .error (.store StdTexts.outOfRange)

end SqliteStore

end Buyback
