import Buyback.Recovery.Accepted
import Buyback.Store.Transactions

/-!
# The rows a transaction writes

When an insertion, an update or a migration succeeds, and the very row it writes.  The
columns of a row are written by different operations: the creation time by the insertion
alone, the state by the insertion and the update.
-/

namespace Buyback

/-- The row an insertion writes. -/
def PaymentRecord.row (r : PaymentRecord) : PaymentRow :=
  { state := r.state, version := r.version.toInt64, createdAt := r.createdAt.toInt64, record := r }

namespace PaymentRow

/-- The row an update writes over `row`. -/
def updated (row : PaymentRow) (r : PaymentRecord) : PaymentRow :=
  { row with state := r.state, version := r.version.toInt64, record := r }

/-- The row a migration writes over `row`. -/
def migrated (row : PaymentRow) (r : PaymentRecord) : PaymentRow :=
  { row with version := r.version.toInt64, record := r }

/-- The columns of a row say what its record says. -/
structure Mirrors (row : PaymentRow) : Prop where
  state : row.state = row.record.state
  version : row.version = row.record.version.toInt64

theorem mirrors_row (r : PaymentRecord) : r.row.Mirrors := ⟨rfl, rfl⟩

theorem mirrors_updated (row : PaymentRow) (r : PaymentRecord) : (row.updated r).Mirrors :=
  ⟨rfl, rfl⟩

/-- A migration does not write the state, so it must not change it. -/
theorem Mirrors.migrated {row : PaymentRow} {r : PaymentRecord} (h : row.Mirrors)
    (hstate : r.state = row.record.state) : (row.migrated r).Mirrors :=
  ⟨h.state.trans hstate.symm, rfl⟩

end PaymentRow

namespace SqliteStore

variable {s s' : SqliteStore} {id : String} {now : UInt64} {r next : PaymentRecord}

theorem insert_iff {u : Unit} : s.insert r = .ok (u, s') ↔
    s.payments.lookup r.id = none ∧ s' = { s with payments := s.payments.insert r.id r.row } := by
  rw [AList.lookup_eq_none]
  unfold insert
  split
  next h =>
    constructor
    · intro h'
      cases h'
    · intro h'
      exact absurd h h'.1
  next h =>
    constructor
    · intro h'
      cases h'
      exact ⟨h, rfl⟩
    · rintro ⟨-, rfl⟩
      rfl

theorem update_writes (h : s.update r now = .ok (next, s')) :
    ∃ row, s.payments.lookup r.id = some row ∧ next = r.stamped now ∧
      s'.payments = s.payments.insert r.id (row.updated (r.stamped now)) := by
  unfold update at h
  split at h
  next => cases h
  next old hold =>
    split_ifs at h
    obtain ⟨_, -, h⟩ := Result.bind_ok h
    obtain ⟨reservations, -, h⟩ := Result.bind_ok h
    obtain ⟨v, hv, h⟩ := Result.bind_ok h
    obtain ⟨-, rfl⟩ := nextVersion_ok hv
    obtain ⟨row, hrow, -⟩ := get_eq_some.mp hold
    cases h
    refine ⟨row, hrow, rfl, ?_⟩
    simp only [hrow, Option.elim_some]
    rfl

theorem migrateLegacyPolicy_iff [Ss58] {version : UInt64} {budget : Option BuybackBudget} :
    s.migrateLegacyPolicy id version budget now = .ok (next, s') ↔
      (s.signerReservations.entries.any fun x => x.2.job == id) = false ∧
        ∃ row, s.payments.lookup id = some row ∧
          migratedPolicy row.record version budget now = .ok next ∧ next.version.toNat < 2 ^ 63 ∧
          s' = { s with payments := s.payments.insert id (row.migrated next) } := by
  unfold migrateLegacyPolicy
  split
  next hreserved =>
    constructor
    · intro h
      cases h
    · rintro ⟨hfree, -⟩
      rw [hreserved] at hfree
      cases hfree
  next hreserved =>
    rw [Bool.not_eq_true] at hreserved
    split
    next hrow =>
      constructor
      · intro h
        cases h
      · rintro ⟨-, row, hrow', -⟩
        rw [hrow] at hrow'
        cases hrow'
    next row hrow =>
      constructor
      · intro h
        obtain ⟨x, hx, h⟩ := Result.bind_ok h
        split at h
        next => cases h
        next v hv =>
          unfold i64TryFrom at hv
          split_ifs at hv with hlt
          cases hv
          cases h
          exact ⟨hreserved, row, hrow, hx, hlt, rfl⟩
      · rintro ⟨-, row', hrow', hpolicy, hlt, rfl⟩
        rw [hrow] at hrow'
        cases hrow'
        rw [Result.ok_bind hpolicy]
        simp only [i64TryFrom, if_pos hlt]
        rfl

theorem recoverLegacy_row [Ss58] {scan : PaymentRecord → LegacyManifest → Result ArchiveScan}
    {m : LegacyManifest} {report : RecoveryReport}
    (h : s.recoverLegacy scan m now = .ok (report, s')) :
    ∃ row next, s.payments.lookup m.job = some row ∧
      (∃ report', verify scan row.record m = .ok (next, report')) ∧
      s'.payments = s.payments.insert m.job (row.migrated (next.stamped now)) := by
  unfold recoverLegacy at h
  split at h
  next => cases h
  next row hrow =>
    obtain ⟨_, -, h⟩ := Result.bind_ok h
    split at h
    next => cases h
    next =>
      obtain ⟨⟨next, report'⟩, hverify, h⟩ := Result.bind_ok h
      obtain ⟨version, hversion, h⟩ := Result.bind_ok h
      obtain ⟨-, rfl⟩ := nextVersion_ok hversion
      dsimp only at h
      split at h
      next v previous hv _ =>
        split_ifs at h
        cases h
        exact ⟨row, next, hrow, ⟨report', hverify⟩, by rw [toInt64_of_i64TryFrom hv]; rfl⟩
      next => cases h

/-! ## The columns -/

/-- The columns of every row say what its record says. -/
def Mirrored (s : SqliteStore) : Prop := ∀ id row, s.payments.lookup id = some row → row.Mirrors

theorem Mirrored.insert {row : PaymentRow} (hs : s.Mirrored) (hrow : row.Mirrors)
    (heq : s'.payments = s.payments.insert id row) : s'.Mirrored := by
  intro id' row' h
  rw [heq] at h
  by_cases hid : id' = id
  · subst hid
    rw [AList.lookup_insert] at h
    cases h
    exact hrow
  · rw [AList.lookup_insert_ne hid] at h
    exact hs id' row' h

end SqliteStore

end Buyback
