import Buyback.Store.Versions

/-!
# The two stores behave alike

A directory and a database that hold the same records answer every operation alike,
and hold the same records afterwards.  The database keeps the creation time of a record
twice, and lists by the copy that only the insertion writes.  So the two list in the
same order as long as updates leave the creation time alone.

A database also refuses a migration to a version that is not an `i64`, and a directory
an empty id.
-/

namespace Buyback

/-! ## What is compared -/

/-- Records in the order of their creation. -/
def ByCreation (rs : List PaymentRecord) : Prop := rs.Pairwise fun a b => a.createdAt ≤ b.createdAt

/-- Two answers to one operation say the same.  Records of the same creation time may
be listed in any order. -/
def SharedOp.Agree : (o : SharedOp) → Result o.Ret → Result o.Ret → Prop
  | .list _, .ok xs, .ok ys => xs.Perm ys ∧ ByCreation xs ∧ ByCreation ys
  | _, .ok a, .ok b => a = b
  | _, .error _, .error _ => True
  | _, _, _ => False

/-- A record without a journal, whose numbers fit an `i64`. -/
structure PaymentRecord.Plain (r : PaymentRecord) : Prop where
  id : r.id.toList.all FileStore.idChar = true
  pending : r.pending = none
  version : r.version.toNat < 2 ^ 63
  createdAt : r.createdAt.toNat < 2 ^ 63

/-- An operation on plain records. -/
def SharedOp.Plain : SharedOp → Prop
  | .insert r => r.Plain
  | .get id => id.toList.all FileStore.idChar = true
  | .list _ => True
  | .update r => r.Plain
  | .migrateLegacyPolicy id _ _ => id.toList.all FileStore.idChar = true

/-- What is asked of an operation besides.  Ids are not empty.  An update that would succeed
leaves the creation time alone.  The version after that of a record to migrate fits an `i64`. -/
def SharedOp.Steady (f : FileStore) : SharedOp → Prop
  | .insert r => r.id ≠ ""
  | .get id => id ≠ ""
  | .list _ => True
  | .update r => r.id ≠ "" ∧
      ∀ cur, f.read r.id = some cur → Current cur r → r.createdAt = cur.createdAt
  | .migrateLegacyPolicy id _ _ => id ≠ "" ∧
      ∀ cur, f.read id = some cur → cur.version.toNat + 1 < 2 ^ 63

/-! ## The simulation -/

/-- A row whose columns say what its plain record says. -/
structure PaymentRow.Faithful (row : PaymentRow) : Prop extends row.Mirrors where
  createdAt : row.createdAt = row.record.createdAt.toInt64
  small : row.record.createdAt.toNat < 2 ^ 63
  pending : row.record.pending = none

/-- A directory and a database with the same records, and no reservations. -/
structure Alike (f : FileStore) (s : SqliteStore) : Prop where
  get_eq : ∀ id, s.get id = f.read id
  faithful : ∀ id row, s.payments.lookup id = some row → row.Faithful
  reservations : s.signerReservations = ∅

namespace Alike

variable {f : FileStore} {s : SqliteStore}

/-- Both write the record of an id. -/
theorem write (h : Alike f s) {id : String} {r : PaymentRecord} {row : PaymentRow}
    (hrow : row.Faithful) (hrec : row.record = r) :
    Alike (f.write id r) { s with payments := s.payments.insert id row } where
  get_eq id' := by
    by_cases hid : id' = id
    · subst hid
      rw [FileStore.read_write_self, SqliteStore.get, AList.lookup_insert, Option.map_some, hrec]
    · rw [FileStore.read_write_ne hid, ← h.get_eq, SqliteStore.get, AList.lookup_insert_ne hid,
        SqliteStore.get]
  faithful id' row' hrow' := by
    by_cases hid : id' = id
    · subst hid
      rw [AList.lookup_insert] at hrow'
      cases hrow'
      exact hrow
    · rw [AList.lookup_insert_ne hid] at hrow'
      exact h.faithful id' row' hrow'
  reservations := h.reservations

/-- The file of an id and the row of an id. -/
theorem lookup_iff (h : Alike f s) {id : String} {r : PaymentRecord} :
    f.read id = some r ↔ ∃ row, s.payments.lookup id = some row ∧ row.record = r := by
  rw [← h.get_eq, SqliteStore.get_eq_some]

theorem lookup_none (h : Alike f s) {id : String} :
    f.read id = none ↔ s.payments.lookup id = none := by
  rw [← h.get_eq, SqliteStore.get, Option.map_eq_none_iff]

end Alike

/-- Both stores succeed with the same answer and alike, or both fail. -/
inductive Matches {α : Type} (f : FileStore) (s : SqliteStore) :
    Result (α × FileStore) → Result (α × SqliteStore) → Prop where
  | ok {a : α} {f' : FileStore} {s' : SqliteStore} :
      Alike f' s' → Matches f s (.ok (a, f')) (.ok (a, s'))
  | error {e e' : Error} : Matches f s (.error e) (.error e')

theorem Matches.intro {α : Type} {f : FileStore} {s : SqliteStore} {x : Result (α × FileStore)}
    {y : Result (α × SqliteStore)}
    (hxy : ∀ a f', x = .ok (a, f') → ∃ s', y = .ok (a, s') ∧ Alike f' s')
    (hyx : ∀ a s', y = .ok (a, s') → ∃ f', x = .ok (a, f')) : Matches f s x y := by
  cases hx : x with
  | ok p =>
      obtain ⟨s', hy, halike⟩ := hxy p.1 p.2 hx
      rw [hy]
      exact .ok halike
  | error e =>
      cases hy : y with
      | ok q =>
          obtain ⟨f', hx'⟩ := hyx q.1 q.2 hy
          rw [hx] at hx'
          cases hx'
      | error e' => exact .error

theorem Matches.alike {α : Type} {f : FileStore} {s : SqliteStore} {x : Result (α × FileStore)}
    {y : Result (α × SqliteStore)} (h : Matches f s x y) (hs : Alike f s) :
    Alike (orKeep f x).2 (orKeep s y).2 := by
  cases h with
  | ok h' => exact h'
  | error => exact hs

section

variable {f : FileStore} {s : SqliteStore} {now : UInt64} {r : PaymentRecord}

theorem PaymentRecord.Plain.faithful_row (h : r.Plain) : r.row.Faithful :=
  ⟨PaymentRow.mirrors_row r, rfl, h.createdAt, h.pending⟩

theorem insert_matches [StdTexts] (hs : Alike f s) (hr : r.Plain) (hid : r.id ≠ "") :
    Matches f s (f.insert r) (s.insert r) := by
  refine .intro (fun u f' h => ?_) fun u s' h => ?_
  · obtain ⟨-, hnone, rfl⟩ := FileStore.insert_iff.mp h
    exact ⟨_, SqliteStore.insert_iff.mpr ⟨hs.lookup_none.mp hnone, rfl⟩,
      hs.write hr.faithful_row rfl⟩
  · obtain ⟨hnone, -⟩ := SqliteStore.insert_iff.mp h
    exact ⟨_, FileStore.insert_iff.mpr ⟨⟨hid, hr.id⟩, hs.lookup_none.mpr hnone, rfl⟩⟩

/-- An update between records without journals touches no reservation. -/
theorem SqliteStore.update_of_current {row : PaymentRow}
    (hrow : s.payments.lookup r.id = some row) (hc : Current row.record r)
    (hold : row.record.pending = none) (hr : r.pending = none)
    (hlt : r.version.toNat + 1 < 2 ^ 64) :
    s.update r now = .ok (r.stamped now,
      { s with payments := s.payments.insert r.id (row.updated (r.stamped now)) }) := by
  have hget : s.get r.id = some row.record := SqliteStore.get_eq_some.mpr ⟨row, hrow, rfl⟩
  rw [SqliteStore.update, hget]
  simp only [hc.version, hc.buybackBudget, hc.autoRequired, hc.identity, ne_eq, not_true_eq_false,
    or_self, if_false, hr, hold, SqliteStore.checkJournal, SqliteStore.releaseResolved,
    nextVersion, if_pos hlt, hrow, Option.elim_some, PaymentRecord.stamped, PaymentRow.updated]
  rfl

theorem SqliteStore.current_of_update {a : PaymentRecord} {s' : SqliteStore}
    (h : s.update r now = .ok (a, s')) :
    a = r.stamped now ∧ ∃ row, s.payments.lookup r.id = some row ∧ Current row.record r := by
  obtain ⟨rfl, hu⟩ := SqliteStore.update_ok h
  obtain ⟨old, hold, hversion, hbudget, hrequired, hidentity, -⟩ := hu.previous
  obtain ⟨row, hrow, rfl⟩ := SqliteStore.get_eq_some.mp hold
  exact ⟨rfl, row, hrow, hversion, hbudget, hrequired, hidentity⟩

theorem update_matches [StdTexts] (hs : Alike f s) (hr : r.Plain) (hid : r.id ≠ "")
    (hcreated : ∀ cur, f.read r.id = some cur → Current cur r → r.createdAt = cur.createdAt) :
    Matches f s (f.update r now) (s.update r now) := by
  refine .intro (fun a f' h => ?_) fun a s' h => ?_
  · obtain ⟨-, ⟨cur, hcur, hc⟩, rfl, rfl⟩ := FileStore.update_iff.mp h
    obtain ⟨row, hrow, rfl⟩ := hs.lookup_iff.mp hcur
    have hfaithful := hs.faithful r.id row hrow
    have hlt := hr.version
    refine ⟨_, SqliteStore.update_of_current hrow hc hfaithful.pending hr.pending (by omega),
      hs.write ⟨row.mirrors_updated _, ?_, hr.createdAt, hr.pending⟩ rfl⟩
    have heq := hcreated row.record hcur hc
    change row.createdAt = r.createdAt.toInt64
    rw [heq, hfaithful.createdAt]
  · obtain ⟨rfl, row, hrow, hc⟩ := SqliteStore.current_of_update h
    exact ⟨_, FileStore.update_iff.mpr ⟨⟨hid, hr.id⟩,
      ⟨row.record, hs.lookup_iff.mpr ⟨row, hrow, rfl⟩, hc⟩, rfl, rfl⟩⟩

theorem migrate_matches [Ss58] {id : String} {version : UInt64} {budget : Option BuybackBudget}
    (hs : Alike f s) (hid : FileStore.ValidId id)
    (hlt : ∀ cur, f.read id = some cur → cur.version.toNat + 1 < 2 ^ 63) :
    Matches f s (f.migrateLegacyPolicy id version budget now)
      (s.migrateLegacyPolicy id version budget now) := by
  refine .intro (fun a f' h => ?_) fun a s' h => ?_
  · obtain ⟨-, ⟨old, hold, hpolicy⟩, rfl⟩ := FileStore.migrateLegacyPolicy_iff.mp h
    have hlt := hlt old hold
    obtain ⟨row, hrow, rfl⟩ := hs.lookup_iff.mp hold
    obtain ⟨-, hpending, -, -, rfl⟩ := SqliteStore.migratedPolicy_ok hpolicy
    have hfaithful := hs.faithful id row hrow
    have hfree : (s.signerReservations.entries.any fun x => x.2.job == id) = false := by
      rw [hs.reservations]
      rfl
    refine ⟨_, SqliteStore.migrateLegacyPolicy_iff.mpr ⟨hfree, row, hrow, hpolicy, ?_, rfl⟩,
      hs.write
        ⟨hfaithful.toMirrors.migrated rfl, hfaithful.createdAt, hfaithful.small, hpending⟩ rfl⟩
    have hnext := @PaymentRecord.versionNat_stamped row.record now (by omega)
    exact hnext.trans_lt hlt
  · obtain ⟨-, row, hrow, hpolicy, -⟩ := SqliteStore.migrateLegacyPolicy_iff.mp h
    exact ⟨_, FileStore.migrateLegacyPolicy_iff.mpr
      ⟨hid, ⟨row.record, hs.lookup_iff.mpr ⟨row, hrow, rfl⟩, hpolicy⟩, rfl⟩⟩

end

/-! ## Listing -/

instance : Std.Total fun a b : PaymentRecord => a.createdAt ≤ b.createdAt :=
  ⟨fun _ _ => UInt64.le_total _ _⟩

instance : IsTrans PaymentRecord fun a b => a.createdAt ≤ b.createdAt :=
  ⟨fun _ _ _ => UInt64.le_trans⟩

instance : Std.Total fun a b : PaymentRow => a.createdAt ≤ b.createdAt :=
  ⟨fun _ _ => Int64.le_total _ _⟩

instance : IsTrans PaymentRow fun a b => a.createdAt ≤ b.createdAt :=
  ⟨fun _ _ _ => Int64.le_trans⟩

namespace Alike

variable {f : FileStore} {s : SqliteStore}

/-- The rows of a table, with the keys of the files of a directory. -/
theorem entries_perm (h : Alike f s) : f.files.entries.Perm
    (s.payments.entries.map fun e =>
      (⟨e.1, e.2.record⟩ : Sigma fun _ : String => PaymentRecord)) := by
  refine List.mem_ext f.files.nodupKeys.nodup ?_ ?_
  · refine List.Nodup.of_map Sigma.fst ?_
    rw [List.map_map]
    exact s.payments.nodupKeys
  · rintro ⟨id, r⟩
    rw [← AList.mem_lookup_iff, List.mem_map]
    refine h.lookup_iff.trans ⟨?_, ?_⟩
    · rintro ⟨row, hrow, rfl⟩
      exact ⟨⟨id, row⟩, AList.mem_lookup_iff.mp hrow, rfl⟩
    · rintro ⟨⟨id', row⟩, hmem, heq⟩
      cases heq
      exact ⟨row, AList.mem_lookup_iff.mpr hmem, rfl⟩

theorem mem_rows (h : Alike f s) {row : PaymentRow}
    (hrow : row ∈ s.payments.entries.map Sigma.snd) : row.Faithful := by
  obtain ⟨⟨id, row⟩, hmem, rfl⟩ := List.mem_map.mp hrow
  exact h.faithful id row (AList.mem_lookup_iff.mpr hmem)

theorem list_perm (h : Alike f s) (states : List PaymentState) :
    (f.list states).Perm (s.list states) := by
  have hrecords : (f.files.entries.map Sigma.snd).Perm
      ((s.payments.entries.map Sigma.snd).map PaymentRow.record) := by
    have := h.entries_perm.map Sigma.snd
    rwa [List.map_map] at this ⊢
  have hfilter : (s.payments.entries.map Sigma.snd).filter (fun row => states.contains row.state) =
      (s.payments.entries.map Sigma.snd).filter
        ((fun r => states.contains r.state) ∘ PaymentRow.record) :=
    List.filter_congr fun row hrow => by rw [(h.mem_rows hrow).state]; rfl
  have hfile : (f.list states).Perm
      ((f.files.entries.map Sigma.snd).filter fun r => states.contains r.state) := by
    unfold FileStore.list
    exact List.perm_insertionSort _ _
  refine hfile.trans ((hrecords.filter _).trans ?_)
  rw [List.filter_map, ← hfilter]
  exact (((List.perm_insertionSort _ _).filter _).map _).symm

theorem list_agree (h : Alike f s) (states : List PaymentState) :
    (f.list states).Perm (s.list states) ∧ ByCreation (f.list states) ∧
      ByCreation (s.list states) := by
  refine ⟨h.list_perm states, List.pairwise_insertionSort _ _, ?_⟩
  have hsorted := (List.pairwise_insertionSort (fun a b : PaymentRow => a.createdAt ≤ b.createdAt)
    (s.payments.entries.map Sigma.snd)).filter fun row => states.contains row.state
  refine List.pairwise_map.mpr (hsorted.imp_of_mem fun {a b} ha hb hab => ?_)
  have hfaithful {row : PaymentRow} (hrow : row ∈
      ((s.payments.entries.map Sigma.snd).insertionSort fun a b => a.createdAt ≤ b.createdAt).filter
        fun row => states.contains row.state) : row.Faithful :=
    h.mem_rows ((List.mem_insertionSort _).mp (List.mem_of_mem_filter hrow))
  have ha := hfaithful ha
  have hb := hfaithful hb
  rw [ha.createdAt, hb.createdAt, Int64.le_iff_toInt_le, SqliteStore.toInt_toInt64 ha.small,
    SqliteStore.toInt_toInt64 hb.small] at hab
  rw [UInt64.le_iff_toNat_le]
  omega

end Alike

/-! ## Any sequence of operations -/

theorem Matches.agree {f : FileStore} {s : SqliteStore} {o : SharedOp}
    {x : Result (o.Ret × FileStore)} {y : Result (o.Ret × SqliteStore)} (h : Matches f s x y)
    (ho : ∀ states, o ≠ .list states) : o.Agree (orKeep f x).1 (orKeep s y).1 := by
  cases h with
  | ok h' =>
      cases o with
      | list states => exact absurd rfl (ho states)
      | _ => exact rfl
  | error =>
      cases o with
      | list states => exact absurd rfl (ho states)
      | _ => trivial

section

variable [Ss58]

theorem Alike.perform {f : FileStore} {s : SqliteStore} {now : UInt64} {o : SharedOp}
    (hs : Alike f s) (hp : o.Plain) (hsteady : o.Steady f) :
    o.Agree (f.perform now o).1 (s.performShared now o).1 ∧
      Alike (f.perform now o).2 (s.performShared now o).2 := by
  cases o with
  | insert r =>
      have h := insert_matches hs hp hsteady
      exact ⟨h.agree (o := .insert r) nofun, h.alike hs⟩
  | update r =>
      have h : Matches f s (f.update r now) (s.update r now) :=
        update_matches hs hp hsteady.1 hsteady.2
      exact ⟨h.agree (o := .update r) nofun, h.alike hs⟩
  | migrateLegacyPolicy id version budget =>
      have h : Matches f s (f.migrateLegacyPolicy id version budget now)
          (s.migrateLegacyPolicy id version budget now) :=
        migrate_matches hs ⟨hsteady.1, hp⟩ hsteady.2
      exact ⟨h.agree (o := .migrateLegacyPolicy id version budget) nofun, h.alike hs⟩
  | list states => exact ⟨hs.list_agree states, hs⟩
  | get id =>
      have hget : f.get id = .ok (s.get id) :=
        FileStore.get_iff.mpr ⟨⟨hsteady, hp⟩, hs.get_eq id⟩
      refine ⟨?_, hs⟩
      change SharedOp.Agree (.get id) (f.get id) (.ok (s.get id))
      rw [hget]
      exact rfl

end

/-! ## Where they differ -/

instance (rs : List PaymentRecord) : Decidable (ByCreation rs) :=
  inferInstanceAs (Decidable (rs.Pairwise _))

/-- A legacy record without a policy. -/
def plainRecord (id : String) (version createdAt : UInt64) : PaymentRecord :=
  { SqliteStore.legacyRecord with
    id := id, version := version, createdAt := createdAt, buybackBudget := none }

end Buyback
