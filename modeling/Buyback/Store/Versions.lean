import Buyback.Store.Files
import Buyback.Store.Ownership
import Buyback.Store.Policy
import Buyback.Versioned.History

/-!
# No lost update

Any number of clients share one store.  Each operation is one step of the store, so
an interleaving of the clients is a sequence of operations.  Both stores are versioned
maps: an operation creates a record, replaces one by a record of the next version, or
changes nothing.

A writer names the version it has read.  It succeeds only if that version is stored,
and then, since id and version determine the record, what it has read is the current
record.  What it has made of it is stored as the next version, and no other record is
touched.
-/

namespace Buyback

open Versioned

/-- The version of a record, as the library reads it. -/
def PaymentRecord.versionNat (r : PaymentRecord) : ℕ := r.version.toNat

theorem PaymentRecord.versionNat_stamped {r : PaymentRecord} {now : UInt64}
    (h : r.version.toNat + 1 < 2 ^ 64) : (r.stamped now).versionNat = r.version.toNat + 1 := by
  change (r.version + 1).toNat = _
  rw [UInt64.toNat_add]
  exact Nat.mod_eq_of_lt h

/-! ## The database -/

/-- The record and the version an operation was computed from. -/
def StoreOp.base : StoreOp → Option (String × UInt64)
  | .update rec => some (rec.id, rec.version)
  | .migrateLegacyPolicy id version _ => some (id, version)
  | .recoverLegacy m => some (m.job, m.version)
  | .reserveSignerForRecord _ rec => some (rec.id, rec.version)
  | _ => none

/-- The id whose record an operation writes. -/
def StoreOp.target : StoreOp → Option String
  | .insert rec => some rec.id
  | .update rec => some rec.id
  | .migrateLegacyPolicy id _ _ => some id
  | .recoverLegacy m => some m.job
  | _ => none

/-- What a write that succeeds at the time `now` stores in place of what was stored. -/
inductive StoreOp.Stores [Ss58] (now : UInt64) :
    (o : StoreOp) → o.Ret → Option PaymentRecord → PaymentRecord → Prop where
  | insert {r : PaymentRecord} : Stores now (.insert r) () none r
  | update {r old : PaymentRecord} :
      old.version = r.version →
      Stores now (.update r) now (some old) (r.stamped now)
  | migrateLegacyPolicy {id : String} {version : UInt64} {budget : Option BuybackBudget}
      {old next : PaymentRecord} :
      migratedPolicy old version budget now = .ok next →
      Stores now (.migrateLegacyPolicy id version budget) next (some old) next
  | recoverLegacy {m : LegacyManifest} {report : RecoveryReport} {old : PaymentRecord} :
      old.version = m.version →
      Stores now (.recoverLegacy m) report (some old) ((old.recovered m).stamped now)

namespace SqliteStore

variable {s s' : SqliteStore}

theorem Migrates.write {id : String} {old next : PaymentRecord} (h : Migrates s id old next s') :
    Write PaymentRecord.versionNat s.get s'.get := by
  refine .replace id old next h.get_old h.get_self ?_ h.get_ne
  rw [PaymentRecord.versionNat, h.next_eq]
  exact @PaymentRecord.versionNat_stamped old old.updatedAt h.version_lt

theorem Changes.write {x : Outside} {o : StoreOp} {a : o.Ret} (h : Changes s x o a s') :
    Write PaymentRecord.versionNat s.get s'.get := by
  cases h with
  | requireSigning => exact .keep fun _ => rfl
  | get => exact .keep fun _ => rfl
  | list => exact .keep fun _ => rfl
  | @insert r _ hi => exact .create r.id hi.get_old hi.get_ne
  | @update r _ hu =>
      obtain ⟨old, hold, hversion, -⟩ := hu.previous
      refine .replace r.id old _ hold hu.get_self ?_ hu.get_ne
      rw [PaymentRecord.versionNat_stamped hu.version_lt, PaymentRecord.versionNat, hversion]
  | reserveSignerForRecord hr => exact .keep fun _ => by rw [hr.eq]; rfl
  | reserveSigner hr => exact .keep fun _ => by rw [hr.eq]; rfl
  | cancelPreparation hx => exact .keep fun _ => by rw [hx.eq]; rfl
  | migrateLegacyPolicy hm => exact hm.write
  | recoverLegacy hm => exact hm.write

/-- A small `u64` is the same number as an `i64`. -/
theorem toInt_toInt64 {n : UInt64} (h : n.toNat < 2 ^ 63) : n.toInt64.toInt = n.toNat := by
  change n.toBitVec.toInt = n.toBitVec.toNat
  refine BitVec.toInt_eq_toNat_of_lt ?_
  change 2 * n.toNat < 2 ^ 64
  omega

section

variable [Ss58]

theorem perform_write (s : SqliteStore) (x : Outside) (o : StoreOp) :
    Write PaymentRecord.versionNat s.get (s.perform x o).2.get := by
  rcases perform_cases s x o with ⟨a, -, hc⟩ | ⟨-, heq⟩
  · exact hc.write
  · rw [heq]
    exact .keep fun _ => rfl

theorem perform_mirrored {x : Outside} {o : StoreOp} (hs : s.Mirrored) :
    (s.perform x o).2.Mirrored := by
  cases hres : (s.perform x o).1 with
  | error e =>
      rw [perform_error hres]
      exact hs
  | ok a =>
      cases o with
      | insert r =>
          obtain ⟨-, heq⟩ := insert_iff.mp (commit_ok hres)
          exact hs.insert (PaymentRow.mirrors_row r) (congrArg payments heq)
      | update r =>
          cases hu : s.update r x.now with
          | error e =>
              rw [show (s.perform x (.update r)).1 =
                  (commit s ((s.update r x.now).map _)).1 from rfl,
                hu] at hres
              cases hres
          | ok y =>
              obtain ⟨row, hrow, -, heq⟩ := update_writes hu
              have : (s.perform x (.update r)).2 = y.2 := by
                change (commit s ((s.update r x.now).map _)).2 = _
                rw [hu]
                rfl
              rw [this]
              exact hs.insert (row.mirrors_updated _) heq
      | migrateLegacyPolicy id version budget =>
          obtain ⟨-, row, hrow, hpolicy, -, heq⟩ := migrateLegacyPolicy_iff.mp (commit_ok hres)
          obtain ⟨-, -, -, -, hnext⟩ := migratedPolicy_ok hpolicy
          exact hs.insert ((hs id row hrow).migrated (by rw [hnext])) (congrArg payments heq)
      | recoverLegacy m =>
          obtain ⟨row, next, hrow, ⟨report, hverify⟩, heq⟩ := recoverLegacy_row (commit_ok hres)
          obtain ⟨_, -, hverify⟩ := Result.bind_ok hverify
          obtain ⟨summaries, -, hreplay⟩ := Result.bind_ok hverify
          obtain ⟨rfl, -⟩ := replay_accepted hreplay
          have hstate : ((row.record.recovered m).stamped x.now).state = row.record.state := rfl
          exact hs.insert ((hs m.job row hrow).migrated hstate) heq
      | requireSigning => exact hs
      | get id => exact hs
      | list states => exact hs
      | reserveSignerForRecord signer r =>
          cases perform_ok hres with
          | reserveSignerForRecord hr => rw [hr.eq]; exact hs
      | reserveSigner signer job =>
          cases perform_ok hres with
          | reserveSigner hr => rw [hr.eq]; exact hs
      | cancelPreparation signer job token =>
          cases perform_ok hres with
          | cancelPreparation hx => rw [hx.eq]; exact hs

/-- An operation that succeeds was computed from the version that is stored. -/
theorem perform_base {x : Outside} {o : StoreOp} {a : o.Ret} {id : String} {v : UInt64}
    (hs : s.Mirrored) (h : (s.perform x o).1 = .ok a) (ho : o.base = some (id, v)) :
    (∀ cur, s.get id = some cur → cur.version = v) ∧
      (v.toNat < 2 ^ 63 → ∃ cur, s.get id = some cur) := by
  -- the three writers read the record, and find it
  have hread {old : PaymentRecord} (hold : s.get id = some old) (hversion : old.version = v) :
      (∀ cur, s.get id = some cur → cur.version = v) ∧
        (v.toNat < 2 ^ 63 → ∃ cur, s.get id = some cur) := by
    refine ⟨fun cur hcur => ?_, fun _ => ⟨old, hold⟩⟩
    rw [hold] at hcur
    cases hcur
    exact hversion
  cases o with
  | update r =>
      cases ho
      cases perform_ok h with
      | update hu =>
          obtain ⟨old, hold, hversion, -⟩ := hu.previous
          exact hread hold hversion
  | migrateLegacyPolicy id version budget =>
      cases ho
      obtain ⟨old, hold, hpolicy, -⟩ := migrateLegacyPolicy_writes (commit_ok h)
      exact hread hold (migratedPolicy_policy hpolicy).1
  | recoverLegacy m =>
      cases ho
      obtain ⟨old, treasury, deposit, hold, hvalid, -⟩ := recoverLegacy_writes (commit_ok h)
      exact hread hold hvalid.version
  | reserveSignerForRecord signer r =>
      cases ho
      have hversion := (reserve_ok (commit_ok h)).2.current r.version rfl
      constructor
      · intro cur hcur
        obtain ⟨row, hrow, rfl⟩ := get_eq_some.mp hcur
        rw [hrow, Option.map_some, (hs _ row hrow).version, i64TryFrom] at hversion
        split at hversion
        next => exact congrArg Int64.toUInt64 (Option.some.inj hversion)
        next => cases hversion
      · intro hv
        rw [i64TryFrom, if_pos hv] at hversion
        obtain ⟨row, hrow, -⟩ := Option.map_eq_some_iff.mp hversion
        exact ⟨row.record, get_eq_some.mpr ⟨row, hrow, rfl⟩⟩
  | _ => cases ho

/-- A write that succeeds stores its record, as the next version of the one before. -/
theorem perform_stores {x : Outside} {o : StoreOp} {a : o.Ret} {id : String}
    (h : (s.perform x o).1 = .ok a) (ho : o.target = some id) :
    ∃ r, o.Stores x.now a (s.get id) r ∧ (s.perform x o).2.get id = some r ∧
      ∀ old, s.get id = some old → r.versionNat = old.versionNat + 1 := by
  cases o with
  | insert r =>
      cases ho
      cases perform_ok h with
      | insert hi =>
          refine ⟨r, ?_, hi.get_self, fun old hold => ?_⟩
          · rw [hi.get_old]
            exact .insert
          · cases hi.get_old.symm.trans hold
  | update r =>
      cases ho
      cases perform_ok h with
      | update hu =>
          obtain ⟨old, hold, hversion, -⟩ := hu.previous
          rw [hold]
          refine ⟨_, .update hversion, hu.get_self, ?_⟩
          rintro old ⟨⟩
          rw [PaymentRecord.versionNat_stamped hu.version_lt, PaymentRecord.versionNat, hversion]
  | migrateLegacyPolicy id version budget =>
      cases ho
      obtain ⟨old, hold, hpolicy, hget⟩ := migrateLegacyPolicy_writes (commit_ok h)
      obtain ⟨-, -, -, hlt, heq⟩ := migratedPolicy_ok hpolicy
      rw [hold]
      refine ⟨a, .migrateLegacyPolicy hpolicy, hget, ?_⟩
      rintro old ⟨⟩
      rw [heq]
      exact @PaymentRecord.versionNat_stamped old x.now hlt
  | recoverLegacy m =>
      cases ho
      obtain ⟨old, treasury, deposit, hold, hvalid, hget⟩ := recoverLegacy_writes (commit_ok h)
      rw [hold]
      refine ⟨_, .recoverLegacy hvalid.version, hget, ?_⟩
      rintro old ⟨⟩
      cases perform_ok h with
      | recoverLegacy hm =>
          cases hm.get_old.symm.trans hold
          exact @PaymentRecord.versionNat_stamped (old.recovered m) x.now hm.version_lt
  | _ => cases ho

/-- An operation leaves all records but its own alone. -/
theorem perform_untouched {x : Outside} {o : StoreOp} {a : o.Ret} {id : String}
    (h : (s.perform x o).1 = .ok a) (ho : o.target ≠ some id) :
    (s.perform x o).2.get id = s.get id := by
  have hne {id' : String} (ho : some id' ≠ some id) : id ≠ id' := fun heq => ho (heq ▸ rfl)
  have hc := perform_ok h
  generalize (s.perform x o).2 = s' at hc
  cases hc with
  | requireSigning => rfl
  | get => rfl
  | list => rfl
  | insert hi => exact hi.get_ne id (hne ho)
  | update hu => exact hu.get_ne id (hne ho)
  | reserveSignerForRecord hr => rw [hr.eq]; rfl
  | reserveSigner hr => rw [hr.eq]; rfl
  | cancelPreparation hx => rw [hx.eq]; rfl
  | migrateLegacyPolicy hm => exact hm.get_ne id (hne ho)
  | recoverLegacy hm => exact hm.get_ne id (hne ho)

/-- The store after the first `i` operations on an empty database. -/
def stage (calls : List StoreCall) (i : ℕ) : SqliteStore := empty.run (calls.take i)

theorem stage_succ {calls : List StoreCall} {i : ℕ} {c : StoreCall} (h : calls[i]? = some c) :
    stage calls (i + 1) = ((stage calls i).perform c.1 c.2).2 := by
  rw [stage, List.take_add_one, h, Option.toList_some, run_append]
  rfl

theorem stage_succ_of_none {calls : List StoreCall} {i : ℕ} (h : calls[i]? = none) :
    stage calls (i + 1) = stage calls i := by
  rw [stage, List.take_add_one, h, Option.toList_none, List.append_nil]
  rfl

theorem stage_writes (calls : List StoreCall) :
    Writes PaymentRecord.versionNat fun i => (stage calls i).get := by
  intro i
  change Write _ (stage calls i).get (stage calls (i + 1)).get
  cases h : calls[i]? with
  | none =>
      rw [stage_succ_of_none h]
      exact .keep fun _ => rfl
  | some c =>
      rw [stage_succ h]
      exact perform_write _ _ _

theorem stage_mirrored (calls : List StoreCall) (i : ℕ) : (stage calls i).Mirrored := by
  induction i with
  | zero => intro id row h; cases h
  | succ i ih =>
      cases h : calls[i]? with
      | none =>
          rw [stage_succ_of_none h]
          exact ih
      | some c =>
          rw [stage_succ h]
          exact perform_mirrored ih

/-- No update of the database is lost. -/
structure NoLostUpdate (calls : List StoreCall) : Prop where
  /-- Id and version determine a record, and the versions of an id are consecutive. -/
  history : History PaymentRecord.versionNat fun i => (stage calls i).get
  /-- What an operation was computed from is the current record. -/
  current : ∀ i c a id v, calls[i]? = some c → ((stage calls i).perform c.1 c.2).1 = .ok a →
    c.2.base = some (id, v) → v.toNat < 2 ^ 63 →
    ∃ cur, (stage calls i).get id = some cur ∧ cur.version = v ∧
      ∀ j r, (stage calls j).get id = some r → r.version = v → r = cur
  /-- An operation computed from another version fails and changes nothing. -/
  stale : ∀ i c id v cur, calls[i]? = some c → c.2.base = some (id, v) →
    (stage calls i).get id = some cur → cur.version ≠ v →
    (∃ e, ((stage calls i).perform c.1 c.2).1 = .error e) ∧ stage calls (i + 1) = stage calls i
  /-- A write that succeeds is stored, as the next version of the record it has replaced. -/
  stored : ∀ i c a id, calls[i]? = some c → ((stage calls i).perform c.1 c.2).1 = .ok a →
    c.2.target = some id →
    ∃ r, c.2.Stores c.1.now a ((stage calls i).get id) r ∧ (stage calls (i + 1)).get id = some r ∧
      ∀ old, (stage calls i).get id = some old → r.versionNat = old.versionNat + 1
  /-- No other record is touched. -/
  untouched : ∀ i c a id, calls[i]? = some c → ((stage calls i).perform c.1 c.2).1 = .ok a →
    c.2.target ≠ some id → (stage calls (i + 1)).get id = (stage calls i).get id
  /-- The columns are the fields of the record. -/
  columns : ∀ i id row, (stage calls i).payments.lookup id = some row →
    row.state = row.record.state ∧
      (row.record.version.toNat < 2 ^ 63 → row.version.toInt = row.record.version.toNat)

theorem updates_kept (calls : List StoreCall) : NoLostUpdate calls where
  history := (stage_writes calls).history
  current i c a id v hc hok hbase hv := by
    obtain ⟨hversion, hsome⟩ := perform_base (stage_mirrored calls i) hok hbase
    obtain ⟨cur, hcur⟩ := hsome hv
    refine ⟨cur, hcur, hversion cur hcur, fun j r hr hrv => ?_⟩
    refine (stage_writes calls).history.determined j i id r cur hr hcur ?_
    rw [PaymentRecord.versionNat, PaymentRecord.versionNat, hrv, hversion cur hcur]
  stale i c id v cur hc hbase hcur hne := by
    rcases perform_cases (stage calls i) c.1 c.2 with ⟨a, hok, -⟩ | ⟨herror, hsame⟩
    · exact absurd ((perform_base (stage_mirrored calls i) hok hbase).1 cur hcur) hne
    · exact ⟨herror, (stage_succ hc).trans hsame⟩
  stored i c a id hc hok ho := by
    rw [stage_succ hc]
    exact perform_stores hok ho
  untouched i c a id hc hok ho := by
    rw [stage_succ hc]
    exact perform_untouched hok ho
  columns i id row hrow := by
    have hmirrors := stage_mirrored calls i id row hrow
    refine ⟨hmirrors.state, fun hlt => ?_⟩
    rw [hmirrors.version]
    exact toInt_toInt64 hlt

end

end SqliteStore

/-! ## The directory -/

/-- The record and the version an operation was computed from. -/
def SharedOp.base : SharedOp → Option (String × UInt64)
  | .update rec => some (rec.id, rec.version)
  | .migrateLegacyPolicy id version _ => some (id, version)
  | _ => none

/-- The id whose record an operation writes. -/
def SharedOp.target : SharedOp → Option String
  | .insert rec => some rec.id
  | .update rec => some rec.id
  | .migrateLegacyPolicy id _ _ => some id
  | _ => none

/-- What a write that succeeds at the time `now` stores in place of what was stored. -/
inductive SharedOp.Stores [Ss58] (now : UInt64) :
    (o : SharedOp) → o.Ret → Option PaymentRecord → PaymentRecord → Prop where
  | insert {r : PaymentRecord} : Stores now (.insert r) () none r
  | update {r old : PaymentRecord} :
      old.version = r.version →
      Stores now (.update r) (r.stamped now) (some old) (r.stamped now)
  | migrateLegacyPolicy {id : String} {version : UInt64} {budget : Option BuybackBudget}
      {old next : PaymentRecord} :
      migratedPolicy old version budget now = .ok next →
      Stores now (.migrateLegacyPolicy id version budget) next (some old) next

/-- An operation, with the time it is done at. -/
abbrev SharedCall : Type := UInt64 × SharedOp

namespace FileStore

variable [Ss58] {f : FileStore}

theorem perform_cases (f : FileStore) (now : UInt64) (o : SharedOp) :
    (∃ a, (f.perform now o).1 = .ok a) ∨
      (∃ e, (f.perform now o).1 = .error e) ∧ (f.perform now o).2 = f := by
  cases h : (f.perform now o).1 with
  | ok a => exact .inl ⟨a, rfl⟩
  | error e =>
      refine .inr ⟨⟨e, rfl⟩, ?_⟩
      cases o with
      | get id => rfl
      | list states => rfl
      | _ => exact orKeep_error h

/-- A write of a version that does not overflow. -/
theorem perform_write {now : UInt64} (o : SharedOp)
    (hv : ∀ id r, f.read id = some r → r.version.toNat < 2 ^ 63) :
    Write PaymentRecord.versionNat f.read (f.perform now o).2.read := by
  rcases perform_cases f now o with ⟨a, h⟩ | ⟨-, hsame⟩
  · cases o with
    | get id => exact .keep fun _ => rfl
    | list states => exact .keep fun _ => rfl
    | insert r =>
        obtain ⟨-, hnone, heq⟩ := insert_iff.mp (orKeep_ok h)
        rw [show (f.perform now (.insert r)).2 = f.write r.id r from heq]
        exact .create r.id hnone fun id hne => read_write_ne hne
    | update r =>
        obtain ⟨-, ⟨cur, hcur, hc⟩, -, heq⟩ := update_iff.mp (orKeep_ok h)
        rw [show (f.perform now (.update r)).2 = f.write r.id (r.stamped now) from heq]
        refine .replace r.id cur _ hcur read_write_self ?_ fun id hne => read_write_ne hne
        have hlt := hv r.id cur hcur
        rw [hc.version] at hlt
        rw [PaymentRecord.versionNat_stamped (by omega), PaymentRecord.versionNat, hc.version]
    | migrateLegacyPolicy id version budget =>
        obtain ⟨-, ⟨old, hold, hpolicy⟩, heq⟩ := migrateLegacyPolicy_iff.mp (orKeep_ok h)
        rw [show (f.perform now (.migrateLegacyPolicy id version budget)).2 = f.write id a from heq]
        refine .replace id old a hold read_write_self ?_ fun id' hne => read_write_ne hne
        obtain ⟨-, -, -, hlt, hnext⟩ := SqliteStore.migratedPolicy_ok hpolicy
        rw [hnext]
        exact @PaymentRecord.versionNat_stamped old now hlt
  · rw [hsame]
    exact .keep fun _ => rfl

/-- An operation that succeeds was computed from the version that is stored. -/
theorem perform_base {now : UInt64} {o : SharedOp} {a : o.Ret} {id : String} {v : UInt64}
    (h : (f.perform now o).1 = .ok a) (ho : o.base = some (id, v)) :
    ∃ cur, f.read id = some cur ∧ cur.version = v := by
  cases o with
  | update r =>
      cases ho
      obtain ⟨-, ⟨cur, hcur, hc⟩, -⟩ := update_iff.mp (orKeep_ok h)
      exact ⟨cur, hcur, hc.version⟩
  | migrateLegacyPolicy id version budget =>
      cases ho
      obtain ⟨-, ⟨old, hold, hpolicy⟩, -⟩ := migrateLegacyPolicy_iff.mp (orKeep_ok h)
      exact ⟨old, hold, (SqliteStore.migratedPolicy_policy hpolicy).1⟩
  | _ => cases ho

/-- A write that succeeds stores its record. -/
theorem perform_stored {now : UInt64} {o : SharedOp} {a : o.Ret} {id : String}
    (h : (f.perform now o).1 = .ok a) (ho : o.target = some id) : ValidId id ∧
      ∃ r, o.Stores now a (f.read id) r ∧ (f.perform now o).2.read id = some r := by
  cases o with
  | insert r =>
      cases ho
      obtain ⟨hid, hnone, heq⟩ := insert_iff.mp (orKeep_ok h)
      rw [show (f.perform now (.insert r)).2 = f.write r.id r from heq, hnone]
      exact ⟨hid, r, .insert, read_write_self⟩
  | update r =>
      cases ho
      obtain ⟨hid, ⟨cur, hcur, hc⟩, rfl, heq⟩ := update_iff.mp (orKeep_ok h)
      rw [hcur, show (f.perform now (.update r)).2 = f.write r.id (r.stamped now) from heq]
      exact ⟨hid, _, .update hc.version, read_write_self⟩
  | migrateLegacyPolicy id version budget =>
      cases ho
      obtain ⟨hid, ⟨old, hold, hpolicy⟩, heq⟩ := migrateLegacyPolicy_iff.mp (orKeep_ok h)
      rw [hold, show (f.perform now (.migrateLegacyPolicy id version budget)).2 = f.write id a
        from heq]
      exact ⟨hid, a, .migrateLegacyPolicy hpolicy, read_write_self⟩
  | _ => cases ho

/-- It is the next version of the record before. -/
theorem perform_stores {now : UInt64} {o : SharedOp} {a : o.Ret} {id : String}
    (hv : ∀ id r, f.read id = some r → r.version.toNat < 2 ^ 63)
    (h : (f.perform now o).1 = .ok a) (ho : o.target = some id) :
    ∃ r, o.Stores now a (f.read id) r ∧ (f.perform now o).2.read id = some r ∧
      ∀ old, f.read id = some old → r.versionNat = old.versionNat + 1 := by
  obtain ⟨-, r, hstores, hr⟩ := perform_stored h ho
  refine ⟨r, hstores, hr, fun old hold => ?_⟩
  have hlt := hv id old hold
  rw [hold] at hstores
  cases hstores with
  | update hversion =>
      rw [hversion] at hlt
      rw [PaymentRecord.versionNat_stamped (by omega), PaymentRecord.versionNat, hversion]
  | migrateLegacyPolicy hpolicy =>
      obtain ⟨-, -, -, hlt, hnext⟩ := SqliteStore.migratedPolicy_ok hpolicy
      rw [hnext]
      exact @PaymentRecord.versionNat_stamped old now hlt

/-- An operation leaves all records but its own alone. -/
theorem perform_untouched {now : UInt64} {o : SharedOp} {a : o.Ret} {id : String}
    (h : (f.perform now o).1 = .ok a) (ho : o.target ≠ some id) :
    (f.perform now o).2.read id = f.read id := by
  have hne {id' : String} (ho : some id' ≠ some id) : id ≠ id' := fun heq => ho (heq ▸ rfl)
  cases o with
  | get id' => rfl
  | list states => rfl
  | insert r =>
      obtain ⟨-, -, heq⟩ := insert_iff.mp (orKeep_ok h)
      rw [show (f.perform now (.insert r)).2 = f.write r.id r from heq]
      exact read_write_ne (hne ho)
  | update r =>
      obtain ⟨-, -, -, heq⟩ := update_iff.mp (orKeep_ok h)
      rw [show (f.perform now (.update r)).2 = f.write r.id (r.stamped now) from heq]
      exact read_write_ne (hne ho)
  | migrateLegacyPolicy id' version budget =>
      obtain ⟨-, -, heq⟩ := migrateLegacyPolicy_iff.mp (orKeep_ok h)
      rw [show (f.perform now (.migrateLegacyPolicy id' version budget)).2 = f.write id' a
        from heq]
      exact read_write_ne (hne ho)

/-- The directory after the first `i` operations on an empty one. -/
def stage (calls : List SharedCall) (i : ℕ) : FileStore :=
  (calls.take i).foldl (fun f c => (f.perform c.1 c.2).2) empty

theorem stage_succ {calls : List SharedCall} {i : ℕ} {c : SharedCall} (h : calls[i]? = some c) :
    stage calls (i + 1) = ((stage calls i).perform c.1 c.2).2 := by
  rw [stage, List.take_add_one, h, Option.toList_some, List.foldl_append]
  rfl

theorem stage_succ_of_none {calls : List SharedCall} {i : ℕ} (h : calls[i]? = none) :
    stage calls (i + 1) = stage calls i := by
  rw [stage, List.take_add_one, h, Option.toList_none, List.append_nil]
  rfl

/-- No version that is stored in the course of the run is too large for an `i64`. -/
def SmallVersions (calls : List SharedCall) : Prop :=
  ∀ i id r, (stage calls i).read id = some r → r.version.toNat < 2 ^ 63

theorem stage_writes {calls : List SharedCall} (hv : SmallVersions calls) :
    Writes PaymentRecord.versionNat fun i => (stage calls i).read := by
  intro i
  change Write _ (stage calls i).read (stage calls (i + 1)).read
  cases h : calls[i]? with
  | none =>
      rw [stage_succ_of_none h]
      exact .keep fun _ => rfl
  | some c =>
      rw [stage_succ h]
      exact perform_write c.2 (hv i)

/-- No update of the directory is lost. -/
structure NoLostUpdate (calls : List SharedCall) : Prop where
  /-- Id and version determine a record, and the versions of an id are consecutive. -/
  history : History PaymentRecord.versionNat fun i => (stage calls i).read
  /-- What an operation was computed from is the current record. -/
  current : ∀ i c a id v, calls[i]? = some c → ((stage calls i).perform c.1 c.2).1 = .ok a →
    c.2.base = some (id, v) →
    ∃ cur, (stage calls i).read id = some cur ∧ cur.version = v ∧
      ∀ j r, (stage calls j).read id = some r → r.version = v → r = cur
  /-- An operation computed from another version fails and changes nothing. -/
  stale : ∀ i c id v cur, calls[i]? = some c → c.2.base = some (id, v) →
    (stage calls i).read id = some cur → cur.version ≠ v →
    (∃ e, ((stage calls i).perform c.1 c.2).1 = .error e) ∧ stage calls (i + 1) = stage calls i
  /-- A write that succeeds is stored, as the next version of the record it has replaced. -/
  stored : ∀ i c a id, calls[i]? = some c → ((stage calls i).perform c.1 c.2).1 = .ok a →
    c.2.target = some id →
    ∃ r, c.2.Stores c.1 a ((stage calls i).read id) r ∧ (stage calls (i + 1)).read id = some r ∧
      ∀ old, (stage calls i).read id = some old → r.versionNat = old.versionNat + 1
  /-- No other record is touched. -/
  untouched : ∀ i c a id, calls[i]? = some c → ((stage calls i).perform c.1 c.2).1 = .ok a →
    c.2.target ≠ some id → (stage calls (i + 1)).read id = (stage calls i).read id

theorem updates_kept {calls : List SharedCall} (hv : SmallVersions calls) : NoLostUpdate calls where
  history := (stage_writes hv).history
  current i c a id v _ hok hbase := by
    obtain ⟨cur, hcur, hversion⟩ := perform_base hok hbase
    refine ⟨cur, hcur, hversion, fun j r hr hrv => ?_⟩
    refine (stage_writes hv).history.determined j i id r cur hr hcur ?_
    rw [PaymentRecord.versionNat, PaymentRecord.versionNat, hrv, hversion]
  stale i c id v cur hc hbase hcur hne := by
    rcases perform_cases (stage calls i) c.1 c.2 with ⟨a, hok⟩ | ⟨herror, hsame⟩
    · obtain ⟨cur', hcur', hversion⟩ := perform_base hok hbase
      rw [hcur] at hcur'
      cases hcur'
      exact absurd hversion hne
    · exact ⟨herror, (stage_succ hc).trans hsame⟩
  stored i c a id hc hok ho := by
    rw [stage_succ hc]
    exact perform_stores (hv i) hok ho
  untouched i c a id hc hok ho := by
    rw [stage_succ hc]
    exact perform_untouched hok ho

end FileStore

/-- No interleaving of clients loses an update, in either store. -/
theorem no_lost_update [Ss58] : (∀ calls, SqliteStore.NoLostUpdate calls) ∧
    ∀ calls, FileStore.SmallVersions calls → FileStore.NoLostUpdate calls :=
  ⟨SqliteStore.updates_kept, fun _ hv => FileStore.updates_kept hv⟩

/-- Two clients that both update the first version of a record. -/
def twoWriters : List SharedCall :=
  let r := SqliteStore.legacyRecord
  [(0, .insert r), (1, .update r), (2, .update { r with notified := true })]

theorem twoWriters_small : FileStore.SmallVersions twoWriters := by
  intro i id r h
  have hall : ∀ n < 4, ∀ e ∈ (FileStore.stage twoWriters n).files.entries,
      e.2.version.toNat < 2 ^ 63 := by decide
  rcases Nat.lt_or_ge i 4 with hi | hi
  · exact hall i hi ⟨id, r⟩ (AList.mem_lookup_iff.mp h)
  · have hstage : FileStore.stage twoWriters i = FileStore.stage twoWriters 3 := by
      rw [FileStore.stage, FileStore.stage, List.take_of_length_le, List.take_of_length_le]
      · decide
      · exact le_trans (by decide) hi
    rw [hstage] at h
    exact hall 3 (by decide) ⟨id, r⟩ (AList.mem_lookup_iff.mp h)

/-- Two clients of a database that do the same. -/
def twoClients : List StoreCall :=
  let r := SqliteStore.legacyRecord
  let x (now : UInt64) (token : String) : Outside := ⟨now, token, fun _ _ => .error (.chain "")⟩
  [(x 0 "a", .insert r), (x 1 "b", .update r), (x 2 "c", .update { r with notified := true })]

/-- In both stores the first of them has its update stored, and the second is refused. -/
theorem twoWriters_kept :
    (((FileStore.stage twoWriters 2).perform 2
        (.update { SqliteStore.legacyRecord with notified := true })).1.isOk = false ∧
      (FileStore.stage twoWriters 3).read "job" = some (SqliteStore.legacyRecord.stamped 1) ∧
      FileStore.NoLostUpdate twoWriters) ∧
    (SqliteStore.stage twoClients 3).get "job" = some (SqliteStore.legacyRecord.stamped 1) ∧
      SqliteStore.NoLostUpdate twoClients :=
  ⟨⟨by decide, by decide, no_lost_update.2 twoWriters twoWriters_small⟩, by decide,
    no_lost_update.1 twoClients⟩

end Buyback
