import Buyback.Source.Requests

/-!
# What a transaction does

One lemma for each operation of the store that writes: what it read when it
commits, and the tables after it.  Everything later is proved from these lemmas
and not from the operations.
-/

namespace Buyback

namespace SqliteStore

variable {s s' : SqliteStore} {id signer job token : String} {now : UInt64}
  {r next : PaymentRecord}

/-! ## Reading -/

@[simp] theorem get_empty (id : String) : empty.get id = none := rfl

theorem get_eq_some : s.get id = some r ↔
    ∃ row, s.payments.lookup id = some row ∧ row.record = r := Option.map_eq_some_iff

/-- Every record is stored under its id, with its version in the column. -/
def Keyed (s : SqliteStore) : Prop :=
  ∀ id row, s.payments.lookup id = some row →
    row.record.id = id ∧ row.version = row.record.version.toInt64

theorem Keyed.id_eq (hk : s.Keyed) (h : s.get id = some r) : r.id = id := by
  obtain ⟨row, hrow, rfl⟩ := get_eq_some.mp h
  exact (hk id row hrow).1

theorem keyed_empty : empty.Keyed := by
  intro id row h
  cases h

/-- What is listed is stored. -/
theorem get_of_mem_list (hk : s.Keyed) {states : List PaymentState} (h : r ∈ s.list states) :
    s.get r.id = some r := by
  obtain ⟨row, hrow, rfl⟩ := List.mem_map.mp h
  have hmem := (List.mem_insertionSort _).mp (List.mem_of_mem_filter hrow)
  obtain ⟨⟨id, row'⟩, hentry, rfl⟩ := List.mem_map.mp hmem
  have hlookup : s.payments.lookup id = some row' := AList.mem_lookup_iff.mpr hentry
  have hid := (hk id row' hlookup).1
  exact get_eq_some.mpr ⟨row', by rw [hid]; exact hlookup, rfl⟩

theorem journaled_iff : s.journaled signer = true ↔
    ∃ id r p, s.get id = some r ∧ r.pending = some p ∧ p.signer = signer := by
  simp only [journaled, List.any_eq_true, Option.any_eq_true, beq_iff_eq]
  constructor
  · rintro ⟨⟨id, row⟩, hrow, p, hp, hsigner⟩
    have hget := get_eq_some.mpr ⟨row, AList.mem_lookup_iff.mpr hrow, rfl⟩
    exact ⟨id, row.record, p, hget, hp, hsigner⟩
  · rintro ⟨id, r, p, hget, hp, hsigner⟩
    obtain ⟨row, hrow, rfl⟩ := get_eq_some.mp hget
    exact ⟨⟨id, row⟩, AList.mem_lookup_iff.mp hrow, p, hp, hsigner⟩

theorem jobJournaled_iff : s.jobJournaled job = true ↔
    ∃ r p, s.get job = some r ∧ r.pending = some p := by
  simp [jobJournaled, Option.any_eq_true, Option.isSome_iff_exists]

theorem owned_iff : s.owned signer job token = true ↔
    s.signerReservations.lookup signer = some ⟨job, token⟩ := by
  simp [owned]

/-! ## Inserting -/

/-- What a successful insertion of `r` read and wrote. -/
structure Inserts (s : SqliteStore) (r : PaymentRecord) (s' : SqliteStore) : Prop where
  get_old : s.get r.id = none
  get_self : s'.get r.id = some r
  get_ne : ∀ id, id ≠ r.id → s'.get id = s.get id
  reservations : s'.signerReservations = s.signerReservations
  keyed : s.Keyed → s'.Keyed

theorem insert_ok {u : Unit} (h : s.insert r = .ok (u, s')) : Inserts s r s' := by
  unfold insert at h
  split at h
  next => cases h
  next hnew =>
    cases h
    refine ⟨?_, ?_, fun id hid => ?_, rfl, fun hk id row hrow => ?_⟩
    · rw [get, AList.lookup_eq_none.mpr hnew, Option.map_none]
    · rw [get, AList.lookup_insert, Option.map_some]
    · rw [get, AList.lookup_insert_ne hid, get]
    · by_cases hid : id = r.id
      · subst hid
        rw [AList.lookup_insert] at hrow
        cases hrow
        exact ⟨rfl, rfl⟩
      · rw [AList.lookup_insert_ne hid] at hrow
        exact hk id row hrow

/-! ## Reserving and cancelling -/

/-- What a granted reservation read and wrote. -/
structure Reserves (s : SqliteStore) (signer job : String) (version : Option UInt64)
    (token : String) (s' : SqliteStore) : Prop where
  current : ∀ v, version = some v → (s.payments.lookup job).map PaymentRow.version = i64TryFrom v
  journaled : s.journaled signer = false
  free : s.signerReservations.lookup signer = none
  eq : s' = { s with signerReservations := s.signerReservations.insert signer ⟨job, token⟩ }

theorem reserve_ok {version : Option UInt64} {answer : String}
    (h : s.reserve signer job version token = .ok (answer, s')) :
    answer = token ∧ Reserves s signer job version token s' := by
  unfold reserve at h
  split_ifs at h with hversion hj hr
  cases h
  rw [not_or] at hr
  refine ⟨rfl, fun v hv => ?_, by simpa using hj, AList.lookup_eq_none.mpr hr.1, rfl⟩
  by_contra hne
  exact hversion ⟨v, hv, hne⟩

/-- The version a reservation was granted for is the stored one, and fits an `i64`. -/
theorem Reserves.version {v : UInt64} (hr : Reserves s signer job (some v) token s')
    (hk : s.Keyed) (hget : s.get job = some r) : r.version = v ∧ v.toNat < 2 ^ 63 := by
  obtain ⟨row, hrow, rfl⟩ := get_eq_some.mp hget
  have hcurrent := hr.current v rfl
  rw [hrow, Option.map_some, (hk job row hrow).2, i64TryFrom] at hcurrent
  split at hcurrent
  next hlt => exact ⟨congrArg Int64.toUInt64 (Option.some.inj hcurrent), hlt⟩
  next => cases hcurrent

/-- What a successful cancellation read and wrote. -/
structure Cancels (s : SqliteStore) (signer job token : String) (s' : SqliteStore) : Prop where
  held : s.signerReservations.lookup signer = some ⟨job, token⟩
  journaled : s.journaled signer = false
  jobJournaled : s.jobJournaled job = false
  eq : s' = { s with signerReservations := s.signerReservations.erase signer }

theorem cancelPreparation_ok {u : Unit}
    (h : s.cancelPreparation signer job token = .ok (u, s')) : Cancels s signer job token s' := by
  unfold cancelPreparation at h
  split at h
  next hc => cases h; exact ⟨owned_iff.mp hc.1, hc.2.1, hc.2.2, rfl⟩
  next => cases h

/-- A cancellation is refused only if the row is gone, or a journal stands in its way. -/
theorem cancelPreparation_error {e : Error}
    (h : s.cancelPreparation signer job token = .error e) :
    s.signerReservations.lookup signer ≠ some ⟨job, token⟩ ∨ s.journaled signer = true ∨
      s.jobJournaled job = true := by
  unfold cancelPreparation at h
  split at h
  next => cases h
  next hc =>
    rw [owned_iff] at hc
    by_cases ho : s.signerReservations.lookup signer = some ⟨job, token⟩
    · right
      simpa [ho, Classical.or_iff_not_imp_left] using hc
    · exact .inl ho

/-! ## Updating -/

/-- The reservations after the journal of `job` went from one to the next. -/
inductive Releases (s : SqliteStore) (job : String) :
    Option PendingTx → Option PendingTx → (AList fun _ : String => Reservation) → Prop where
  | new {next : Option PendingTx} : Releases s job none next s.signerReservations
  | kept {p : PendingTx} : Releases s job (some p) (some p) s.signerReservations
  | resolved {p : PendingTx} {token : String} :
      p.reservation = some token →
      s.signerReservations.lookup p.signer = some ⟨job, token⟩ →
      Releases s job (some p) none (s.signerReservations.erase p.signer)

theorem releaseResolved_ok {previous new : Option PendingTx}
    {reservations : AList fun _ : String => Reservation}
    (h : s.releaseResolved job previous new = .ok reservations) :
    Releases s job previous new reservations := by
  unfold releaseResolved at h
  split at h
  next => cases h; exact .new
  next p =>
    split_ifs at h with hreplace hsome
    · cases h
      obtain ⟨q, rfl⟩ := Option.isSome_iff_exists.mp hsome
      have : some q = some p := by simpa using hreplace
      rw [this]
      exact .kept
    · split at h
      next => cases h
      next token htoken =>
        split_ifs at h with howned
        cases h
        rw [Option.not_isSome_iff_eq_none] at hsome
        rw [hsome]
        exact .resolved htoken (owned_iff.mp howned)

/-- The journal has the reservation of its signer. -/
def Owns (s : SqliteStore) (job : String) (p : PendingTx) : Prop :=
  ∃ token, p.reservation = some token ∧
    s.signerReservations.lookup p.signer = some ⟨job, token⟩

theorem checkJournal_ok {new : Option PendingTx} {u : Unit}
    (h : s.checkJournal job new = .ok u) : ∀ p, new = some p → s.Owns job p := by
  rintro p rfl
  unfold checkJournal at h
  split at h
  next => contradiction
  next q heq =>
    cases heq
    split at h
    next => cases h
    next token htoken =>
      split_ifs at h with howned
      exact ⟨token, htoken, owned_iff.mp howned⟩

/-- What a successful update of `rec` read and wrote. -/
structure Updates (s : SqliteStore) (rec : PaymentRecord) (now : UInt64) (s' : SqliteStore) :
    Prop where
  previous : ∃ old, s.get rec.id = some old ∧ old.version = rec.version ∧
    old.buybackBudget = rec.buybackBudget ∧ old.autoRequired = rec.autoRequired ∧
    old.identity = rec.identity ∧ Releases s rec.id old.pending rec.pending s'.signerReservations
  owns : ∀ p, rec.pending = some p → s.Owns rec.id p
  version_lt : rec.version.toNat + 1 < 2 ^ 64
  get_self : s'.get rec.id = some (rec.stamped now)
  get_ne : ∀ id, id ≠ rec.id → s'.get id = s.get id
  keyed : s.Keyed → s'.Keyed

theorem nextVersion_ok {v v' : UInt64} (h : nextVersion v = .ok v') :
    v.toNat + 1 < 2 ^ 64 ∧ v' = v + 1 := by
  unfold nextVersion at h
  split at h
  next hlt => cases h; exact ⟨hlt, rfl⟩
  next => cases h

/-- A write over the record it was made from succeeds, if that has no journal and the row of
its own is there. -/
theorem update_succeeds {old : PaymentRecord} (hget : s.get r.id = some old)
    (hversion : old.version = r.version) (hlt : r.version.toNat + 1 < 2 ^ 64)
    (hbudget : old.buybackBudget = r.buybackBudget) (hrequired : old.autoRequired = r.autoRequired)
    (hidentity : old.identity = r.identity) (hold : old.pending = none)
    (hcheck : s.checkJournal r.id r.pending = .ok ()) :
    ∃ s', s.update r now = .ok (r.stamped now, s') := by
  have hpolicy : ¬ (old.buybackBudget ≠ r.buybackBudget ∨ old.autoRequired ≠ r.autoRequired ∨
      old.identity ≠ r.identity) := by simp [hbudget, hrequired, hidentity]
  have hrelease : s.releaseResolved r.id old.pending r.pending = .ok s.signerReservations := by
    rw [hold]
    rfl
  have hnext : nextVersion r.version = .ok (r.version + 1) := if_pos hlt
  simp only [update, hget]
  rw [if_neg (not_not.mpr hversion), if_neg hpolicy, Result.ok_bind hcheck,
    Result.ok_bind hrelease, Result.ok_bind hnext]
  exact ⟨_, rfl⟩

/-- A write over another version than the stored one is a conflict. -/
theorem update_conflict {old : PaymentRecord} (hget : s.get r.id = some old)
    (hversion : old.version ≠ r.version) : s.update r now = .error (.conflict r.id) := by
  simp only [update, hget]
  exact if_pos hversion

theorem update_ok (h : s.update r now = .ok (next, s')) :
    next = r.stamped now ∧ Updates s r now s' := by
  unfold update at h
  split at h
  next => cases h
  next old hold =>
    split_ifs at h with hversion hpolicy
    rw [not_or, not_or] at hpolicy
    simp only [not_not] at hversion hpolicy
    obtain ⟨u, hcheck, h⟩ := Result.bind_ok h
    obtain ⟨reservations, hrelease, h⟩ := Result.bind_ok h
    obtain ⟨v, hv, h⟩ := Result.bind_ok h
    obtain ⟨hlt, rfl⟩ := nextVersion_ok hv
    obtain ⟨row, hrow, hrec⟩ := get_eq_some.mp hold
    cases h
    refine ⟨rfl, ⟨⟨old, hold, hversion, hpolicy.1, hpolicy.2.1, hpolicy.2.2,
      releaseResolved_ok hrelease⟩, checkJournal_ok hcheck, hlt, ?_, fun id hid => ?_,
      fun hk id row' hrow' => ?_⟩⟩
    · simp [get, hrow, PaymentRecord.stamped]
    · simp [get, hrow, hid]
    · simp only [hrow, Option.elim_some] at hrow'
      by_cases hid : id = r.id
      · subst hid
        rw [AList.lookup_insert] at hrow'
        cases hrow'
        exact ⟨rfl, rfl⟩
      · rw [AList.lookup_insert_ne hid] at hrow'
        exact hk id row' hrow'

/-! ## Migration and recovery -/

theorem toInt64_of_i64TryFrom {n : UInt64} {v : Int64} (h : i64TryFrom n = some v) :
    v = n.toInt64 := by
  unfold i64TryFrom at h
  split_ifs at h
  exact (Option.some.inj h).symm

/-- What a committed migration or recovery of the record `old` read and wrote: a
new policy, and nothing else of the record. -/
structure Migrates (s : SqliteStore) (id : String) (old next : PaymentRecord)
    (s' : SqliteStore) : Prop where
  get_old : s.get id = some old
  legacy : old.identity = none ∨ old.autoRequired = none
  pending : old.pending = none
  quarantined : old.quarantined = none
  next_eq : next = { old with
    identity := next.identity, autoRequired := next.autoRequired
    buybackBudget := next.buybackBudget, version := old.version + 1, updatedAt := next.updatedAt }
  version_lt : old.version.toNat + 1 < 2 ^ 64
  get_self : s'.get id = some next
  get_ne : ∀ id', id' ≠ id → s'.get id' = s.get id'
  reservations : s'.signerReservations = s.signerReservations
  keyed : s.Keyed → s'.Keyed

/-- Writing the record of a row with the version column that fits it. -/
theorem keyed_put {row : PaymentRow} {v : Int64} (hk : s.Keyed)
    (hrow : s.payments.lookup id = some row) (hid : next.id = row.record.id)
    (hv : v = next.version.toInt64) (id' : String) (row' : PaymentRow)
    (hrow' : (s.payments.insert id { row with version := v, record := next }).lookup id' =
      some row') : row'.record.id = id' ∧ row'.version = row'.record.version.toInt64 := by
  by_cases h : id' = id
  · subst h
    rw [AList.lookup_insert] at hrow'
    cases hrow'
    exact ⟨hid.trans (hk _ row hrow).1, hv⟩
  · rw [AList.lookup_insert_ne h] at hrow'
    exact hk id' row' hrow'

theorem migratedPolicy_ok [Ss58] {version : UInt64} {budget : Option BuybackBudget}
    (h : migratedPolicy r version budget now = .ok next) :
    r.autoRequired = none ∧ r.pending = none ∧ r.quarantined = none ∧
      r.version.toNat + 1 < 2 ^ 64 ∧
      next = { r with
        autoRequired := some budget.isSome, buybackBudget := budget, version := r.version + 1
        updatedAt := now } := by
  unfold migratedPolicy at h
  split at h
  next => cases h
  next =>
    split at h
    next => cases h
    next hclean =>
      simp only [not_or, Bool.not_eq_true, Option.isSome_eq_false_iff, Option.isNone_iff_eq_none]
        at hclean
      obtain ⟨hauto, -, hpending, hquarantined, -⟩ := hclean
      obtain ⟨u, -, h⟩ := Result.bind_ok h
      obtain ⟨v, hv, h⟩ := Result.bind_ok h
      obtain ⟨hlt, rfl⟩ := nextVersion_ok hv
      cases h
      exact ⟨hauto, hpending, hquarantined, hlt, rfl⟩

theorem migrateLegacyPolicy_ok [Ss58] {version : UInt64} {budget : Option BuybackBudget}
    (h : s.migrateLegacyPolicy id version budget now = .ok (next, s')) :
    ∃ old, Migrates s id old next s' := by
  unfold migrateLegacyPolicy at h
  split_ifs at h
  split at h
  next => cases h
  next row hrow =>
    obtain ⟨x, hx, h⟩ := Result.bind_ok h
    split at h
    next => cases h
    next v hv =>
      cases h
      obtain ⟨hauto, hpending, hquarantined, hlt, heq⟩ := migratedPolicy_ok hx
      refine ⟨row.record, ⟨get_eq_some.mpr ⟨row, hrow, rfl⟩, .inr hauto, hpending, hquarantined,
        ?_, hlt, ?_, fun id' hid => ?_, rfl, fun hk id' row' hrow' => ?_⟩⟩
      · rw [heq]
      · rw [get, AList.lookup_insert, Option.map_some]
      · rw [get, AList.lookup_insert_ne hid, get]
      · exact keyed_put hk hrow (by rw [heq]) (toInt64_of_i64TryFrom hv) id' row' hrow'

theorem validateManifest_ok [Ss58] {m : LegacyManifest} {u : Unit}
    (h : validateManifest r m = .ok u) : ¬ manifestRefused r m := by
  unfold validateManifest at h
  split at h
  next => cases h
  next =>
    split at h
    next => cases h
    next hrefused => exact hrefused

/-- A recovery changes the policy and the identity of the record. -/
theorem replay_ok [Ss58] {m : LegacyManifest} {scan : ArchiveScan} {report : RecoveryReport}
    (h : replay r m scan = .ok (next, report)) :
    ¬ manifestRefused r m ∧
      next = { r with
        identity := next.identity, autoRequired := next.autoRequired
        buybackBudget := next.buybackBudget } := by
  unfold replay at h
  obtain ⟨u, hvalid, h⟩ := Result.bind_ok h
  refine ⟨validateManifest_ok hvalid, ?_⟩
  split at h
  next => cases h
  next =>
    obtain ⟨treasury, -, h⟩ := Result.bind_ok h
    obtain ⟨deposit, -, h⟩ := Result.bind_ok h
    obtain ⟨hotkey, -, h⟩ := Result.bind_ok h
    obtain ⟨st, -, h⟩ := Result.bind_ok h
    split at h
    next => cases h
    next total _ =>
      split_ifs at h
      cases h
      rfl

theorem recoverLegacy_ok [Ss58] {scan : PaymentRecord → LegacyManifest → Result ArchiveScan}
    {m : LegacyManifest} {report : RecoveryReport}
    (h : s.recoverLegacy scan m now = .ok (report, s')) :
    ∃ old next, Migrates s m.job old next s' := by
  unfold recoverLegacy at h
  split at h
  next => cases h
  next row hrow =>
    obtain ⟨u, -, h⟩ := Result.bind_ok h
    split at h
    next => cases h
    next =>
      obtain ⟨⟨rec, report'⟩, hverify, h⟩ := Result.bind_ok h
      obtain ⟨version, hversion, h⟩ := Result.bind_ok h
      obtain ⟨-, -, hverify⟩ := Result.bind_ok hverify
      obtain ⟨summaries, -, hreplay⟩ := Result.bind_ok hverify
      obtain ⟨hrefused, heq⟩ := replay_ok hreplay
      simp only [manifestRefused, not_or, Option.not_isSome_iff_eq_none] at hrefused
      obtain ⟨hlt, rfl⟩ := nextVersion_ok hversion
      have hver : rec.version = row.record.version := by rw [heq]
      have hidr : rec.id = row.record.id := by rw [heq]
      dsimp only at h
      split at h
      next v previous hv _ =>
        split at h
        next hid =>
          split at h
          next => cases h
          next =>
            cases h
            refine ⟨row.record, { rec with version := rec.version + 1, updatedAt := now },
              ⟨get_eq_some.mpr ⟨row, hrow, rfl⟩, .inl hrefused.1, hrefused.2.2.1, hrefused.2.2.2.1,
                ?_, hver ▸ hlt, ?_, fun id' hid' => ?_, rfl, fun hk id' row' hrow' => ?_⟩⟩
            · rw [hver]; rw [heq]
            · rw [get, AList.lookup_insert, Option.map_some]
            · rw [get, AList.lookup_insert_ne hid', get]
            · refine keyed_put hk hrow ?_ (toInt64_of_i64TryFrom hv) id' row' hrow'
              exact hidr
        next => cases h
      next => cases h

/-! ## One operation -/

/-- `Changes s x o a s'`: the operation `o` succeeds with the answer `a` and turns
the store `s` into `s'`. -/
inductive Changes (s : SqliteStore) (x : Outside) : (o : StoreOp) → o.Ret → SqliteStore → Prop where
  | requireSigning : Changes s x .requireSigning () s
  | get {id : String} : Changes s x (.get id) (s.get id) s
  | list {states : List PaymentState} : Changes s x (.list states) (s.list states) s
  | insert {r : PaymentRecord} {s' : SqliteStore} : Inserts s r s' → Changes s x (.insert r) () s'
  | update {r : PaymentRecord} {s' : SqliteStore} :
      Updates s r x.now s' → Changes s x (.update r) x.now s'
  | reserveSignerForRecord {signer : String} {r : PaymentRecord} {s' : SqliteStore} :
      Reserves s signer r.id (some r.version) x.token s' →
      Changes s x (.reserveSignerForRecord signer r) x.token s'
  | reserveSigner {signer job : String} {s' : SqliteStore} :
      Reserves s signer job none x.token s' → Changes s x (.reserveSigner signer job) x.token s'
  | cancelPreparation {signer job token : String} {s' : SqliteStore} :
      Cancels s signer job token s' → Changes s x (.cancelPreparation signer job token) () s'
  | migrateLegacyPolicy {id : String} {version : UInt64} {budget : Option BuybackBudget}
      {old next : PaymentRecord} {s' : SqliteStore} :
      Migrates s id old next s' → Changes s x (.migrateLegacyPolicy id version budget) next s'
  | recoverLegacy {m : LegacyManifest} {report : RecoveryReport} {old next : PaymentRecord}
      {s' : SqliteStore} :
      Migrates s m.job old next s' → Changes s x (.recoverLegacy m) report s'

theorem commit_ok {α : Type} {y : Result (α × SqliteStore)} {a : α}
    (h : (commit s y).1 = .ok a) : y = .ok (a, (commit s y).2) := by
  cases y with
  | ok y => cases h; rfl
  | error e => cases h

theorem commit_error {α : Type} {y : Result (α × SqliteStore)} {e : Error}
    (h : (commit s y).1 = .error e) : y = .error e ∧ (commit s y).2 = s := by
  cases y with
  | ok y => cases h
  | error e' => cases h; exact ⟨rfl, rfl⟩

/-- An operation that succeeds. -/
theorem perform_ok [Ss58] {x : Outside} {o : StoreOp} {a : o.Ret}
    (h : (s.perform x o).1 = .ok a) : Changes s x o a (s.perform x o).2 := by
  cases o with
  | requireSigning => exact .requireSigning
  | get id => cases h; exact .get
  | list states => cases h; exact .list
  | insert r => exact .insert (insert_ok (commit_ok h))
  | update r =>
      have hc := commit_ok h
      change Except.map _ (s.update r x.now) = .ok (a, (s.perform x (.update r)).2) at hc
      cases hu : s.update r x.now with
      | error e => rw [hu] at hc; cases hc
      | ok y =>
          rw [hu] at hc
          obtain ⟨rfl, hs⟩ := Prod.mk.inj (Except.ok.inj hc)
          rw [← hs]
          exact .update (update_ok hu).2
  | reserveSignerForRecord signer r =>
      obtain ⟨rfl, hr⟩ := reserve_ok (commit_ok h)
      exact .reserveSignerForRecord hr
  | reserveSigner signer job =>
      obtain ⟨rfl, hr⟩ := reserve_ok (commit_ok h)
      exact .reserveSigner hr
  | cancelPreparation signer job token =>
      exact .cancelPreparation (cancelPreparation_ok (commit_ok h))
  | migrateLegacyPolicy id version budget =>
      obtain ⟨old, hm⟩ := migrateLegacyPolicy_ok (commit_ok h)
      exact .migrateLegacyPolicy hm
  | recoverLegacy m =>
      obtain ⟨old, next, hm⟩ := recoverLegacy_ok (commit_ok h)
      exact .recoverLegacy hm

/-- An operation that fails changes nothing. -/
theorem perform_error [Ss58] {x : Outside} {o : StoreOp} {e : Error}
    (h : (s.perform x o).1 = .error e) : (s.perform x o).2 = s := by
  cases o with
  | requireSigning => rfl
  | get id => rfl
  | list states => rfl
  | _ => exact (commit_error h).2

end SqliteStore

end Buyback
