import Buyback.Store.Transactions
import Buyback.System.Script

/-!
# Who owns a signer

A journal that is not resolved owns its signer: the row of `signer_reservations`
for that signer names the job and the token of the journal.  `Fenced` is this
property of the two tables.  Every operation keeps it, so it holds after any
sequence of operations on an empty database.  What follows about one operation is
read off `Changes`.
-/

namespace Buyback

/-- A client never inserts a record that already has a journal. -/
def StoreOp.Clean (o : StoreOp) : Prop := ∀ rec, o = .insert rec → rec.pending = none

namespace SqliteStore

variable {s s' : SqliteStore} {id signer : String}

/-- Every journal has the row of its signer. -/
structure Fenced (s : SqliteStore) : Prop where
  keyed : s.Keyed
  owns : ∀ id r p, s.get id = some r → r.pending = some p → s.Owns id p

theorem fenced_empty : empty.Fenced := ⟨keyed_empty, fun _ _ _ h => by cases h⟩

/-- A journal of another job does not have the same row. -/
theorem Owns.job_eq {job₁ job₂ : String} {p₁ p₂ : PendingTx} (h₁ : s.Owns job₁ p₁)
    (h₂ : s.Owns job₂ p₂) (hs : p₁.signer = p₂.signer) : job₁ = job₂ := by
  obtain ⟨token₁, -, hrow₁⟩ := h₁
  obtain ⟨token₂, -, hrow₂⟩ := h₂
  rw [hs, hrow₂] at hrow₁
  cases hrow₁
  rfl

theorem Owns.of_lookup {job : String} {p : PendingTx} (h : s.Owns job p)
    (heq : s'.signerReservations.lookup p.signer = s.signerReservations.lookup p.signer) :
    s'.Owns job p := by
  obtain ⟨token, htoken, hrow⟩ := h
  exact ⟨token, htoken, heq.trans hrow⟩

/-- Releasing the row of a resolved journal leaves the rows of the other signers. -/
theorem Releases.lookup_ne {job : String} {old new : Option PendingTx}
    {reservations : AList fun _ : String => Reservation} (h : Releases s job old new reservations)
    (hne : ∀ p, old = some p → new = none → p.signer ≠ signer) :
    reservations.lookup signer = s.signerReservations.lookup signer := by
  cases h with
  | new => rfl
  | kept => rfl
  | resolved _ _ => exact AList.lookup_erase_ne (hne _ rfl rfl).symm

theorem Releases.of_cleared {job : String} {old new : Option PendingTx} {p : PendingTx}
    {reservations : AList fun _ : String => Reservation} (h : Releases s job old new reservations)
    (hold : old = some p) (hnew : new = none) : s.Owns job p := by
  cases h with
  | new => cases hold
  | kept => cases hnew
  | resolved htoken hrow => cases hold; exact ⟨_, htoken, hrow⟩

theorem Releases.kept_or_cleared {job : String} {old new : Option PendingTx} {p : PendingTx}
    {reservations : AList fun _ : String => Reservation} (h : Releases s job old new reservations)
    (hold : old = some p) : new = some p ∨ new = none := by
  cases h with
  | new => cases hold
  | kept => exact .inl hold
  | resolved _ _ => exact .inr rfl

theorem Fenced.updates {rec : PaymentRecord} {now : UInt64} (hf : s.Fenced)
    (hu : Updates s rec now s') : s'.Fenced := by
  refine ⟨hu.keyed hf.keyed, fun id r p hget hp => ?_⟩
  obtain ⟨old, hold, -, -, -, -, hrelease⟩ := hu.previous
  by_cases hid : id = rec.id
  · subst hid
    rw [hu.get_self] at hget
    cases hget
    refine (hu.owns p hp).of_lookup (hrelease.lookup_ne fun q _ hnone => ?_)
    rw [show rec.pending = some p from hp] at hnone
    cases hnone
  · rw [hu.get_ne id hid] at hget
    have howns := hf.owns id r p hget hp
    refine howns.of_lookup (hrelease.lookup_ne fun q hq _ hsigner => hid ?_)
    exact howns.job_eq (hf.owns rec.id old q hold hq) hsigner.symm

/-- A row that no journal is signed by may come and go. -/
theorem Fenced.of_not_journaled (hf : s.Fenced) (hj : s.journaled signer = false)
    (hpay : s'.payments = s.payments)
    (hrow : ∀ other, other ≠ signer →
      s'.signerReservations.lookup other = s.signerReservations.lookup other) : s'.Fenced := by
  have hget (id : String) : s'.get id = s.get id := by rw [get, get, hpay]
  refine ⟨fun id row h => hf.keyed id row (hpay ▸ h), fun id r p h hp => ?_⟩
  rw [hget] at h
  refine (hf.owns id r p h hp).of_lookup (hrow _ ?_)
  rintro rfl
  rw [journaled_iff.mpr ⟨id, r, p, h, hp, rfl⟩] at hj
  cases hj

/-- A granted reservation replaces no row. -/
theorem Reserves.lookup_of_some {job token other : String} {version : Option UInt64}
    {row : Reservation} (hr : Reserves s signer job version token s')
    (hrow : s.signerReservations.lookup other = some row) :
    s'.signerReservations.lookup other = some row := by
  rw [hr.eq]
  refine (AList.lookup_insert_ne ?_).trans hrow
  rintro rfl
  rw [hr.free] at hrow
  cases hrow

theorem Fenced.reserves {job token : String} {version : Option UInt64} (hf : s.Fenced)
    (hr : Reserves s signer job version token s') : s'.Fenced := by
  refine hf.of_not_journaled hr.journaled (by rw [hr.eq]) fun other hne => ?_
  rw [hr.eq]
  exact AList.lookup_insert_ne hne

theorem Fenced.cancels {job token : String} (hf : s.Fenced)
    (hc : Cancels s signer job token s') : s'.Fenced := by
  refine hf.of_not_journaled hc.journaled (by rw [hc.eq]) fun other hne => ?_
  rw [hc.eq]
  exact AList.lookup_erase_ne hne

theorem Migrates.pending_next {old next : PaymentRecord} (hm : Migrates s id old next s') :
    next.pending = none := by
  rw [hm.next_eq]
  exact hm.pending

theorem Migrates.journal {old next r : PaymentRecord} {id' : String} {p : PendingTx}
    (hm : Migrates s id old next s') (hget : s.get id' = some r) (hp : r.pending = some p) :
    ∃ r', s'.get id' = some r' ∧ (r'.pending = some p ∨ r'.pending = none) := by
  by_cases hid : id' = id
  · subst hid
    exact ⟨next, hm.get_self, .inr hm.pending_next⟩
  · exact ⟨r, (hm.get_ne id' hid).trans hget, .inl hp⟩

theorem Fenced.migrates {old next : PaymentRecord} (hf : s.Fenced)
    (hm : Migrates s id old next s') : s'.Fenced := by
  refine ⟨hm.keyed hf.keyed, fun id' r p hget hp => ?_⟩
  by_cases hid : id' = id
  · subst hid
    rw [hm.get_self] at hget
    cases hget
    rw [hm.pending_next] at hp
    cases hp
  · rw [hm.get_ne id' hid] at hget
    exact (hf.owns id' r p hget hp).of_lookup (by rw [hm.reservations])

theorem Fenced.changes {x : Outside} {o : StoreOp} {a : o.Ret} (hf : s.Fenced) (ho : o.Clean)
    (hc : Changes s x o a s') : s'.Fenced := by
  cases hc with
  | requireSigning => exact hf
  | get => exact hf
  | list => exact hf
  | @insert r _ hi =>
      refine ⟨hi.keyed hf.keyed, fun id r' p hget hp => ?_⟩
      by_cases hid : id = r.id
      · subst hid
        rw [hi.get_self] at hget
        cases hget
        rw [ho r rfl] at hp
        cases hp
      · rw [hi.get_ne id hid] at hget
        exact (hf.owns id r' p hget hp).of_lookup (by rw [hi.reservations])
  | update hu => exact hf.updates hu
  | reserveSignerForRecord hr => exact hf.reserves hr
  | reserveSigner hr => exact hf.reserves hr
  | cancelPreparation hx => exact hf.cancels hx
  | migrateLegacyPolicy hm => exact hf.migrates hm
  | recoverLegacy hm => exact hf.migrates hm

/-! ## One operation -/

/-- The operation clears the journal of `row.job` that owns the row. -/
def ClearsJournal (s : SqliteStore) (o : StoreOp) (signer : String) (row : Reservation) : Prop :=
  ∃ rec r p, o = .update rec ∧ rec.id = row.job ∧ s.get row.job = some r ∧ r.pending = some p ∧
    p.signer = signer ∧ p.reservation = some row.token ∧ rec.pending = none

/-- The operation cancels the very row, which no journal stands behind. -/
def CancelsRow (s : SqliteStore) (o : StoreOp) (signer : String) (row : Reservation) : Prop :=
  o = .cancelPreparation signer row.job row.token ∧ s.journaled signer = false ∧
    s.jobJournaled row.job = false

theorem Changes.removes {x : Outside} {o : StoreOp} {a : o.Ret} {row : Reservation}
    (hc : Changes s x o a s') (hrow : s.signerReservations.lookup signer = some row)
    (hgone : s'.signerReservations.lookup signer ≠ some row) :
    s.ClearsJournal o signer row ∨ s.CancelsRow o signer row := by
  cases hc with
  | requireSigning => exact absurd hrow hgone
  | get => exact absurd hrow hgone
  | list => exact absurd hrow hgone
  | insert hi => exact absurd (hi.reservations ▸ hrow) hgone
  | @update rec _ hu =>
      obtain ⟨old, hold, -, -, -, -, hrelease⟩ := hu.previous
      left
      by_contra hno
      refine hgone ((hrelease.lookup_ne fun p hp hnone hsigner => hno ?_).trans hrow)
      obtain ⟨token, htoken, hlookup⟩ := hrelease.of_cleared hp hnone
      rw [hsigner, hrow] at hlookup
      cases hlookup
      exact ⟨rec, old, p, rfl, rfl, hold, hp, hsigner, htoken, hnone⟩
  | reserveSignerForRecord hr =>
      exact absurd (hr.lookup_of_some hrow) hgone
  | reserveSigner hr => exact absurd (hr.lookup_of_some hrow) hgone
  | @cancelPreparation other job token _ hx =>
      right
      by_cases hs : signer = other
      · subst hs
        have hheld := hx.held
        rw [hrow] at hheld
        cases hheld
        exact ⟨rfl, hx.journaled, hx.jobJournaled⟩
      · rw [hx.eq] at hgone
        exact absurd ((AList.lookup_erase_ne hs).trans hrow) hgone
  | migrateLegacyPolicy hm => exact absurd (hm.reservations ▸ hrow) hgone
  | recoverLegacy hm => exact absurd (hm.reservations ▸ hrow) hgone

/-- An unresolved journal stays, or is cleared. -/
theorem Changes.journal {x : Outside} {o : StoreOp} {a : o.Ret} {r : PaymentRecord}
    {p : PendingTx} (hc : Changes s x o a s') (hget : s.get id = some r)
    (hp : r.pending = some p) :
    ∃ r', s'.get id = some r' ∧ (r'.pending = some p ∨ r'.pending = none) := by
  cases hc with
  | requireSigning => exact ⟨r, hget, .inl hp⟩
  | get => exact ⟨r, hget, .inl hp⟩
  | list => exact ⟨r, hget, .inl hp⟩
  | @insert rec _ hi =>
      refine ⟨r, ?_, .inl hp⟩
      rw [hi.get_ne id ?_, hget]
      rintro rfl
      rw [hi.get_old] at hget
      cases hget
  | @update rec _ hu =>
      by_cases hid : id = rec.id
      · subst hid
        refine ⟨_, hu.get_self, ?_⟩
        obtain ⟨old, hold, -, -, -, -, hrelease⟩ := hu.previous
        rw [hget] at hold
        cases hold
        exact hrelease.kept_or_cleared hp
      · exact ⟨r, (hu.get_ne id hid).trans hget, .inl hp⟩
  | reserveSignerForRecord hr => exact ⟨r, by rw [hr.eq]; exact hget, .inl hp⟩
  | reserveSigner hr => exact ⟨r, by rw [hr.eq]; exact hget, .inl hp⟩
  | cancelPreparation hx => exact ⟨r, by rw [hx.eq]; exact hget, .inl hp⟩
  | migrateLegacyPolicy hm => exact hm.journal hget hp
  | recoverLegacy hm => exact hm.journal hget hp

/-! ## Any sequence of operations -/

section

variable [Ss58]

/-- The stores that clients reach from an empty database, one transaction at a
time, whatever each transaction reads from outside. -/
inductive Reachable : SqliteStore → Prop where
  | empty : Reachable empty
  | perform {s : SqliteStore} {o : StoreOp} (x : Outside) :
      Reachable s → o.Clean → Reachable (s.perform x o).2

/-- An operation succeeds, or changes nothing. -/
theorem perform_cases (s : SqliteStore) (x : Outside) (o : StoreOp) :
    (∃ a, (s.perform x o).1 = .ok a ∧ Changes s x o a (s.perform x o).2) ∨
      (∃ e, (s.perform x o).1 = .error e) ∧ (s.perform x o).2 = s := by
  cases h : (s.perform x o).1 with
  | ok a => exact .inl ⟨a, rfl, perform_ok h⟩
  | error e => exact .inr ⟨⟨e, rfl⟩, perform_error h⟩

theorem Reachable.fenced (h : Reachable s) : s.Fenced := by
  induction h with
  | empty => exact fenced_empty
  | @perform s o x _ ho ih =>
      rcases perform_cases s x o with ⟨a, -, hc⟩ | ⟨-, heq⟩
      · exact ih.changes ho hc
      · rw [heq]
        exact ih

/-- Signer ownership after any sequence of operations. -/
structure Ownership (s : SqliteStore) : Prop where
  /-- A journal has a token, and the row of its signer is exactly its own. -/
  row : ∀ id r p, s.get id = some r → r.pending = some p →
    ∃ token, p.reservation = some token ∧
      s.signerReservations.lookup p.signer = some ⟨r.id, token⟩
  /-- A signer has at most one journal. -/
  unique : ∀ id₁ r₁ p₁ id₂ r₂ p₂, s.get id₁ = some r₁ → r₁.pending = some p₁ →
    s.get id₂ = some r₂ → r₂.pending = some p₂ → p₁.signer = p₂.signer → id₁ = id₂
  /-- A journal blocks its signer for every job. -/
  blocks : ∀ id r p x job rec, s.get id = some r → r.pending = some p →
    (∃ e, (s.perform x (.reserveSigner p.signer job)).1 = .error e) ∧
      ∃ e, (s.perform x (.reserveSignerForRecord p.signer rec)).1 = .error e
  /-- A row goes with its journal, or by its exact cancellation. -/
  removal : ∀ x o signer row, s.signerReservations.lookup signer = some row →
    (s.perform x o).2.signerReservations.lookup signer ≠ some row →
    s.ClearsJournal o signer row ∨ s.CancelsRow o signer row
  /-- A journal is never replaced by another. -/
  journal : ∀ x o id r p, s.get id = some r → r.pending = some p →
    ∃ r', (s.perform x o).2.get id = some r' ∧ (r'.pending = some p ∨ r'.pending = none)

/-- Every store that clients reach keeps signer ownership. -/
theorem Reachable.ownership (h : Reachable s) : s.Ownership where
  row id r p hget hp := by
    obtain ⟨token, htoken, hrow⟩ := h.fenced.owns id r p hget hp
    exact ⟨token, htoken, by rw [h.fenced.keyed.id_eq hget]; exact hrow⟩
  unique id₁ r₁ p₁ id₂ r₂ p₂ hget₁ hp₁ hget₂ hp₂ hs :=
    (h.fenced.owns id₁ r₁ p₁ hget₁ hp₁).job_eq (h.fenced.owns id₂ r₂ p₂ hget₂ hp₂) hs
  blocks id r p x job rec hget hp := by
    have hj := journaled_iff.mpr ⟨id, r, p, hget, hp, rfl⟩
    have herror {o : StoreOp} (hno : ∀ a s', ¬ Changes s x o a s') :
        ∃ e, (s.perform x o).1 = .error e := by
      rcases perform_cases s x o with ⟨a, -, hc⟩ | ⟨he, -⟩
      · exact absurd hc (hno a _)
      · exact he
    refine ⟨herror fun a s' hc => ?_, herror fun a s' hc => ?_⟩
    · cases hc with
      | reserveSigner hr => rw [hr.journaled] at hj; cases hj
    · cases hc with
      | reserveSignerForRecord hr => rw [hr.journaled] at hj; cases hj
  removal x o signer row hrow hgone := by
    rcases perform_cases s x o with ⟨a, -, hc⟩ | ⟨-, heq⟩
    · exact hc.removes hrow hgone
    · exact absurd hrow (heq ▸ hgone)
  journal x o id r p hget hp := by
    rcases perform_cases s x o with ⟨a, -, hc⟩ | ⟨-, heq⟩
    · exact hc.journal hget hp
    · exact ⟨r, by rw [heq]; exact hget, .inl hp⟩

end

/-- A client inserts a job, reserves the treasury for it and journals its fees. -/
def sampleJournaled : SqliteStore :=
  let x : Outside := ⟨0, "t", fun _ _ => .error (.chain "no archive")⟩
  let job := (sampleEngine none).sweepRecord "job" "xxx" "path" none ⟨1, "", "", none⟩ 0
  let s := (empty.perform x (.insert job)).2
  let s := (s.perform x (.reserveSignerForRecord "xx" job)).2
  (s.perform x (.update
    { job with pending := some ⟨.fund, some "t", "xx", 0, "0x", 0, 1500⟩ })).2

theorem sampleJournaled_reachable : Reachable sampleJournaled := by
  refine .perform _ (.perform _ (.perform _ .empty ?_) ?_) ?_
  · rintro _ ⟨⟩
    rfl
  · intro rec h
    cases h
  · intro rec h
    cases h

/-- A store with a journal, which owns its signer. -/
theorem sampleJournaled_ownership :
    sampleJournaled.journaled "xx" = true ∧ sampleJournaled.Ownership :=
  ⟨by decide, sampleJournaled_reachable.ownership⟩

end SqliteStore

end Buyback
