import Buyback.Run.Issued
import Buyback.System.Script

/-!
# The reservations of a run

A process holds a reservation from the moment the store grants it until it stores
the journal or gives the reservation back.  It leaves a reservation behind when
the store refuses the journal or the cancellation.  Every row of the table is
backed by a journal, held, or left.

A token is drawn once.  So the row of a held reservation stays, no journal has
its token, and no other process touches it.

A reservation is granted for the version of a record that is stored.  While nobody
writes over that version, the store has no reason to refuse the journal.  So a
refused journal is a conflict, and another process has written in between.
-/

namespace Buyback

open Resumption

/-- The process has just got the reservation, or has just prepared with it. -/
inductive Holds : History rpc → String → String → String → Prop where
  | reserved {signer token : String} {r : PaymentRecord} {rest : History rpc} :
      Holds (⟨.store (.reserveSignerForRecord signer r), .ok token⟩ :: rest) signer r.id token
  | prepared {call : ChainCall} {keypair : Keypair} {a : Result PreparedTx}
      {signer token : String} {r : PaymentRecord} {rest : History rpc} :
      Holds (⟨.chain (.prepare call keypair), a⟩ ::
        ⟨.store (.reserveSignerForRecord signer r), .ok token⟩ :: rest) signer r.id token

/-- The row is that of an unresolved journal. -/
def SqliteStore.Backed (s : SqliteStore) (signer : String) (row : Reservation) : Prop :=
  ∃ r p, s.get row.job = some r ∧ r.pending = some p ∧ p.signer = signer ∧
    p.reservation = some row.token

section Trace

variable {trace : List (Nat × Event rpc)} {i k : ℕ} {ev : Event rpc} {signer job token : String}

/-- A process that holds a reservation after an event has just got it, or held it. -/
theorem holds_cons (h : Holds (historyOf ((k, ev) :: trace) i) signer job token) :
    (i = k ∧ ∃ r, ev = ⟨.store (.reserveSignerForRecord signer r), .ok token⟩ ∧ r.id = job) ∨
      Holds (historyOf trace i) signer job token ∧
        (i ≠ k ∨ ∃ call keypair a, ev = ⟨.chain (.prepare call keypair), a⟩) := by
  by_cases hik : i = k
  · subst hik
    rw [historyOf_cons_self] at h
    generalize hh : historyOf trace i = rest at h ⊢
    cases h with
    | reserved => exact .inl ⟨rfl, _, rfl, rfl⟩
    | prepared => exact .inr ⟨.reserved, .inr ⟨_, _, _, rfl⟩⟩
  · rw [historyOf_cons_ne (Ne.symm hik)] at h
    exact .inr ⟨h, .inl hik⟩

end Trace

section

variable [Ss58] {set : Setting}

/-- What a process does next while it holds a reservation: it prepares, gives the
reservation back, or stores the journal. -/
inductive Disposes (h : History rpc) (signer job token : String) : Op → Prop where
  | prepare {call : ChainCall} {keypair : Keypair} {r : PaymentRecord} {rest : History rpc} :
      h = ⟨.store (.reserveSignerForRecord signer r), .ok token⟩ :: rest →
      r.id = job →
      Disposes h signer job token (.chain (.prepare call keypair))
  | cancel {call : ChainCall} {keypair : Keypair} {a : Result PreparedTx} {r : PaymentRecord}
      {rest : History rpc} :
      h = ⟨.chain (.prepare call keypair), a⟩ ::
        ⟨.store (.reserveSignerForRecord signer r), .ok token⟩ :: rest →
      r.id = job →
      (∀ tx, a = .ok tx → tx.signer ≠ signer) →
      Disposes h signer job token (.store (.cancelPreparation signer job token))
  | journal {E : Engine} {call : ChainCall} {keypair : Keypair} {tx : PreparedTx}
      {r₀ r : PaymentRecord} {rest : History rpc} {action : Action} :
      h = ⟨.chain (.prepare call keypair), .ok tx⟩ ::
        ⟨.store (.reserveSignerForRecord signer r), .ok token⟩ :: rest →
      r.id = job →
      tx.signer = signer →
      Seen h r₀ →
      E.Drives r₀ →
      E.Builds rest r₀ r action call keypair →
      Disposes h signer job token
        (.store (.update { r with pending := some (tx.journal action call token) }))

theorem Entry.Allows.disposes {e : Entry} {h : History rpc} {o : Op} {signer job token : String}
    (hg : e.Allows h o) (hh : Holds h signer job token) : Disposes h signer job token o := by
  have hidle {r : PaymentRecord} {rest : History rpc}
      (hi : Idle (⟨.store (.reserveSignerForRecord signer r), .ok token⟩ :: rest)) : False := hi
  have hidle' {call : ChainCall} {keypair : Keypair} {a : Result PreparedTx} {rest : History rpc}
      (hi : Idle (⟨.chain (.prepare call keypair), a⟩ :: rest)) : False := hi
  have hnot : ¬ Idle h := by
    intro hi
    cases hh with
    | reserved => exact hidle hi
    | prepared => exact hidle' hi
  cases hg with
  | plain hi _ => exact absurd hi hnot
  | insert hi _ => exact absurd hi hnot
  | reserve hi _ _ _ => exact absurd hi hnot
  | migrate hi => exact absurd hi hnot
  | recover hi => exact absurd hi hnot
  | prepare _ =>
      cases hh with
      | reserved => exact .prepare rfl rfl
  | cancel hother =>
      cases hh with
      | prepared => exact .cancel rfl rfl hother
  | submit => cases hh
  | update hs hw =>
      cases hw with
      | tick hi _ => exact absurd hi hnot
      | retry hi _ _ _ _ => exact absurd hi hnot
      | forceSweep hi _ _ _ => exact absurd hi hnot
      | journal hd hb _ hsigner =>
          cases hh with
          | prepared => exact .journal rfl rfl hsigner hs hd hb

/-- Only the holder of a reservation cancels it. -/
theorem Entry.Allows.cancel_holds {e : Entry} {h : History rpc} {signer job token : String}
    (hg : e.Allows h (.store (.cancelPreparation signer job token))) :
    Holds h signer job token := by
  cases hg with
  | plain _ hplain => cases hplain
  | cancel _ => exact .prepared

/-! ## Writes in between -/

/-- Among the events, a write over the version of `r` has succeeded. -/
def Rewritten (mid : List (ℕ × Event rpc)) (r : PaymentRecord) : Prop :=
  ∃ k rec t, (k, ⟨.store (.update rec), .ok t⟩) ∈ mid ∧ rec.id = r.id ∧ rec.version = r.version

/-- A reservation was granted for the stored version, which is still stored, or was
written over since. -/
theorem Runs.granted {v : View set} (h : Runs set v) : ∀ mid before i signer r token,
    v.trace = mid ++ (i, ⟨.store (.reserveSignerForRecord signer r), .ok token⟩) :: before →
    r.version.toNat < 2 ^ 63 ∧
      ((∃ cur, v.state.store.get r.id = some cur ∧ cur.version = r.version) ∨
        Rewritten mid r) := by
  refine h.rule (P := fun v => ∀ mid before i signer r token,
    v.trace = mid ++ (i, ⟨.store (.reserveSignerForRecord signer r), .ok token⟩) :: before →
    r.version.toNat < 2 ^ 63 ∧
      ((∃ cur, v.state.store.get r.id = some cur ∧ cur.version = r.version) ∨
        Rewritten mid r)) ?_ ?_ ?_ ?_
  · exact fun w _ mid before i signer r token heq => by simp at heq
  · exact fun v e _ ih => ih
  · intro v i e ev w' hr ih _ hg he mid before j signer r token heq
    cases mid with
    | nil =>
        cases heq
        obtain ⟨E, r₀, action, call, keypair, -, -, hs, hb⟩ := hg.reserve_inv
        obtain ⟨cur, hget, -⟩ := hr.known.seen hs
        rw [← hb.keeps.1] at hget
        cases he with
        | silent hs _ => cases hs
        | reserved _ _ _ hx =>
            obtain ⟨hversion, hlt⟩ := hx.version hr.known.fenced.keyed hget
            refine ⟨hlt, .inl ⟨cur, ?_, hversion⟩⟩
            dsimp only
            rw [hx.eq]
            exact hget
    | cons x mid =>
        change (i, ev) :: v.trace = x :: (mid ++ _) at heq
        obtain ⟨rfl, htail⟩ := List.cons.inj heq
        obtain ⟨hlt, ⟨cur, hget, hversion⟩ | ⟨k, rec, t, hmem, hid, hversion⟩⟩ :=
          ih mid before j signer r token htail
        · refine ⟨hlt, ?_⟩
          rcases he.next hget with hsame | ⟨new, now, hid, -, -, hw, -, rfl, -⟩
          · exact .inl ⟨cur, hsame, hversion⟩
          · exact .inr ⟨i, new, now, .head _, hid, hw.keys.2.trans hversion⟩
        · exact ⟨hlt, .inr ⟨k, rec, t, .tail _ hmem, hid, hversion⟩⟩
  · exact fun v b free _ ih _ => ih

/-- The process has gone on without the reservation. -/
inductive Leaves (trace : List (ℕ × Event rpc)) (signer job token : String) : Prop where
  /-- The store refused the journal of the record that the signer was reserved for, by a
  conflict: another process has written over the version of that record in between. -/
  | journal {later mid before : List (ℕ × Event rpc)} {i k : ℕ} {r rec : PaymentRecord}
      {action : Action} {call : ChainCall} {keypair : Keypair} {tx : PreparedTx} {t : UInt64} :
      trace = later ++ (i, ⟨.store (.update { r with
          pending := some (tx.journal action call token) }), .error (.conflict job)⟩) ::
        (mid ++ (i, ⟨.store (.reserveSignerForRecord signer r), .ok token⟩) :: before) →
      r.id = job →
      historyOf mid i = [⟨.chain (.prepare call keypair), .ok tx⟩] →
      tx.signer = signer →
      k ≠ i →
      (k, ⟨.store (.update rec), .ok t⟩) ∈ mid →
      rec.id = job →
      rec.version = r.version →
      Leaves trace signer job token
  /-- The store refused to cancel the preparation, which had failed or was for another signer. -/
  | cancellation {later mid before : List (ℕ × Event rpc)} {i : ℕ} {r : PaymentRecord}
      {err : Error} {call : ChainCall} {keypair : Keypair} {a : Result PreparedTx} :
      trace = later ++ (i, ⟨.store (.cancelPreparation signer job token), .error err⟩) ::
        (mid ++ (i, ⟨.store (.reserveSignerForRecord signer r), .ok token⟩) :: before) →
      r.id = job →
      historyOf mid i = [⟨.chain (.prepare call keypair), a⟩] →
      (∀ tx, a = .ok tx → tx.signer ≠ signer) →
      Leaves trace signer job token

omit [Ss58] in
/-- The trace that ends with the event `x`. -/
theorem latest_event {trace past : List (ℕ × Event rpc)} (h : trace = past) (x : ℕ × Event rpc) :
    x :: trace = [] ++ x :: past := congrArg (x :: ·) h

omit [Ss58] in
theorem Leaves.cons {trace : List (ℕ × Event rpc)} {signer job token : String}
    (hl : Leaves trace signer job token) (x : ℕ × Event rpc) :
    Leaves (x :: trace) signer job token := by
  cases hl with
  | @journal later _ _ _ _ _ _ _ _ _ _ _ heq hid hmid hsigner hne hmem hrec hversion =>
      have heq : x :: trace = x :: later ++ _ := congrArg (x :: ·) heq
      exact .journal heq hid hmid hsigner hne hmem hrec hversion
  | @cancellation later _ _ _ _ _ _ _ _ heq hid hmid hother =>
      have heq : x :: trace = x :: later ++ _ := congrArg (x :: ·) heq
      exact .cancellation heq hid hmid hother

/-! ## Rows come and go -/

namespace Effect

variable {w w' : World} {e : Entry} {h : History rpc} {ev : Event rpc} {signer : String}
  {row : Reservation}

theorem tokens_subset (he : Effect set w e h ev w') : w.tokens ⊆ w'.tokens := by
  cases he with
  | silent _ hts => exact hts
  | inserted _ _ hts => exact hts
  | wrote _ _ _ _ _ _ hts => exact hts
  | reserved _ _ _ _ => exact List.subset_cons_self _ _
  | cancelled _ hts => exact hts
  | prepared _ => exact List.Subset.refl _
  | submitted => exact List.Subset.refl _

/-- A row that is new was just reserved, with a token that is new. -/
theorem row_origin (he : Effect set w e h ev w')
    (hrow : w'.store.signerReservations.lookup signer = some row) :
    w.store.signerReservations.lookup signer = some row ∨
      (∃ r, ev = ⟨.store (.reserveSignerForRecord signer r), .ok row.token⟩ ∧ r.id = row.job) ∧
        row.token ∉ w.tokens ∧ row.token ∈ w'.tokens := by
  cases he with
  | silent _ _ => exact .inl hrow
  | inserted _ hi _ => exact .inl (hi.reservations ▸ hrow)
  | @wrote r new now s' _ _ _ _ _ _ hu _ =>
      obtain ⟨old, -, -, -, -, -, hrelease⟩ := hu.previous
      left
      generalize new.pending = next at hrelease
      generalize old.pending = previous at hrelease
      have hrow : s'.signerReservations.lookup signer = some row := hrow
      generalize s'.signerReservations = reservations at hrelease hrow
      cases hrelease with
      | new => exact hrow
      | kept => exact hrow
      | @resolved p _ _ _ =>
          by_cases hs : signer = p.signer
          · rw [hs, AList.lookup_erase] at hrow
            cases hrow
          · exact (AList.lookup_erase_ne hs).symm.trans hrow
  | @reserved E r r' action call keypair token s' _ _ hfresh hr =>
      have hrow : s'.signerReservations.lookup signer = some row := hrow
      rw [hr.eq] at hrow
      by_cases hs : signer = ss58 keypair
      · subst hs
        rw [AList.lookup_insert] at hrow
        cases hrow
        exact .inr ⟨⟨r', rfl, rfl⟩, hfresh, .head _⟩
      · exact .inl ((AList.lookup_insert_ne hs).symm.trans hrow)
  | @cancelled other job token s' _ hc _ =>
      left
      have hrow : s'.signerReservations.lookup signer = some row := hrow
      rw [hc.eq] at hrow
      by_cases hs : signer = other
      · rw [hs, AList.lookup_erase] at hrow
        cases hrow
      · exact (AList.lookup_erase_ne hs).symm.trans hrow
  | prepared _ => exact .inl hrow
  | submitted => exact .inl hrow

/-- A request that changes the table of reservations is a successful operation of the store. -/
theorem reservations_cases (he : Effect set w e h ev w') :
    w'.store.signerReservations = w.store.signerReservations ∨
      ∃ o a x, ev = ⟨.store o, .ok a⟩ ∧ SqliteStore.Changes w.store x o a w'.store := by
  cases he with
  | silent _ _ => exact .inl rfl
  | inserted _ hi _ => exact .inl hi.reservations
  | @wrote _ new now _ _ _ _ _ _ _ hu _ =>
      exact .inr ⟨_, _, ⟨now, "", fun _ _ => .error (.chain "")⟩, rfl, .update hu⟩
  | @reserved _ _ _ _ _ _ token _ _ _ _ hr =>
      exact .inr ⟨_, _, ⟨0, token, fun _ _ => .error (.chain "")⟩, rfl,
        .reserveSignerForRecord hr⟩
  | cancelled hc _ =>
      exact .inr ⟨_, _, ⟨0, "", fun _ _ => .error (.chain "")⟩, rfl, .cancelPreparation hc⟩
  | prepared _ => exact .inl rfl
  | submitted => exact .inl rfl

/-- A row that goes goes with its journal, or is cancelled. -/
theorem row_removal (he : Effect set w e h ev w')
    (hrow : w.store.signerReservations.lookup signer = some row) :
    w'.store.signerReservations.lookup signer = some row ∨
      w.store.Backed signer row ∨
      ev = ⟨.store (.cancelPreparation signer row.job row.token), .ok ()⟩ := by
  by_cases hkept : w'.store.signerReservations.lookup signer = some row
  · exact .inl hkept
  · right
    rcases he.reservations_cases with heq | ⟨o, a, x, rfl, hc⟩
    · rw [heq] at hkept
      exact absurd hrow hkept
    · rcases hc.removes hrow hkept with ⟨rec, r, p, -, -, hget, hp, hsigner, htoken, -⟩ | ⟨rfl, -⟩
      · exact .inl ⟨r, p, hget, hp, hsigner, htoken⟩
      · exact .inr rfl

end Effect

/-! ## The invariant -/

/-- Who has a row, and what is known about the rows that processes hold. -/
structure Reserved (v : View set) : Prop where
  drawn : ∀ signer row, v.state.store.signerReservations.lookup signer = some row →
    row.token ∈ v.state.tokens
  issued : ∀ i j p token, Issued v.trace i j p → p.reservation = some token →
    token ∈ v.state.tokens
  held : ∀ i signer job token, Holds (historyOf v.trace i) signer job token →
    v.state.store.signerReservations.lookup signer = some ⟨job, token⟩
  fresh : ∀ i signer job token, Holds (historyOf v.trace i) signer job token →
    ∀ k j p, Issued v.trace k j p → p.reservation ≠ some token
  apart : ∀ i i' signer job token signer' job' token', i ≠ i' →
    Holds (historyOf v.trace i) signer job token →
    Holds (historyOf v.trace i') signer' job' token' → token ≠ token'
  rows : ¬ set.faults → ∀ signer row,
    v.state.store.signerReservations.lookup signer = some row →
    v.state.store.Backed signer row ∨
      (∃ i, Holds (historyOf v.trace i) signer row.job row.token) ∨
      Leaves v.trace signer row.job row.token

namespace Reserved

variable {v : View set} {i : ℕ} {e : Entry} {ev : Event rpc} {w' : World}

/-- A journal is stored by the process that holds its reservation. -/
theorem holder {w : World} {h : History rpc} (he : Effect set w e h ev w') {j : String}
    {p : PendingTx} (hi : Issues ev j p) :
    ∃ token, p.reservation = some token ∧ Holds h p.signer j token := by
  obtain ⟨call, signer, tx, token, r, action, rest, rfl, rfl, hsigner, rfl⟩ :=
    (he.launch hi).prepared
  refine ⟨token, rfl, ?_⟩
  change Holds _ tx.signer r.id token
  rw [hsigner]
  exact .prepared

/-- The row of a held reservation is backed by no journal. -/
theorem not_backed (ht : Traced v) (hr : Reserved v) {signer job token : String}
    (hh : Holds (historyOf v.trace i) signer job token) :
    ¬ v.state.store.Backed signer ⟨job, token⟩ := by
  rintro ⟨r, p, hget, hp, -, htoken⟩
  obtain ⟨k, hissued⟩ := ht.pending job r p hget hp
  exact hr.fresh i signer job token hh k job p hissued htoken

/-- A journal of a reserved signer would have the row of the reservation. -/
theorem not_journaled (hk : Known v) (ht : Traced v) (hr : Reserved v)
    {signer job token : String} (hh : Holds (historyOf v.trace i) signer job token) :
    ∀ id r p, v.state.store.get id = some r → r.pending = some p → p.signer ≠ signer := by
  rintro id r p hget hp rfl
  obtain ⟨token', htoken', hrow⟩ := hk.fenced.owns id r p hget hp
  cases (hr.held i _ _ _ hh).symm.trans hrow
  exact hr.not_backed ht hh ⟨r, p, hget, hp, rfl, htoken'⟩

/-- The row of a held reservation stays while its holder waits. -/
theorem stays (ht : Traced v) (hr : Reserved v)
    (hg : e.Allows (historyOf v.trace i) ev.1)
    (he : Effect set v.state e (historyOf v.trace i) ev w') {k : ℕ} {signer job token : String}
    (hh : Holds (historyOf v.trace k) signer job token)
    (hk : k ≠ i ∨ ∃ call keypair a, ev = ⟨.chain (.prepare call keypair), a⟩) :
    w'.store.signerReservations.lookup signer = some ⟨job, token⟩ := by
  rcases he.row_removal (hr.held k signer job token hh) with hkept | hbacked | rfl
  · exact hkept
  · exact absurd hbacked (hr.not_backed ht hh)
  · rcases hk with hne | ⟨call, keypair, a, heq⟩
    · -- only the holder of a token cancels with it
      exact absurd rfl (hr.apart k i _ _ _ _ _ _ hne hh hg.cancel_holds)
    · cases heq

/-- The row of a journal that stays is still the row of a journal. -/
theorem backed (he : Effect set v.state e (historyOf v.trace i) ev w') {signer : String}
    {row : Reservation} (hb : v.state.store.Backed signer row)
    (hrow : w'.store.signerReservations.lookup signer = some row) :
    w'.store.Backed signer row := by
  obtain ⟨r, p, hget, hp, rfl, htoken⟩ := hb
  rcases he.next hget with hsame | ⟨new, now, hid, hs, -, hw, -, rfl, hget'⟩
  · exact ⟨r, p, hsame, hp, rfl, htoken⟩
  · have hcleared : new.pending = none := by
      cases hs.flight hw with
      | none h _ _ => cases h.symm.trans hp
      | issued _ _ _ h _ _ _ => cases h.symm.trans hp
      | booked _ _ _ hnone _ _ => exact hnone
      | dropped _ _ hnone _ => exact hnone
    cases he with
    | silent hsilent _ => cases hsilent
    | @wrote _ _ _ s' _ _ _ _ _ _ hu _ =>
        obtain ⟨old, hold, -, -, -, -, hrelease⟩ := hu.previous
        rw [hid] at hold
        cases hold.symm.trans hget
        rw [hp, hcleared] at hrelease
        have hrow : s'.signerReservations.lookup p.signer = some row := hrow
        generalize s'.signerReservations = reservations at hrelease hrow
        cases hrelease with
        | resolved _ _ =>
            rw [AList.lookup_erase] at hrow
            cases hrow

/-- Over the record it was made from, the store takes the journal of a reserved signer. -/
theorem takes (hr : Reserved v) {E : Engine} {call : ChainCall} {keypair : Keypair}
    {tx : PreparedTx} {r₀ r : PaymentRecord} {past rest : History rpc} {action : Action}
    {token : String} (x : Outside)
    (hh : historyOf v.trace i = ⟨.chain (.prepare call keypair), .ok tx⟩ ::
      ⟨.store (.reserveSignerForRecord tx.signer r), .ok token⟩ :: rest)
    (hget : v.state.store.get r.id = some r₀) (hpending : r₀.pending = none)
    (hb : E.Builds past r₀ r action call keypair) (hlt : r.version.toNat < 2 ^ 63) :
    (v.state.store.perform x (.update { r with
      pending := some (tx.journal action call token) })).1 = .ok x.now := by
  obtain ⟨-, hversion, hbudget, hrequired, hidentity⟩ := hb.keeps
  have hrow : v.state.store.signerReservations.lookup tx.signer = some ⟨r.id, token⟩ := by
    refine hr.held i _ _ _ ?_
    rw [hh]
    exact .prepared
  have hcheck : v.state.store.checkJournal r.id (some (tx.journal action call token)) =
      .ok () := if_pos (SqliteStore.owned_iff.mpr hrow)
  obtain ⟨s', hupdate⟩ : ∃ s', v.state.store.update { r with
      pending := some (tx.journal action call token) } x.now = .ok (_, s') :=
    SqliteStore.update_succeeds hget hversion.symm (by dsimp only; omega) hbudget.symm
      hrequired.symm hidentity.symm hpending hcheck
  rw [SqliteStore.perform, hupdate]
  rfl

/-- Without faults, a journal is refused only where the job has been written in between. -/
theorem refused (hrun : Runs set v) (hr : Reserved v) (hfaults : ¬ set.faults) {E : Engine}
    {call : ChainCall} {keypair : Keypair} {tx : PreparedTx} {r₀ r : PaymentRecord}
    {past rest : History rpc} {action : Action} {token : String} {err : Error}
    (hh : historyOf v.trace i = ⟨.chain (.prepare call keypair), .ok tx⟩ ::
      ⟨.store (.reserveSignerForRecord tx.signer r), .ok token⟩ :: rest)
    (hs : Seen (historyOf v.trace i) r₀) (hd : E.Drives r₀)
    (hb : E.Builds past r₀ r action call keypair)
    (hrefused : Silent set v.state ⟨.store (.update { r with
      pending := some (tx.journal action call token) }), .error err⟩) :
    Leaves ((i, ⟨.store (.update { r with pending := some (tx.journal action call token) }),
      .error err⟩) :: v.trace) tx.signer r.id token := by
  obtain ⟨x, hx⟩ : ∃ x, (v.state.store.perform x (.update { r with
      pending := some (tx.journal action call token) })).1 = .error err := by
    cases hrefused with
    | refused h => exact h.resolve_left hfaults
  obtain ⟨hid, hversion, -⟩ := hb.keeps
  obtain ⟨cur, hget, hbefore⟩ := hrun.known.seen hs
  rw [← hid] at hget
  have hh' : historyOf v.trace i = [_] ++ _ :: rest := hh
  obtain ⟨mid, before, htrace, hmid, -⟩ := historyOf_split hh'
  obtain ⟨hlt, hstored⟩ := hrun.granted mid before i tx.signer r token htrace
  have hne : cur.version ≠ r.version := by
    intro heq
    have hcur : r₀ = cur := by
      refine hbefore.resolve_right fun hlater => ?_
      rw [heq, hversion] at hlater
      exact UInt64.lt_irrefl _ hlater.1
    subst hcur
    cases (hr.takes x hh hget hd.pending hb hlt).symm.trans hx
  obtain rfl : err = .conflict r.id := by
    have hconflict : v.state.store.update { r with
        pending := some (tx.journal action call token) } x.now = .error (.conflict r.id) :=
      SqliteStore.update_conflict hget hne
    rw [SqliteStore.perform, hconflict] at hx
    cases hx
    rfl
  obtain ⟨k, rec, t, hmem, hrec, hold⟩ := hstored.resolve_left fun ⟨cur', hget', heq⟩ => by
    cases hget.symm.trans hget'
    exact hne heq
  refine .journal (latest_event htrace _) rfl hmid rfl (fun hki => ?_) hmem hrec hold
  -- the process itself has only prepared
  subst hki
  have hown := mem_historyOf.mpr hmem
  rw [hmid] at hown
  cases hown with
  | tail _ h => cases h

/-- The row of a held reservation after its holder went on. -/
theorem disposed (hrun : Runs set v) (hr : Reserved v) (hfaults : ¬ set.faults)
    (hg : e.Allows (historyOf v.trace i) ev.1)
    (he : Effect set v.state e (historyOf v.trace i) ev w') {signer job token : String}
    (hh : Holds (historyOf v.trace i) signer job token)
    (hrow : w'.store.signerReservations.lookup signer = some ⟨job, token⟩) :
    w'.store.Backed signer ⟨job, token⟩ ∨
      Holds (ev :: historyOf v.trace i) signer job token ∨
      Leaves ((i, ev) :: v.trace) signer job token := by
  obtain ⟨o, a⟩ := ev
  have hd := hg.disposes hh
  cases hd with
  | prepare hhist hjob =>
      subst hjob
      rw [hhist]
      exact .inr (.inl .prepared)
  | cancel hhist hjob hother =>
      subst hjob
      right
      right
      cases he with
      | silent hs _ =>
          cases hs with
          | refused _ =>
              have hhist' : historyOf v.trace i = [_] ++ _ := hhist
              obtain ⟨mid, before, htrace, hmid, -⟩ := historyOf_split hhist'
              exact .cancellation (latest_event htrace _) rfl hmid hother
      | cancelled hc _ =>
          rw [hc.eq] at hrow
          rw [AList.lookup_erase] at hrow
          cases hrow
  | @journal _ _ _ tx _ r _ action hhist hjob hsigner hs hd hb =>
      subst hjob hsigner
      generalize hnew : { r with pending := some (tx.journal action _ token) } = new at he ⊢
      cases he with
      | silent hsilent _ =>
          subst hnew
          cases hsilent with
          | refused h => exact .inr (.inr (hr.refused hrun hfaults hhist hs hd hb (.refused h)))
      | wrote _ _ _ _ _ hu _ =>
          subst hnew
          exact .inl ⟨_, _, hu.get_self, rfl, rfl, rfl⟩

theorem event (hrun : Runs set v) (hr : Reserved v)
    (hg : e.Allows (historyOf v.trace i) ev.1)
    (he : Effect set v.state e (historyOf v.trace i) ev w') :
    Reserved (⟨w', v.entries, (i, ev) :: v.trace⟩ : View set) := by
  have ht := hrun.traced
  have hreserved {r : PaymentRecord} {signer token : String}
      (hev : ev = ⟨.store (.reserveSignerForRecord signer r), .ok token⟩) :
      token ∉ v.state.tokens ∧ token ∈ w'.tokens ∧
        w'.store.signerReservations.lookup signer = some ⟨r.id, token⟩ := by
    subst hev
    cases he with
    | silent hs _ => cases hs
    | reserved _ _ hfresh hx =>
        refine ⟨hfresh, .head _, ?_⟩
        dsimp only
        rw [hx.eq]
        exact AList.lookup_insert _
  have hold {k : ℕ} {signer job token : String}
      (hh : Holds (historyOf v.trace k) signer job token) : token ∈ v.state.tokens :=
    hr.drawn signer _ (hr.held k signer job token hh)
  constructor
  case drawn =>
    intro signer row hrow
    rcases he.row_origin hrow with hrow | ⟨-, -, htoken⟩
    · exact he.tokens_subset (hr.drawn signer row hrow)
    · exact htoken
  case issued =>
    intro k j p token h htoken
    rcases issued_cons.mp h with ⟨-, hi⟩ | hissued
    · obtain ⟨token', htoken', hh⟩ := holder he hi
      cases htoken.symm.trans htoken'
      exact he.tokens_subset (hold hh)
    · exact he.tokens_subset (hr.issued k j p token hissued htoken)
  case held =>
    intro k signer job token h
    rcases holds_cons h with ⟨-, r, hev, rfl⟩ | ⟨hh, hk⟩
    · exact (hreserved hev).2.2
    · exact stays ht hr hg he hh hk
  case fresh =>
    intro k signer job token h k' j p hp htoken
    rcases holds_cons h with ⟨-, r, rfl, rfl⟩ | ⟨hh, hk⟩
    · rcases issued_cons.mp hp with ⟨-, rec, t, heq, -⟩ | hissued
      · cases heq
      · exact (hreserved rfl).1 (hr.issued k' j p token hissued htoken)
    · rcases issued_cons.mp hp with ⟨-, hi⟩ | hissued
      · rcases hk with hne | ⟨call, keypair, a, rfl⟩
        · obtain ⟨token', htoken', hh'⟩ := holder he hi
          cases htoken.symm.trans htoken'
          exact hr.apart _ _ _ _ _ _ _ _ hne hh hh' rfl
        · obtain ⟨rec, t, heq, -⟩ := hi
          cases heq
      · exact hr.fresh k signer job token hh k' j p hissued htoken
  case apart =>
    intro k k' signer job token signer' job' token' hne h h' heq
    subst heq
    rcases holds_cons h with ⟨hk, r, hev, -⟩ | ⟨hh, -⟩
    · rcases holds_cons h' with ⟨hk', -⟩ | ⟨hh', -⟩
      · exact hne (hk.trans hk'.symm)
      · exact (hreserved hev).1 (hold hh')
    · rcases holds_cons h' with ⟨-, r, hev, -⟩ | ⟨hh', -⟩
      · exact (hreserved hev).1 (hold hh)
      · exact hr.apart k k' signer job token signer' job' token hne hh hh' rfl
  case rows =>
    intro hfaults signer row hrow
    rcases he.row_origin hrow with hold_row | ⟨⟨r, rfl, hid⟩, -, -⟩
    · rcases hr.rows hfaults signer row hold_row with hb | ⟨k, hh⟩ | hl
      · exact .inl (backed he hb hrow)
      · by_cases hk : k = i
        · subst hk
          refine (disposed hrun hr hfaults hg he hh hrow).imp_right fun h => ?_
          refine h.imp_left fun h => ⟨k, ?_⟩
          rw [historyOf_cons_self]
          exact h
        · refine .inr (.inl ⟨k, ?_⟩)
          rw [historyOf_cons_ne (Ne.symm hk)]
          exact hh
      · exact .inr (.inr (hl.cons _))
    · refine .inr (.inl ⟨i, ?_⟩)
      rw [historyOf_cons_self, ← hid]
      exact .reserved

end Reserved

theorem Runs.reserved {v : View set} (h : Runs set v) : Reserved v := by
  refine h.rule (P := Reserved) ?_ ?_ ?_ ?_
  · intro w hw
    have hrow {signer : String} {row : Reservation} :
        w.store.signerReservations.lookup signer ≠ some row := by
      rw [hw.1]
      exact nofun
    have hholds {i : ℕ} {signer job token : String} :
        ¬ Holds (historyOf ([] : List (Nat × Event rpc)) i) signer job token := nofun
    constructor
    case drawn => exact fun signer row h => absurd h hrow
    case issued => exact fun i j p token h => absurd h not_issued_nil
    case held => exact fun i signer job token h => absurd h hholds
    case fresh => exact fun i signer job token h => absurd h hholds
    case apart => exact fun i i' signer job token _ _ _ _ h => absurd h hholds
    case rows => exact fun _ signer row h => absurd h hrow
  · exact fun v e _ ih => ⟨ih.drawn, ih.issued, ih.held, ih.fresh, ih.apart, ih.rows⟩
  · exact fun v i e ev w' hr ih _ hg he => ih.event hr hg he
  · exact fun v b free _ ih _ => ⟨ih.drawn, ih.issued, ih.held, ih.fresh, ih.apart, ih.rows⟩

/-! ## Who keeps a signer fenced -/

/-- The process is between the reservation and the end of its preparation. -/
structure Sending (c : Resumption.Config (processes set)) (i : ℕ) (signer job token : String) :
    Prop where
  holds : Holds (historyOf c.trace i) signer job token
  runs : ∃ e o next, c.procs[i]? = some (e, some (.ask o next))

/-- Why a signer is fenced. -/
structure Fencing (c : Resumption.Config (processes set)) : Prop where
  /-- A row is that of a journal, or of a call in progress, or was left behind. -/
  rows : ∀ signer row, c.state.store.signerReservations.lookup signer = some row →
    c.state.store.Backed signer row ∨ (∃ i, Sending c i signer row.job row.token) ∨
      Leaves c.trace signer row.job row.token
  /-- A cancellation is refused only while the job has a journal of another signer. -/
  cancellations : ∀ c' i signer job token err, Step (processes set) c c' →
    c'.trace = (i, ⟨.store (.cancelPreparation signer job token), .error err⟩) :: c.trace →
    ∃ r p, c.state.store.get job = some r ∧ r.pending = some p ∧ p.signer ≠ signer

/-- Without crashes, a process that holds a reservation is still at work. -/
theorem Holds.sending {c : Resumption.Config (processes set)} (hcrashes : ¬ set.crashes)
    (h : Resumption.Reachable (processes set) c) {i : ℕ} {signer job token : String}
    (hh : Holds (historyOf c.trace i) signer job token) : Sending c i signer job token := by
  refine ⟨hh, ?_⟩
  obtain ⟨ev, hev⟩ : ∃ ev, ev ∈ historyOf c.trace i := by
    generalize historyOf c.trace i = hist at hh
    cases hh with
    | reserved => exact ⟨_, .head _⟩
    | prepared => exact ⟨_, .head _⟩
  have hlt := h.trace_lt _ (mem_historyOf.mp hev)
  have hproc := List.getElem?_eq_getElem hlt
  generalize c.procs[i] = proc at hproc
  obtain ⟨e, p⟩ := proc
  cases p with
  | none => exact absurd rfl (h.running hcrashes _ (List.mem_of_getElem? hproc))
  | some p =>
      cases p with
      | ask o next => exact ⟨e, o, next, hproc⟩
      | done x =>
          -- a program ends only with no reservation to dispose of
          have hidle := h.ended (processes_meet set) hproc
          generalize historyOf c.trace i = hist at hh hidle
          cases hh with
          | reserved => exact absurd hidle (by trivial)
          | prepared => exact absurd hidle (by trivial)

/-- Without crashes and faults, a signer is fenced by a journal, by a call in
progress, or by a call whose journal or cancellation the store refused. -/
theorem fenced_signers {c : Resumption.Config (processes set)} (hcrashes : ¬ set.crashes)
    (hfaults : ¬ set.faults) (h : Resumption.Reachable (processes set) c) : Fencing c where
  rows signer row hrow := by
    have hr : Runs set c.view := runs_view h
    rcases hr.reserved.rows hfaults signer row hrow with hb | ⟨i, hh⟩ | hl
    · exact .inl hb
    · exact .inr (.inl ⟨i, hh.sending hcrashes h⟩)
    · exact .inr (.inr hl)
  cancellations c' i signer job token err hs htrace := by
    have hr : Runs set c.view := runs_view h
    cases hs with
    | spawn e => exact absurd htrace.symm (List.cons_ne_self _ _)
    | crash hcrash _ => exact absurd hcrash hcrashes
    | env _ => exact absurd htrace.symm (List.cons_ne_self _ _)
    | @exec k e o next a w' hp hserve =>
        obtain ⟨heq, -⟩ := List.cons.inj htrace
        cases heq
        have hg : e.Allows _ _ := h.allowed (processes_meet set) hp
        have hh := hg.cancel_holds
        have hnot := hr.reserved.not_journaled hr.known hr.traced hh
        generalize ha : (Except.error err : Result Unit) = a at hserve
        cases hserve with
        | fault hf => exact absurd hf hfaults
        | store x _ =>
            have herr := (SqliteStore.commit_error ha.symm).1
            rcases SqliteStore.cancelPreparation_error herr with hrow | hj | hj
            · exact absurd (hr.reserved.held i _ _ _ hh) hrow
            · obtain ⟨id, r, p, hget, hpending, hsigner⟩ := SqliteStore.journaled_iff.mp hj
              exact absurd hsigner (hnot id r p hget hpending)
            · obtain ⟨r, p, hget, hpending⟩ := SqliteStore.jobJournaled_iff.mp hj
              exact ⟨r, p, hget, hpending, hnot job r p hget hpending⟩

end

/-- While one engine prepares the fees of a job, another counts a failed attempt on
it.  So the store refuses the journal. -/
def lostRace : List (Move (player calm)) :=
  sampleJob ++ sampleTick 1 ++ serves 1 1 ++
    start (.tick (sampleEngine none)) :: serves 2 2 ++
    serve 2 (.refuse (.chain "timeout")) :: serves 2 3 ++ serves 1 1

theorem lostRace_row : (playSample lostRace).any (fun c => allEnded c &&
    c.state.store.signerReservations.lookup "xx" == some ⟨"job", "t'''"⟩ &&
    (c.state.store.get "job").any fun r => r.pending.isNone) = true := by
  decide

/-- After the race all calls have ended, and the treasury is fenced by no journal. -/
theorem lostRace_fences : ∃ c, Resumption.Reachable (processes calm) c ∧
    (∀ x ∈ c.procs, ∃ y, x.2 = some (.done y)) ∧
    ∃ signer row, c.state.store.signerReservations.lookup signer = some row ∧
      ¬ c.state.store.Backed signer row := by
  obtain ⟨c, hc, htest⟩ := playSample_any lostRace_row
  simp only [Bool.and_eq_true, beq_iff_eq, Option.any_eq_true] at htest
  obtain ⟨⟨hended, hrow⟩, r, hget, hnone⟩ := htest
  refine ⟨c, hc, ended_of_allEnded hended, "xx", _, hrow, ?_⟩
  rintro ⟨r', p, hget', hp, -⟩
  cases hget.symm.trans hget'
  rw [hp] at hnone
  cases hnone

/-- The race is explained: a call was left behind by its journal. -/
theorem lostRace_fencing : ∃ c : Resumption.Config (processes calm),
    c.state.store.signerReservations.lookup "xx" = some ⟨"job", "t'''"⟩ ∧ Fencing c := by
  obtain ⟨c, hc, htest⟩ := playSample_any lostRace_row
  simp only [Bool.and_eq_true, beq_iff_eq] at htest
  exact ⟨c, htest.1.2, fenced_signers (fun h => h) (fun h => h) hc⟩

end Buyback
