import Buyback.Run.Informed
import Buyback.Store.Alike
import Buyback.System.Script

/-!
# Runs on a database that was there before

A run may start on a database that an older version has written, with whatever records.  Two
kinds of them are of the time before this version.

*Journals without a reservation.*  Such a record is never changed, and nothing is ever sent
from the account that has signed its journal, by any engine and for any job.

*Jobs without an identity or a policy.*  No engine reserves a signer for such a job, until a
migration or a recovery of it has succeeded.
-/

namespace Buyback

open Resumption

/-- The job has no identity or no policy. -/
def PaymentRecord.Unadopted (r : PaymentRecord) : Prop := r.identity = none ∨ r.autoRequired = none

/-- A migration or a recovery of the job has succeeded. -/
inductive Adopts : Event rpc → String → Prop where
  | migrated {id : String} {version : UInt64} {budget : Option BuybackBudget}
      {r : PaymentRecord} : Adopts ⟨.store (.migrateLegacyPolicy id version budget), .ok r⟩ id
  | recovered {m : LegacyManifest} {report : RecoveryReport} :
      Adopts ⟨.store (.recoverLegacy m), .ok report⟩ m.job

namespace SqliteStore

variable {s s' : SqliteStore} {x : Outside} {o : StoreOp} {a : o.Ret} {id : String}
  {r : PaymentRecord}

/-! ## One operation -/

theorem Changes.keyed (hc : Changes s x o a s') (hk : s.Keyed) : s'.Keyed := by
  cases hc with
  | insert hi => exact hi.keyed hk
  | update hu => exact hu.keyed hk
  | reserveSignerForRecord hr => rw [hr.eq]; exact hk
  | reserveSigner hr => rw [hr.eq]; exact hk
  | cancelPreparation hx => rw [hx.eq]; exact hk
  | migrateLegacyPolicy hm => exact hm.keyed hk
  | recoverLegacy hm => exact hm.keyed hk
  | _ => exact hk

/-- What an operation shows is stored after it. -/
theorem Changes.shows (hc : Changes s x o a s') (hk : s.Keyed) (hr : Shows ⟨.store o, .ok a⟩ r) :
    s'.get r.id = some r := by
  cases hc with
  | get =>
      generalize hget : s.get _ = found at hr
      cases hr
      rw [hk.id_eq hget]
      exact hget
  | list =>
      generalize hlist : s.list _ = found at hr
      cases hr with
      | list hmem => exact get_of_mem_list hk (hlist ▸ hmem)
  | update hu =>
      cases hr
      exact hu.get_self
  | _ => cases hr

/-- A record whose journal has no reservation is never written again. -/
theorem Changes.unreserved (hc : Changes s x o a s') (hget : s.get id = some r) {p : PendingTx}
    (hp : r.pending = some p) (hnone : p.reservation = none) : s'.get id = some r := by
  have hmigrates {job : String} {old next : PaymentRecord} (hm : Migrates s job old next s') :
      s'.get id = some r := by
    refine (hm.get_ne id ?_).trans hget
    rintro rfl
    cases hm.get_old.symm.trans hget
    cases hm.pending.symm.trans hp
  cases hc with
  | insert hi =>
      refine (hi.get_ne id ?_).trans hget
      rintro rfl
      cases hi.get_old.symm.trans hget
  | @update rec _ hu =>
      refine (hu.get_ne id ?_).trans hget
      rintro rfl
      obtain ⟨old, hold, -, -, -, -, hreleases⟩ := hu.previous
      cases hold.symm.trans hget
      rw [hp] at hreleases
      generalize hnew : rec.pending = next at hreleases
      generalize s'.signerReservations = reservations at hreleases
      cases hreleases with
      | kept =>
          obtain ⟨token, htoken, -⟩ := hu.owns p hnew
          cases hnone.symm.trans htoken
      | resolved htoken _ => cases hnone.symm.trans htoken
  | reserveSignerForRecord hr => rw [hr.eq]; exact hget
  | reserveSigner hr => rw [hr.eq]; exact hget
  | cancelPreparation hx => rw [hx.eq]; exact hget
  | migrateLegacyPolicy hm => exact hmigrates hm
  | recoverLegacy hm => exact hmigrates hm
  | _ => exact hget

/-- A stored record keeps its identity and its policy, unless it is adopted. -/
theorem Changes.unadopted (hc : Changes s x o a s') (hget : s.get id = some r)
    (hno : ¬ Adopts ⟨.store o, .ok a⟩ id) : ∃ r', s'.get id = some r' ∧
      r'.identity = r.identity ∧ r'.autoRequired = r.autoRequired := by
  have hsame (h : s'.get id = s.get id) : ∃ r', s'.get id = some r' ∧
      r'.identity = r.identity ∧ r'.autoRequired = r.autoRequired :=
    ⟨r, h.trans hget, rfl, rfl⟩
  cases hc with
  | insert hi =>
      refine hsame (hi.get_ne id ?_)
      rintro rfl
      cases hi.get_old.symm.trans hget
  | @update rec _ hu =>
      by_cases hid : id = rec.id
      · subst hid
        obtain ⟨old, hold, -, -, hrequired, hidentity, -⟩ := hu.previous
        cases hold.symm.trans hget
        exact ⟨_, hu.get_self, hidentity.symm, hrequired.symm⟩
      · exact hsame (hu.get_ne id hid)
  | reserveSignerForRecord hr => exact hsame (by rw [hr.eq]; rfl)
  | reserveSigner hr => exact hsame (by rw [hr.eq]; rfl)
  | cancelPreparation hx => exact hsame (by rw [hx.eq]; rfl)
  | @migrateLegacyPolicy job _ _ _ _ _ hm =>
      refine hsame (hm.get_ne id ?_)
      rintro rfl
      exact hno .migrated
  | recoverLegacy hm =>
      refine hsame (hm.get_ne id ?_)
      rintro rfl
      exact hno .recovered
  | _ => exact hsame rfl

end SqliteStore

section

variable [Ss58] {set : Setting} {s₀ : SqliteStore}

/-! ## The runs -/

/-- The processes on a database with the rows of `s₀`. -/
@[reducible] def upgrading (set : Setting) (s₀ : SqliteStore) : System where
  interface := rpc
  Err := Error
  State := World
  Entry := Entry
  body := Entry.body
  init w := w.store = s₀ ∧ w.chain.signed = [] ∧ w.chain.submitted = []
  serve := Serves set
  env := Finalizes set
  crashes := set.crashes

theorem upgrading_meet (set : Setting) (s₀ : SqliteStore) :
    Meets (upgrading set s₀) Relies Entry.Allows fun _ h _ => Idle h :=
  ⟨Entry.body_obeys, fun _ _ _ _ hs => hs.relies⟩

/-- The points the runs reach. -/
abbrev Upgraded (set : Setting) (s₀ : SqliteStore) : Guarded.View (upgrading set s₀) → Prop :=
  Guarded.Reachable (upgrading set s₀) Relies Entry.Allows

/-- A request changes the store as its operation does, or it is none that has succeeded. -/
theorem Serves.changes {w w' : World} {o : Op} {a : o.Ans} (hs : Serves set w o a w') :
    (∃ o' x b, (⟨o, a⟩ : Event rpc) = ⟨.store o', .ok b⟩ ∧
      SqliteStore.Changes w.store x o' b w'.store) ∨
    w'.store = w.store ∧ ∀ o' b, (⟨o, a⟩ : Event rpc) ≠ ⟨.store o', .ok b⟩ := by
  cases hs with
  | @store o x _ =>
      cases hres : (w.store.perform x o).1 with
      | ok b => exact .inl ⟨o, x, b, rfl, SqliteStore.perform_ok hres⟩
      | error e => exact .inr ⟨SqliteStore.perform_error hres, fun _ _ => nofun⟩
  | fault _ => exact .inr ⟨rfl, fun _ _ => nofun⟩
  | chain _ => exact .inr ⟨rfl, fun _ _ => nofun⟩
  | hearsay _ _ => exact .inr ⟨rfl, fun _ _ => nofun⟩
  | host => exact .inr ⟨rfl, fun _ _ => nofun⟩

/-- The rule for what the operations of the store keep. -/
theorem Upgraded.rule {P : SqliteStore → List (ℕ × Event rpc) → Prop} (init : P s₀ [])
    (change : ∀ s s' trace i o x b, P s trace → SqliteStore.Changes s x o b s' →
      P s' ((i, ⟨.store o, .ok b⟩) :: trace))
    (quiet : ∀ s trace i ev, P s trace → (∀ o b, ev ≠ ⟨.store o, .ok b⟩) →
      P s ((i, ev) :: trace))
    {v : Guarded.View (upgrading set s₀)} (h : Upgraded set s₀ v) : P v.state.store v.trace := by
  induction h with
  | init hi => exact hi.1.symm ▸ init
  | step _ hs ih =>
      cases hs with
      | spawn e => exact ih
      | exec _ _ _ hserve =>
          rcases hserve.changes with ⟨o, x, b, heq, hc⟩ | ⟨hstore, hno⟩
          · rw [heq]
            exact change _ _ _ _ o x b ih hc
          · rw [hstore]
            exact quiet _ _ _ _ ih hno
      | env hf => cases hf with | block _ => exact ih

/-! ## Journals without a reservation -/

/-- The record is as it was, and its signer was not reserved. -/
theorem Upgraded.unreserved {v : Guarded.View (upgrading set s₀)} (h : Upgraded set s₀ v)
    {id : String} {r : PaymentRecord} {p : PendingTx} (hget : s₀.get id = some r)
    (hp : r.pending = some p) (hnone : p.reservation = none) :
    v.state.store.get id = some r ∧ ∀ i account r' token,
      (i, ⟨.store (.reserveSignerForRecord account r'), .ok token⟩) ∈ v.trace →
      account ≠ p.signer := by
  refine h.rule (P := fun s trace => s.get id = some r ∧ ∀ i account r' token,
    (i, ⟨.store (.reserveSignerForRecord account r'), .ok token⟩) ∈ trace →
    account ≠ p.signer) ⟨hget, fun _ _ _ _ hmem => absurd hmem List.not_mem_nil⟩ ?_ ?_
  · rintro s s' trace i o x b ⟨hstored, hfree⟩ hc
    refine ⟨hc.unreserved hstored hp hnone, fun j account r' token hmem => ?_⟩
    rcases List.mem_cons.mp hmem with heq | hmem
    · cases heq
      cases hc with
      | reserveSignerForRecord hr =>
          rintro rfl
          have := SqliteStore.journaled_iff.mpr ⟨id, r, p, hstored, hp, rfl⟩
          rw [hr.journaled] at this
          cases this
    · exact hfree j account r' token hmem
  · rintro s trace i ev ⟨hstored, hfree⟩ hno
    refine ⟨hstored, fun j account r' token hmem => ?_⟩
    rcases List.mem_cons.mp hmem with heq | hmem
    · exact absurd (congrArg Prod.snd heq).symm (hno _ _)
    · exact hfree j account r' token hmem

/-- What was sent was sent by a process that had reserved its signer. -/
theorem Upgraded.sent {v : Guarded.View (upgrading set s₀)} (h : Upgraded set s₀ v) :
    ∀ tx ∈ v.state.chain.submitted, ∃ i r token,
      (i, ⟨.store (.reserveSignerForRecord tx.signer r), .ok token⟩) ∈ v.trace := by
  induction h with
  | init hi =>
      intro tx htx
      rw [hi.2.2] at htx
      cases htx
  | @step v v' hr hs ih =>
      cases hs with
      | spawn e => exact ih
      | @exec i e o a w' he hg _ hserve =>
          have hold {tx : PreparedTx} (htx : tx ∈ v.state.chain.submitted) : ∃ j r token,
              (j, ⟨.store (.reserveSignerForRecord tx.signer r), .ok token⟩) ∈
                (i, ⟨o, a⟩) :: v.trace := by
            obtain ⟨j, r, token, hmem⟩ := ih tx htx
            exact ⟨j, r, token, .tail _ hmem⟩
          cases hserve with
          | chain hc =>
              cases hc with
              | submit =>
                  intro tx htx
                  rcases List.mem_cons.mp htx with rfl | htx
                  · generalize hh : historyOf v.trace i = past at hg
                    cases hg with
                    | plain _ hplain => cases hplain
                    | @submit E rest r action call signer token _ t =>
                        have hupdate := (hr.made he ⟨[], hh.symm⟩).1
                        refine ⟨i, r, token, .tail _ (mem_historyOf.mp (hh ▸ ?_))⟩
                        rw [hupdate.signer_eq]
                        exact .tail _ (.tail _ (.head _))
                  · exact hold htx
              | _ => exact fun tx htx => hold htx
          | _ => exact fun tx htx => hold htx
      | env hf => cases hf with | block _ => exact ih

/-! ## Jobs without an identity or a policy -/

/-- The job is not adopted, and no process was shown that it is. -/
structure Outdated (s : SqliteStore) (trace : List (ℕ × Event rpc)) (id : String)
    (r : PaymentRecord) : Prop where
  stored : ∃ r', s.get id = some r' ∧ r'.identity = r.identity ∧ r'.autoRequired = r.autoRequired
  shown : ∀ i ev r', (i, ev) ∈ trace → Shows ev r' → r'.id = id → r'.Unadopted

theorem Upgraded.outdated (hkeyed : s₀.Keyed) {v : Guarded.View (upgrading set s₀)}
    (h : Upgraded set s₀ v) {id : String} {r : PaymentRecord} (hget : s₀.get id = some r)
    (hr : r.Unadopted) (hno : ∀ i ev, (i, ev) ∈ v.trace → ¬ Adopts ev id) :
    Outdated v.state.store v.trace id r := by
  suffices hall : v.state.store.Keyed ∧ ((∀ i ev, (i, ev) ∈ v.trace → ¬ Adopts ev id) →
      Outdated v.state.store v.trace id r) from hall.2 hno
  refine h.rule (P := fun s trace => s.Keyed ∧ ((∀ i ev, (i, ev) ∈ trace → ¬ Adopts ev id) →
    Outdated s trace id r)) ⟨hkeyed, fun _ => ⟨⟨r, hget, rfl, rfl⟩,
      fun _ _ _ hmem => absurd hmem List.not_mem_nil⟩⟩ ?_ ?_
  · rintro s s' trace i o x b ⟨hk, ih⟩ hc
    refine ⟨hc.keyed hk, fun hno => ?_⟩
    obtain ⟨⟨r', hr', hidentity, hrequired⟩, hshown⟩ := ih fun j ev hmem => hno j ev (.tail _ hmem)
    obtain ⟨r'', hr'', hidentity', hrequired'⟩ := hc.unadopted hr' (hno i _ (.head _))
    refine ⟨⟨r'', hr'', hidentity'.trans hidentity, hrequired'.trans hrequired⟩, ?_⟩
    intro j ev shown hmem hshow hid
    rcases List.mem_cons.mp hmem with heq | hmem
    · cases heq
      have hstored := hc.shows hk hshow
      rw [hid, hr''] at hstored
      cases hstored
      exact hr.imp (hidentity'.trans hidentity).trans (hrequired'.trans hrequired).trans
    · exact hshown j ev shown hmem hshow hid
  · rintro s trace i ev ⟨hk, ih⟩ hquiet
    refine ⟨hk, fun hno => ?_⟩
    obtain ⟨hstored, hshown⟩ := ih fun j ev hmem => hno j ev (.tail _ hmem)
    refine ⟨hstored, fun j ev' r' hmem hshow hid => ?_⟩
    rcases List.mem_cons.mp hmem with heq | hmem
    · cases heq
      cases hshow <;> exact absurd rfl (hquiet _ _)
    · exact hshown j ev' r' hmem hshow hid

/-! ## What an older database is safe from -/

/-- No journal of the old database is touched, and none of its jobs is worked on. -/
structure LegacySafe (s₀ : SqliteStore) (c : Resumption.Config (upgrading set s₀)) : Prop where
  /-- A journal without a reservation stays, and nothing is sent by its signer. -/
  journals : ∀ id r p, s₀.get id = some r → r.pending = some p → p.reservation = none →
    c.state.store.get id = some r ∧ ∀ tx ∈ c.state.chain.submitted, tx.signer ≠ p.signer
  /-- No signer is asked for on behalf of a job that is not adopted. -/
  jobs : ∀ id r, s₀.get id = some r → r.Unadopted →
    (∀ i ev, (i, ev) ∈ c.trace → ¬ Adopts ev id) →
    ∀ i account r' x, (i, ⟨.store (.reserveSignerForRecord account r'), x⟩) ∈ c.trace → r'.id ≠ id

/-- Every run on an older database is safe for what it finds there. -/
theorem legacy_safe (hkeyed : s₀.Keyed) {c : Resumption.Config (upgrading set s₀)}
    (h : Resumption.Reachable (upgrading set s₀) c) : LegacySafe s₀ c := by
  have hv : Upgraded set s₀ c.view := h.guarded (upgrading_meet set s₀)
  constructor
  case journals =>
    intro id r p hget hp hnone
    obtain ⟨hstored, hfree⟩ := Upgraded.unreserved hv hget hp hnone
    refine ⟨hstored, fun tx htx => ?_⟩
    obtain ⟨i, r', token, hmem⟩ := Upgraded.sent hv tx htx
    exact hfree i tx.signer r' token hmem
  case jobs =>
    intro id r hget hr hno i account r' x hmem hid
    obtain ⟨e, he⟩ := hv.entry hmem
    obtain ⟨later, past, hsplit⟩ := List.append_of_mem (mem_historyOf.mpr hmem)
    have hsuffix : _ :: past <:+ historyOf c.trace i := ⟨later, hsplit.symm⟩
    have hallows := (hv.made he hsuffix).1
    cases hallows with
    | plain _ hplain => cases hplain
    | @reserve E _ r₀ _ _ _ _ _ hseen hd hb =>
        obtain ⟨ev, hev, hshow⟩ := hseen
        have hmem := mem_historyOf.mp (hsuffix.subset (.tail _ hev))
        have hid' : r₀.id = id := by
          rw [← hid]
          cases hb <;> rfl
        obtain ⟨required, hrequired, -⟩ := hd.policy
        rcases (Upgraded.outdated hkeyed hv hget hr hno).shown i ev r₀ hmem hshow hid' with h | h
        · cases h.symm.trans hd.identity
        · cases h.symm.trans hrequired

end

/-- A job of an older version, whose fees were journaled before there were reservations. -/
def oldJob : PaymentRecord :=
  { plainRecord "a" 0 1 with
    identity := none, pending := some ⟨.fund, none, "xx", 0, "0x", 0, 1500⟩ }

/-- The database of an older version, with that job. -/
def oldDatabase : SqliteStore := { SqliteStore.empty with payments := .singleton "a" oldJob.row }

theorem oldDatabase_keyed : oldDatabase.Keyed := by
  intro id row hrow
  have hmem : (⟨id, row⟩ : Sigma fun _ : String => PaymentRow) ∈ [⟨"a", oldJob.row⟩] :=
    AList.mem_lookup_iff.mp hrow
  cases List.mem_singleton.mp hmem
  exact ⟨rfl, rfl⟩

theorem oldJob_listed : oldJob ∈ oldDatabase.list
    [.pending, .detected, .funded, .swept, .settled, .failed] := by
  decide

/-- A tick lists the old job, and the job is safe. -/
theorem oldDatabase_safe : ∃ c : Resumption.Config (upgrading calm oldDatabase),
    (∃ states rs, (0, ⟨.store (.list states), .ok rs⟩) ∈ c.trace ∧ oldJob ∈ rs) ∧
      LegacySafe oldDatabase c := by
  have hstart : Resumption.Reachable (upgrading calm oldDatabase)
      ⟨{ sampleWorld with store := oldDatabase }, [], []⟩ := .init ⟨rfl, rfl, rfl⟩
  have hspawn := hstart.step (.spawn _ (Entry.tick (sampleEngine none)))
  have hlisted := hspawn.step (.exec (i := 0) rfl
    (.store ⟨0, "t", fun _ _ => .error (.chain "no archive")⟩ List.not_mem_nil))
  exact ⟨_, ⟨_, _, .head _, oldJob_listed⟩, legacy_safe oldDatabase_keyed hlisted⟩

end Buyback
