import Buyback.Run.Known
import Buyback.System.Script

/-!
# Work on paid requests

A record of `create_payment` leaves `pending` and `expired` in three ways: a tick
observes the payment, a forced sweep opens it, or a retry opens it.  The last has
no payment behind it, and a forced sweep has none before the request expired.
Runs without such calls are `Careful`, and in them all work is earned.
-/

namespace Buyback

open Resumption

section

variable [Ss58] {set : Setting}

/-! ## How a request leaves its unpaid states -/

namespace PaymentRecord

variable {r new : PaymentRecord} {e : Entry} {h : History rpc}

/-- A tick expires the record: its clock is past the deadline, and the minimum was not
reached just before. -/
def ExpiredBy (r : PaymentRecord) (e : Entry) (h : History rpc) : Prop :=
  ∃ E t rest alpha tao, e = .tick E ∧ h = ⟨.host .now, t⟩ :: rest ∧ r.expiresAt < t ∧
    Observed rest r alpha tao ∧ ¬ r.PaidBy alpha tao

/-- A write over an unpaid record: a tick observes the payment, or finds the request
expired, or a call that has read the request starts the work on it. -/
inductive Leaves (e : Entry) (h : History rpc) (r new : PaymentRecord) : Prop where
  | detected {E : Engine} {alpha tao : UInt64} :
      e = .tick E →
      r.state = .pending →
      Observed h r alpha tao →
      r.PaidBy alpha tao →
      new.state = .detected →
      Leaves e h r new
  | expired :
      r.ExpiredBy e h →
      new.state = .expired →
      Leaves e h r new
  | opened {id : String} :
      e = .retry id ∨ e = .forceSweep id →
      ⟨.store (.get id), .ok (some r)⟩ ∈ h →
      new.state = .detected →
      Leaves e h r new

namespace Sound

theorem unpaid_of_rank (hs : r.Sound) (hlt : r.stage.rank < 2) :
    r.state = .pending ∨ r.state = .expired := by
  rcases hs.stage_eq with ⟨hne, hstage⟩ | ⟨-, hw, -⟩
  · rw [hstage] at hlt
    cases hstate : r.state <;> simp_all [PaymentState.rank]
  · exact absurd hlt (Nat.not_lt.mpr hw.two_le_rank)

/-- No other write goes over a record that was not paid: the engine works on records of
other states, and a process that has worked on this one does not find it unpaid again. -/
theorem leaves (hs : r.Sound) (hk : Knows h r) (hw : e.Writes h r new)
    (hunpaid : r.state = .pending ∨ r.state = .expired) : Leaves e h r new := by
  obtain ⟨hpending, -, hrank⟩ := hs.pending_of_unpaid hunpaid
  have hidle {p : PendingTx} (hp : r.pending = some p) : False := by
    cases hpending.symm.trans hp
  have hnot {s : PaymentState} (hstate : r.state = s) (hne : s ≠ .pending ∧ s ≠ .expired) :
      False := by
    rcases hunpaid with h | h
    · exact hne.1 (hstate.symm.trans h)
    · exact hne.2 (hstate.symm.trans h)
  cases hw with
  | retry _ hget _ hcan _ =>
      rcases hs.retry_cases hcan with ⟨hfailed, -⟩ | ⟨-, htarget⟩
      · exact (hnot hfailed (by decide)).elim
      · exact .opened (.inl rfl) hget htarget
  | forceSweep _ hget _ _ => exact .opened (.inr rfl) hget rfl
  | journal _ hb _ _ =>
      cases hb with
      | fund hstate _ => exact (hnot hstate (by decide)).elim
      | sweep hstate _ => exact (hnot hstate (by decide)).elim
      | consolidate hstate _ _ _ => exact (hnot hstate (by decide)).elim
      | returnDust hstate _ _ => exact (hnot hstate (by decide)).elim
      | buyStake hstate _ _ _ _ _ _ _ _ _ => exact (hnot hstate (by decide)).elim
      | destroy hstate _ _ _ _ _ _ _ _ _ _ => exact (hnot hstate (by decide)).elim
  | tick _ hw =>
      cases hw with
      | detected _ hstate hobserved hpaid => exact .detected rfl hstate hobserved hpaid rfl
      | expired _ _ hclock hlate hobserved hnone =>
          exact .expired ⟨_, _, _, _, _, rfl, hclock, hlate, hobserved, hnone⟩ rfl
      | funded _ hstate => exact (hnot hstate (by decide)).elim
      | swept _ hstate => exact (hnot hstate (by decide)).elim
      | consolidated _ hstate _ _ => exact (hnot hstate (by decide)).elim
      | bought _ hstate _ _ _ => exact (hnot hstate (by decide)).elim
      | settled _ hstate _ _ _ => exact (hnot hstate (by decide)).elim
      | applied hp _ _ _ _ => exact (hidle hp).elim
      | dead hp _ => exact (hidle hp).elim
      | failedOnChain hp _ _ => exact (hidle hp).elim
      | quarantined hp _ _ _ => exact (hidle hp).elim
      | attempted _ hseen hworking hget =>
          have hle := hk.older _ hseen (hk.gets _ _ hget).symm
          rw [stage_of_ne hworking.ne_failed] at hle
          exact absurd (hworking.two_le_rank.trans (hle.trans hrank)) (by decide)
      | notified hstate => exact (hnot hstate (by decide)).elim
      | postponed hstate => exact (hnot hstate (by decide)).elim

end Sound

end PaymentRecord

/-! ## Earned work -/

/-- The work on the record `r` is earned: some tick that read the request observed
its payment, or it was swept by force after it had expired. -/
inductive Earned (v : View set) (r : PaymentRecord) : Prop where
  | paid {k : ℕ} {E : Engine} {r₀ : PaymentRecord} {alpha tao : UInt64} :
      v.entries[k]? = some (.tick E) →
      Seen (historyOf v.trace k) r₀ →
      r₀.id = r.id →
      r₀.state = .pending →
      Observed (historyOf v.trace k) r alpha tao →
      r.PaidBy alpha tao →
      Earned v r
  | forced {k : ℕ} {r₀ : PaymentRecord} :
      v.entries[k]? = some (.forceSweep r.id) →
      (k, ⟨.store (.get r.id), .ok (some r₀)⟩) ∈ v.trace →
      r₀.state = .expired →
      Earned v r

/-- No retry reads an unpaid request, and no forced sweep reads a request that is
pending, or a failed one that it would resume. -/
structure Careful (v : View set) : Prop where
  retries : ∀ k j r, v.entries[k]? = some (.retry j) →
    (k, ⟨.store (.get j), .ok (some r)⟩) ∈ v.trace → r.state ≠ .pending ∧ r.state ≠ .expired
  forces : ∀ k j r, v.entries[k]? = some (.forceSweep j) →
    (k, ⟨.store (.get j), .ok (some r)⟩) ∈ v.trace →
    r.state ≠ .pending ∧ (r.state = .failed → ¬ r.ResumeOk .detected)

/-- The entry `e` inserted the job `j`. -/
def Inserted (v : View set) (e : Entry) (j : String) : Prop :=
  ∃ i r, v.entries[i]? = some e ∧ (i, ⟨.store (.insert r), .ok ()⟩) ∈ v.trace ∧ r.id = j

/-- The job `j` was created for a sweep. -/
def SweepJob (v : View set) (j : String) : Prop :=
  ∃ E id path expectedAddress metadata,
    Inserted v (.createSweepJob E id path expectedAddress metadata) j

/-- What a later point of a run still has of an earlier one. -/
structure Extends (v v' : View set) : Prop where
  entries : ∀ (k : ℕ) (e : Entry), v.entries[k]? = some e → v'.entries[k]? = some e
  trace : ∀ x ∈ v.trace, x ∈ v'.trace
  history : ∀ k, historyOf v.trace k <:+ historyOf v'.trace k

namespace Extends

variable {v v' : View set}

theorem careful (h : Extends v v') (hc : Careful v') : Careful v where
  retries k j r he hmem := hc.retries k j r (h.entries k _ he) (h.trace _ hmem)
  forces k j r he hmem := hc.forces k j r (h.entries k _ he) (h.trace _ hmem)

theorem inserted (h : Extends v v') {e : Entry} {j : String} (hi : Inserted v e j) :
    Inserted v' e j := by
  obtain ⟨i, r, he, hmem, hid⟩ := hi
  exact ⟨i, r, h.entries i e he, h.trace _ hmem, hid⟩

theorem sweepJob (h : Extends v v') {j : String} (hj : SweepJob v j) : SweepJob v' j := by
  obtain ⟨E, id, path, expectedAddress, metadata, hi⟩ := hj
  exact ⟨E, id, path, expectedAddress, metadata, h.inserted hi⟩

/-- What earned the work on a record also earns it later, for the same request. -/
theorem earned (h : Extends v v') {r r' : PaymentRecord} (hr : r'.request = r.request)
    (he : Earned v r) : Earned v' r' := by
  simp only [PaymentRecord.request, PaymentRequest.mk.injEq] at hr
  obtain ⟨hid, haddress, hnetuid, halpha, htao, -⟩ := hr
  cases he with
  | @paid k E r₀ alpha tao hk hseen hid₀ hstate hobserved hpaid =>
      have hobserved' : Observed (historyOf v'.trace k) r' alpha tao := by
        constructor
        · obtain ⟨who, coldkeys, positions, hwho, hmem, hread, heq⟩ := hobserved.alpha_eq
          exact ⟨who, coldkeys, positions, haddress ▸ hwho, hmem, (h.history k).subset hread,
            hnetuid ▸ heq⟩
        · intro hsome
          obtain ⟨who, hwho, hread⟩ := hobserved.tao_eq (htao ▸ hsome)
          exact ⟨who, haddress ▸ hwho, (h.history k).subset hread⟩
      refine .paid (h.entries k _ hk) (hseen.mono (h.history k)) (hid₀.trans hid.symm) hstate
        hobserved' ?_
      unfold PaymentRecord.PaidBy
      rw [halpha, htao]
      exact hpaid
  | forced hk hmem hstate =>
      rw [← hid] at hk hmem
      exact .forced (h.entries _ _ hk) (h.trace _ hmem) hstate

end Extends

/-- Where the jobs of a run come from. -/
structure Origins (v : View set) : Prop where
  /-- A job that was inserted is stored, and its record is one its entry creates. -/
  stored : ∀ e j, Inserted v e j → ∃ r, v.state.store.get j = some r
  unique : ∀ e e' j, Inserted v e j → Inserted v e' j → e = e'
  /-- Work is earned, unless the job was created for a sweep. -/
  earned : Careful v → ∀ j r, v.state.store.get j = some r → 2 ≤ r.stage.rank →
    Earned v r ∨ SweepJob v j

namespace Origins

variable {v : View set} {i : ℕ} {e : Entry} {ev : Event rpc} {w' : World}

theorem extends_event : Extends v (⟨w', v.entries, (i, ev) :: v.trace⟩ : View set) where
  entries _ _ h := h
  trace _ h := .tail _ h
  history k := by
    by_cases hk : i = k
    · subst hk
      rw [historyOf_cons_self]
      exact List.suffix_cons _ _
    · simp [historyOf_cons_ne hk]

/-- An insertion in the trace is old, or the event itself. -/
theorem inserted_event {e' : Entry} {j : String}
    (h : Inserted (⟨w', v.entries, (i, ev) :: v.trace⟩ : View set) e' j) :
    Inserted v e' j ∨
      v.entries[i]? = some e' ∧ ∃ r, ev = ⟨.store (.insert r), .ok ()⟩ ∧ r.id = j := by
  obtain ⟨k, r, hk, hmem, hid⟩ := h
  rcases List.mem_cons.mp hmem with heq | hmem
  · cases heq
    exact .inr ⟨hk, r, rfl, hid⟩
  · exact .inl ⟨k, r, hk, hmem, hid⟩

/-- A process has read the record it writes over. -/
theorem read (hk : Known v) {new old : PaymentRecord}
    (hg : e.Allows (historyOf v.trace i) (.store (.update new)))
    (hw : e.Writes (historyOf v.trace i) old new) (hold : v.state.store.get old.id = some old) :
    Seen (historyOf v.trace i) old := by
  obtain ⟨r, hseen, hw'⟩ := hg.update_inv
  obtain ⟨cur, hcur, hbefore⟩ := hk.seen hseen
  rw [← hw'.keys.1, hw.keys.1, hold] at hcur
  cases hcur
  rcases hbefore with rfl | ⟨hlt, -⟩
  · exact hseen
  · rw [← hw'.keys.2, hw.keys.2] at hlt
    exact absurd hlt (UInt64.lt_irrefl _)

/-- A job is inserted only once. -/
theorem fresh_insert (ho : Origins v) (he : Effect set v.state e (historyOf v.trace i) ev w')
    {r : PaymentRecord} (hev : ev = ⟨.store (.insert r), .ok ()⟩) {e' : Entry}
    (hi : Inserted v e' r.id) : False := by
  subst hev
  obtain ⟨cur, hcur⟩ := ho.stored e' r.id hi
  cases he with
  | silent hs _ => cases hs
  | inserted _ hi _ => cases hi.get_old.symm.trans hcur

/-- Work that an event starts is earned. -/
theorem entered (hk : Known v) (hc : Careful v) (hei : v.entries[i]? = some e)
    (hg : e.Allows (historyOf v.trace i) ev.1) {old new : PaymentRecord} {now : UInt64}
    (hold : v.state.store.get old.id = some old) (hs : old.Sound)
    (hkn : Knows (historyOf v.trace i) old) (hw : e.Writes (historyOf v.trace i) old new)
    (hev : ev = ⟨.store (.update new), .ok now⟩) (hlt : old.stage.rank < 2)
    (hge : 2 ≤ new.stage.rank) : Earned v old := by
  subst hev
  have hunpaid := hs.unpaid_of_rank hlt
  cases hs.leaves hkn hw hunpaid with
  | detected he hstate hobserved hpaid _ =>
      exact .paid (he ▸ hei) (read hk hg hw hold) rfl hstate hobserved hpaid
  | expired _ hexpired =>
      rw [PaymentRecord.stage_of_state hexpired (by decide)] at hge
      exact absurd hge (by decide)
  | @opened id he hmem _ =>
      have hmem := mem_historyOf.mp hmem
      rcases he with rfl | rfl
      · obtain ⟨hpending, hexpired⟩ := hc.retries i id old hei hmem
        exact (hunpaid.elim hpending hexpired).elim
      · obtain ⟨hpending, -⟩ := hc.forces i id old hei hmem
        have hid := hk.gets i id old hmem
        exact .forced (hid ▸ hei) (hid ▸ hmem) (hunpaid.resolve_left hpending)

theorem event (hr : Runs set v) (ho : Origins v) (hei : v.entries[i]? = some e)
    (hg : e.Allows (historyOf v.trace i) ev.1)
    (he : Effect set v.state e (historyOf v.trace i) ev w') :
    Origins (⟨w', v.entries, (i, ev) :: v.trace⟩ : View set) := by
  have hext : Extends v (⟨w', v.entries, (i, ev) :: v.trace⟩ : View set) := extends_event
  constructor
  case stored =>
    intro e' j h
    rcases inserted_event h with hold | ⟨-, r, rfl, rfl⟩
    · obtain ⟨r, hget⟩ := ho.stored e' j hold
      obtain ⟨new, hnew, -⟩ := he.progress hget
      exact ⟨new, hnew⟩
    · cases he with
      | silent hs _ => cases hs
      | inserted _ hi _ => exact ⟨r, hi.get_self⟩
  case unique =>
    intro e₁ e₂ j h₁ h₂
    rcases inserted_event h₁ with h₁ | ⟨he₁, r₁, hev₁, rfl⟩
    · rcases inserted_event h₂ with h₂ | ⟨-, r₂, hev₂, rfl⟩
      · exact ho.unique e₁ e₂ j h₁ h₂
      · exact (ho.fresh_insert he hev₂ h₁).elim
    · rcases inserted_event h₂ with h₂ | ⟨he₂, -, -, -⟩
      · exact (ho.fresh_insert he hev₁ h₂).elim
      · exact Option.some.inj (he₁.symm.trans he₂)
  case earned =>
    intro hc j r hget hrank
    have hc' : Careful v := hext.careful hc
    rcases he.origin hget with hold | ⟨hcreates, hid, -, hev⟩ |
      ⟨old, new, now, hold, hid, hs, hkn, hw, hev, rfl⟩
    · exact (ho.earned hc' j r hold hrank).imp (hext.earned rfl) hext.sweepJob
    · cases hcreates with
      | payment _ => exact absurd (show 2 ≤ PaymentState.rank .pending from hrank) (by decide)
      | sweep _ => exact .inr ⟨_, _, _, _, _, i, _, hei, hev ▸ .head _, hid⟩
    · have hrequest : (new.stamped now).request = old.request :=
        (PaymentRecord.Progress.writes hs hw).request
      by_cases hlt : old.stage.rank < 2
      · have hold' : v.state.store.get old.id = some old := by
          rw [← hw.keys.1, hid]
          exact hold
        have hearned := entered hr.known hc' hei hg hold' hs hkn hw hev hlt hrank
        exact .inl (hext.earned hrequest hearned)
      · exact (ho.earned hc' j old hold (Nat.not_lt.mp hlt)).imp (hext.earned hrequest)
          hext.sweepJob

end Origins

theorem Runs.entry_lt {v : View set} (h : Runs set v) : ∀ x ∈ v.trace, x.1 < v.entries.length := by
  refine h.rule (P := fun v => ∀ x ∈ v.trace, x.1 < v.entries.length) ?_ ?_ ?_ ?_
  · exact fun w _ x hx => absurd hx List.not_mem_nil
  · intro v e _ ih x hx
    rw [List.length_append]
    exact Nat.lt_add_right _ (ih x hx)
  · intro v i e ev w' _ ih he _ _ x hx
    rcases List.mem_cons.mp hx with rfl | hx
    · exact (List.getElem?_eq_some_iff.mp he).1
    · exact ih x hx
  · exact fun v b free _ ih _ => ih

theorem Extends.spawn {v : View set} (e : Entry) :
    Extends v { v with entries := v.entries ++ [e] } where
  entries k e' h := by
    rw [List.getElem?_append_left (List.getElem?_eq_some_iff.mp h).1]
    exact h
  trace _ h := h
  history _ := List.suffix_refl _

/-- A process that has just started has inserted nothing. -/
theorem Origins.spawn {v : View set} (hlt : ∀ x ∈ v.trace, x.1 < v.entries.length)
    (ho : Origins v) (e : Entry) :
    Origins ({ v with entries := v.entries ++ [e] } : View set) := by
  have hext : Extends v { v with entries := v.entries ++ [e] } := .spawn e
  have hback {e' : Entry} {j : String}
      (h : Inserted ({ v with entries := v.entries ++ [e] } : View set) e' j) :
      Inserted v e' j := by
    obtain ⟨k, r, hk, hmem, hid⟩ := h
    exact ⟨k, r, List.getElem?_append_left (hlt _ hmem) ▸ hk, hmem, hid⟩
  constructor
  case stored => exact fun e' j h => ho.stored e' j (hback h)
  case unique => exact fun e₁ e₂ j h₁ h₂ => ho.unique e₁ e₂ j (hback h₁) (hback h₂)
  case earned =>
    intro hc j r hget hrank
    exact (ho.earned (hext.careful hc) j r hget hrank).imp (hext.earned rfl) hext.sweepJob

theorem Runs.origins {v : View set} (h : Runs set v) : Origins v := by
  refine h.rule (P := Origins) ?_ ?_ ?_ ?_
  · intro w hw
    have hnone {e : Entry} {j : String} : ¬ Inserted (⟨w, [], []⟩ : View set) e j := by
      rintro ⟨i, r, -, hmem, -⟩
      exact absurd hmem List.not_mem_nil
    refine ⟨fun e j h => absurd h hnone, fun e e' j h => absurd h hnone, ?_⟩
    intro _ j r hget
    rw [hw.1] at hget
    cases hget
  · exact fun v e hr ih => ih.spawn hr.entry_lt e
  · exact fun v i e ev w' hr ih he hg heff => ih.event hr he hg heff
  · intro v b free _ ih _
    have hext : Extends v
        { v with state := { v.state with chain := v.state.chain.append b free } } :=
      ⟨fun _ _ h => h, fun _ h => h, fun _ => List.suffix_refl _⟩
    refine ⟨ih.stored, ih.unique, fun hc j r hget hrank => ?_⟩
    exact (ih.earned (hext.careful hc) j r hget hrank).imp (hext.earned rfl) hext.sweepJob

/-! ## Work only on paid requests -/

/-- What a run does for requests, and when. -/
structure PaidWork (c : Resumption.Config (processes set)) : Prop where
  /-- Work on a request is earned. -/
  earned : ∀ E opts j r, Inserted c.view (.createPayment E opts) j →
    c.state.store.get j = some r → r.state ≠ .pending → r.state ≠ .expired → Earned c.view r
  /-- A retry changes only records that have failed. -/
  retries : ∀ c' k j ev id old, Step (processes set) c c' →
    c.view.entries[k]? = some (.retry j) → c'.trace = (k, ev) :: c.trace →
    c.state.store.get id = some old → c'.state.store.get id ≠ some old →
    id = j ∧ old.state = .failed
  /-- A forced sweep changes only records that have expired. -/
  forces : ∀ c' k j ev id old, Step (processes set) c c' →
    c.view.entries[k]? = some (.forceSweep j) → c'.trace = (k, ev) :: c.trace →
    c.state.store.get id = some old → c'.state.store.get id ≠ some old →
    id = j ∧ old.state = .expired
  /-- Nothing is sent or bought for a pending request. -/
  unspent : ∀ j r, c.state.store.get j = some r → r.state = .pending →
    r.pending = none ∧ r.txs = [] ∧ r.buyback = none

/-- A step of a retry or of a forced sweep that changes a record has read it. -/
theorem changed {c c' : Resumption.Config (processes set)}
    (h : Resumption.Reachable (processes set) c) (hs : Step (processes set) c c') {k : ℕ}
    {e : Entry} {ev : Event rpc} (he : c.view.entries[k]? = some e)
    (htrace : c'.trace = (k, ev) :: c.trace) {id : String} {old : PaymentRecord}
    (hold : c.state.store.get id = some old) (hchanged : c'.state.store.get id ≠ some old) :
    old.Sound ∧ ∃ new, e.Writes (historyOf c.trace k) old new := by
  cases serving h hs with
  | quiet hstore _ => exact absurd (by rw [hstore]; exact hold) hchanged
  | event hei _ heff hcons =>
      obtain ⟨heq, -⟩ := List.cons.inj (htrace.symm.trans hcons)
      cases heq
      cases hei.symm.trans he
      rcases heff.next hold with hsame | ⟨new, now, -, hsound, -, hw, -, -, -⟩
      · exact absurd hsame hchanged
      · exact ⟨hsound, new, hw⟩

/-- In every careful run, requests are only worked on when they are paid. -/
theorem paid_work {c : Resumption.Config (processes set)}
    (h : Resumption.Reachable (processes set) c) (hc : Careful c.view) : PaidWork c := by
  have hr : Runs set c.view := runs_view h
  constructor
  case earned =>
    intro E opts j r hi hget hpending hexpired
    have hrank : 2 ≤ r.stage.rank := by
      by_contra hlt
      rcases (hr.known.sound j r hget).unpaid_of_rank (Nat.not_le.mp hlt) with h | h
      · exact hpending h
      · exact hexpired h
    rcases hr.origins.earned hc j r hget hrank with hearned | ⟨E', id, path, address, metadata, hi'⟩
    · exact hearned
    · cases hr.origins.unique _ _ j hi hi'
  case retries =>
    intro c' k j ev id old hs he htrace hold hchanged
    obtain ⟨hsound, new, hw⟩ := changed h hs he htrace hold hchanged
    generalize hh : historyOf c.trace k = hist at hw
    cases hw with
    | retry _ hget _ hcan _ =>
        have hmem := mem_historyOf.mp (hh ▸ hget)
        obtain ⟨hpending, hexpired⟩ := hc.retries k j old he hmem
        refine ⟨(hr.known.fenced.keyed.id_eq hold).symm.trans (hr.known.gets k j old hmem), ?_⟩
        rcases hsound.retry_cases hcan with ⟨hfailed, -⟩ | ⟨hunpaid, -⟩
        · exact hfailed
        · rcases hunpaid with h | h
          · exact absurd h hpending
          · exact absurd h hexpired
  case forces =>
    intro c' k j ev id old hs he htrace hold hchanged
    obtain ⟨hsound, new, hw⟩ := changed h hs he htrace hold hchanged
    generalize hh : historyOf c.trace k = hist at hw
    cases hw with
    | forceSweep _ hget hcan hresume =>
        have hmem := mem_historyOf.mp (hh ▸ hget)
        obtain ⟨hpending, hfailed⟩ := hc.forces k j old he hmem
        refine ⟨(hr.known.fenced.keyed.id_eq hold).symm.trans (hr.known.gets k j old hmem), ?_⟩
        rcases hsound.forceSweep_cases hcan hresume with (h | h) | ⟨h, -⟩
        · exact absurd h hpending
        · exact h
        · exact absurd hresume (hfailed h)
  case unspent =>
    intro j r hget hstate
    have hsound := hr.known.sound j r hget
    obtain ⟨hp, hq, hrank⟩ := hsound.pending_of_unpaid (.inl hstate)
    have hreceipts := (hsound.booked.unfunded (hrank.trans (by decide))).1
    refine ⟨hp, ?_, (hsound.booked.unswept (hrank.trans (by decide))).2.2.1⟩
    simpa [PaymentRecord.ledger, hq] using hreceipts

end

/-- Whether the first process creates a payment, and has inserted the job `j`. -/
def requests (c : Resumption.Config (processes calm)) (j : String) : Bool :=
  (match c.procs[0]? with
    | some (Entry.createPayment _ _, _) => true
    | _ => false) &&
  c.trace.any fun x =>
    match x with
    | (0, ⟨.store (.insert r), .ok ()⟩) => r.id == j
    | _ => false

theorem inserted_of_requests {c : Resumption.Config (processes calm)} {j : String}
    (h : requests c j = true) : ∃ E opts, Inserted c.view (.createPayment E opts) j := by
  rw [requests, Bool.and_eq_true, List.any_eq_true] at h
  obtain ⟨hproc, x, hx, hinsert⟩ := h
  split at hproc
  next E opts p hp =>
    split at hinsert
    next r =>
      refine ⟨E, opts, 0, r, ?_, hx, by simpa using hinsert⟩
      simp [Resumption.Config.view, hp]
    next => cases hinsert
  next => cases hproc

/-- Whether no process is of the given kind. -/
def without (c : Resumption.Config (processes calm)) (kind : Entry → Bool) : Bool :=
  c.procs.all fun x => !kind x.1

theorem not_of_without {c : Resumption.Config (processes calm)} {kind : Entry → Bool}
    (h : without c kind = true) {k : ℕ} {e : Entry} (he : c.view.entries[k]? = some e) :
    kind e = false := by
  rw [Resumption.Config.view, List.getElem?_map, Option.map_eq_some_iff] at he
  obtain ⟨x, hx, rfl⟩ := he
  simpa using List.all_eq_true.mp h x (List.mem_of_getElem? hx)

/-- Ticks and forced sweeps. -/
def Entry.opens : Entry → Bool
  | .tick _ | .forceSweep _ => true
  | _ => false

/-- Retries and forced sweeps. -/
def Entry.resumes : Entry → Bool
  | .retry _ | .forceSweep _ => true
  | _ => false

/-- A retry of a request that nobody has looked at. -/
def unpaidRetry : List (Move (player calm)) :=
  start (.createPayment (sampleEngine none) {}) :: serves 0 10 ++ start (.retry "job") :: serves 1 5

theorem unpaidRetry_detected : (playSample unpaidRetry).any (fun c =>
    requests c "job" && without c Entry.opens &&
      (c.state.store.get "job").any fun r => r.state == .detected) = true := by
  decide +kernel

/-- The retry starts work on the request. -/
theorem unpaidRetry_works : ∃ c : Resumption.Config (processes calm),
    Resumption.Reachable (processes calm) c ∧ ∃ E opts r,
      Inserted c.view (.createPayment E opts) "job" ∧ c.state.store.get "job" = some r ∧
        r.state = .detected ∧ ¬ Earned c.view r := by
  obtain ⟨c, hc, htest⟩ := playSample_any unpaidRetry_detected
  simp only [Bool.and_eq_true, Option.any_eq_true, beq_iff_eq] at htest
  obtain ⟨⟨hrequests, hwithout⟩, r, hget, hstate⟩ := htest
  obtain ⟨E, opts, hi⟩ := inserted_of_requests hrequests
  refine ⟨c, hc, E, opts, r, hi, hget, hstate, fun he => ?_⟩
  cases he with
  | paid hk _ _ _ _ _ => cases not_of_without hwithout hk
  | forced hk _ _ => cases not_of_without hwithout hk

/-- A tick that sees the payment of a request. -/
def paidRequest : List (Move (player calm)) :=
  start (.createPayment (sampleEngine none) {}) :: serves 0 10 ++
    start (.tick (sampleEngine none)) :: serves 1 2 ++ serve 1 (.stake 0 [⟨7, 1, 50⟩]) ::
    serves 1 1

theorem paidRequest_detected : (playSample paidRequest).any (fun c =>
    requests c "job" && without c Entry.resumes &&
      (c.state.store.get "job").any fun r => r.state == .detected) = true := by
  decide +kernel

/-- A paid request is worked on in a careful run. -/
theorem paidRequest_work : ∃ c : Resumption.Config (processes calm),
    (∃ E opts r, Inserted c.view (.createPayment E opts) "job" ∧
      c.state.store.get "job" = some r ∧ r.state = .detected) ∧ PaidWork c := by
  obtain ⟨c, hc, htest⟩ := playSample_any paidRequest_detected
  simp only [Bool.and_eq_true, Option.any_eq_true, beq_iff_eq] at htest
  obtain ⟨⟨hrequests, hwithout⟩, r, hget, hstate⟩ := htest
  obtain ⟨E, opts, hi⟩ := inserted_of_requests hrequests
  have hcareful : Careful c.view := by
    constructor
    · intro k j r hk _
      cases not_of_without hwithout hk
    · intro k j r hk _
      cases not_of_without hwithout hk
  exact ⟨c, ⟨E, opts, r, hi, hget, hstate⟩, paid_work hc hcareful⟩

end Buyback
