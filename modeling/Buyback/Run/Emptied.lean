import Buyback.Record.Once
import Buyback.Run.Informed
import Buyback.System.Script

/-!
# Nothing is left behind

A record that says a stage is over has a reason on chain.  It was swept because a look at
its wallet has shown no position that is worth sweeping and not swept.  Each position it
counts as consolidated was moved by an extrinsic of the job, or was seen to be gone or in
place.  Its dust was returned by an extrinsic of the job, or there was none.  Its webhook
was delivered with the report it still has.

`Behind` is the invariant.  A write either decides something, and then has read the chain
as `Grounds` says, or it applies the extrinsic in flight, or it keeps all of this.
-/

namespace Buyback

open Resumption

section

variable [Ss58]

/-! ## What a write advances -/

namespace PaymentRecord

variable {r new : PaymentRecord} {p : PendingTx} {E : Engine} {e : Entry} {h : History rpc}

/-- What a write does to the progress of the swept stage: a tick decides on it, or the
extrinsic in flight is applied, or nothing. -/
inductive Advance (e : Entry) (r new : PaymentRecord) : Prop where
  | decided {E : Engine} :
      e = .tick E →
      r.pending = none →
      (4 ≤ new.stage.rank → 4 ≤ r.stage.rank ∨ r.state = .funded ∧ new.state = .swept) →
      (new.consolidated = r.consolidated ∨ new.consolidated = r.consolidated + 1) →
      (new.notified = true → r.notified = true ∨ r.state = .settled) →
      Advance e r new
  | applied {p : PendingTx} {blockHash : String} {s : EventSummary} :
      r.pending = some p →
      Applies r (p.receipt blockHash) s p.action new →
      Advance e r new
  | kept :
      (4 ≤ new.stage.rank → 4 ≤ r.stage.rank) →
      new.consolidated = r.consolidated →
      new.dustReturned = r.dustReturned →
      new.notified = r.notified →
      Advance e r new

omit [Ss58] in
/-- A failed attempt, recorded on a record that differs only in its journal. -/
theorem recordFailure_kept {r' : PaymentRecord} {text : String} {maxAttempts : UInt32}
    {now : UInt64} (hstage : r'.stage = r.stage) (hcons : r'.consolidated = r.consolidated)
    (hdust : r'.dustReturned = r.dustReturned) (hnotified : r'.notified = r.notified) :
    Advance e r (r'.recordFailure text maxAttempts now) := by
  have hsame : (r'.recordFailure text maxAttempts now).stage = r'.stage := recordFailure_stage
  obtain ⟨lastError, nextAttemptAt, ⟨-, heq⟩ | ⟨-, heq⟩⟩ :=
    r'.recordFailure_cases text maxAttempts now
  all_goals
    rw [heq] at hsame ⊢
    exact .kept (fun h => hstage ▸ hsame ▸ h) hcons hdust hnotified

theorem advance_tick (hs : r.Sound) (hw : E.Writes h r new) : Advance (.tick E) r new := by
  have hlow {x : Prop} {s : PaymentState} (hs : ¬ 4 ≤ s.rank) (h : 4 ≤ s.rank) : x := absurd h hs
  cases hw with
  | detected hd _ _ _ =>
      exact .decided rfl hd.pending (hlow (s := .detected) (by decide)) (.inl rfl) .inl
  | expired hd _ =>
      exact .decided rfl hd.pending (hlow (s := .expired) (by decide)) (.inl rfl) .inl
  | funded hd _ =>
      exact .decided rfl hd.pending (hlow (s := .funded) (by decide)) (.inl rfl) .inl
  | swept hd hstate =>
      exact .decided rfl hd.pending (fun _ => .inr ⟨hstate, rfl⟩) (.inl rfl) .inl
  | consolidated hd _ _ _ => exact .decided rfl hd.pending .inl (.inr rfl) .inl
  | bought hd _ _ _ _ => exact .decided rfl hd.pending .inl (.inl rfl) .inl
  | settled hd hstate _ _ _ =>
      refine .decided rfl hd.pending (fun _ => .inl ?_) (.inl rfl) .inl
      rw [stage_of_swept hstate]
      decide
  | applied hp _ _ _ happly => exact .applied hp (apply_ok happly hp)
  | dead _ _ => exact .kept (fun h => h) rfl rfl rfl
  | failedOnChain _ _ _ => exact recordFailure_kept rfl rfl rfl rfl
  | quarantined hp _ _ _ => exact recordFailure_kept rfl rfl rfl rfl
  | attempted _ _ _ _ => exact recordFailure_kept rfl rfl rfl rfl
  | notified hstate =>
      exact .decided rfl (hs.pending_of_settled hstate) .inl (.inl rfl) fun _ => .inr hstate
  | postponed hstate =>
      exact .decided rfl (hs.pending_of_settled hstate) .inl (.inl rfl) .inl

/-- Every write over a sound record is of one of these kinds. -/
theorem advance (hs : r.Sound) (hw : e.Writes h r new) : Advance e r new := by
  cases hw with
  | tick _ hw => exact advance_tick hs hw
  | journal hd hb _ _ =>
      have hsame {E : Engine} {r' : PaymentRecord} (hstage : r'.stage = r.stage)
          (hcons : r'.consolidated = r.consolidated) (hnotified : r'.notified = r.notified) :
          Advance (.tick E) r r' :=
        .decided rfl hd.pending (fun h => .inl (hstage ▸ h)) (.inl hcons) fun h =>
          .inl (hnotified ▸ h)
      cases hb <;> exact hsame rfl rfl rfl
  | retry _ _ _ hcan _ =>
      rcases hs.retry_cases hcan with ⟨-, ht, hw⟩ | ⟨-, ht⟩
      · refine .kept (fun h => ?_) rfl rfl rfl
        rwa [ht, stage_moved hw.ne_failed] at h
      · rw [ht]
        exact .kept (fun h => absurd (show 4 ≤ 2 from h) (by decide)) rfl rfl rfl
  | forceSweep _ _ _ _ =>
      exact .kept (fun h => absurd (show 4 ≤ 2 from h) (by decide)) rfl rfl rfl

end PaymentRecord

/-! ## What is behind a record -/

variable {set : Setting}

/-- A tick of an engine that may work on the record has learned this from its requests. -/
def Look (v : View set) (r : PaymentRecord) (P : Engine → History rpc → Prop) : Prop :=
  ∃ i E, v.entries[i]? = some (.tick E) ∧ r.identity = some E.jobIdentity ∧
    P E (historyOf v.trace i)

/-- An extrinsic of the job was journaled for the action and has a receipt. -/
def Receipted (v : View set) (r : PaymentRecord) (action : Action) : Prop :=
  ∃ i p blockHash, Issued v.trace i r.id p ∧ p.action = action ∧ p.receipt blockHash ∈ r.txs

/-- The webhook took the report of the record, or there is none to deliver to. -/
def Engine.Told (E : Engine) (r : PaymentRecord) (h : History rpc) : Prop :=
  r.callbackUrl = none ∨ E.webhook = false ∨ ∃ url status, r.callbackUrl = some url ∧
    ⟨.host (.post url status), .ok ()⟩ ∈ h ∧ { status with lastError := none } = r.report

/-- What is behind the flags of a stored record. -/
structure Behind (v : View set) (r : PaymentRecord) : Prop where
  emptied : 4 ≤ r.stage.rank → Look v r fun E h => E.Emptied h r
  merged : ∀ k < r.consolidated, ∃ position, r.sweptPositions[k]? = some position ∧
    (Receipted v r (.consolidate position.1) ∨ Look v r fun E h => E.Merged h r position)
  drained : r.dustReturned = true → Receipted v r .returnDust ∨ Look v r fun E h => E.Drained h r
  told : r.notified = true → r.state = .settled ∧ Look v r fun E h => E.Told r h

section

variable {v v' : View set} {r new : PaymentRecord}

theorem Look.mono {P P' : Engine → History rpc → Prop} (hl : Look v r P)
    (hentries : ∀ (i : ℕ) (e : Entry), v.entries[i]? = some e → v'.entries[i]? = some e)
    (hidentity : new.identity = r.identity)
    (hP : ∀ i E, P E (historyOf v.trace i) → P' E (historyOf v'.trace i)) : Look v' new P' := by
  obtain ⟨i, E, he, hid, hp⟩ := hl
  exact ⟨i, E, hentries i _ he, hidentity.trans hid, hP i E hp⟩

theorem Engine.Emptied.congr {E : Engine} {h : History rpc} (he : E.Emptied h r)
    (hterms : new.terms = r.terms) (hpos : r.sweptPositions <+: new.sweptPositions) :
    E.Emptied h new := by
  obtain ⟨wallet, total, pos, price, hw, halpha, hprice, hall⟩ := he
  rw [← PaymentRecord.netuid_congr hterms] at halpha hprice
  refine ⟨wallet, total, pos, price, (PaymentRecord.wallet_congr hterms).trans hw, halpha, hprice,
    fun p hp hle => ?_⟩
  exact (hpos.map Prod.fst).subset (hall p hp hle)

theorem Engine.Drained.congr {E : Engine} {h : History rpc} (he : E.Drained h r)
    (hterms : new.terms = r.terms) : E.Drained h new := by
  obtain ⟨wallet, hw, hfree⟩ := he
  exact ⟨wallet, (PaymentRecord.wallet_congr hterms).trans hw, hfree⟩

theorem Engine.Merged.congr {E : Engine} {h : History rpc} {position : String × UInt64}
    (he : E.Merged h r position) (hterms : new.terms = r.terms) : E.Merged h new position := by
  obtain ⟨hotkey, hparse, hgone⟩ := he
  rw [← PaymentRecord.netuid_congr hterms] at hgone
  exact ⟨hotkey, hparse, hgone⟩

omit [Ss58] in
theorem Engine.Told.congr {E : Engine} {h : History rpc} (ht : E.Told r h)
    (hterms : new.terms = r.terms) (hreport : new.report = r.report) : E.Told new h := by
  have hurl : new.callbackUrl = r.callbackUrl := congrArg Terms.callbackUrl hterms
  unfold Engine.Told
  rw [hurl, hreport]
  exact ht

theorem Receipted.mono {action : Action} (hr : Receipted v r action)
    (hissued : ∀ i j p, Issued v.trace i j p → Issued v'.trace i j p) (hid : new.id = r.id)
    (htxs : r.txs <+: new.txs) : Receipted v' new action := by
  obtain ⟨i, p, blockHash, hi, haction, hmem⟩ := hr
  exact ⟨i, p, blockHash, hid ▸ hissued i _ p hi, haction, htxs.subset hmem⟩

end

/-! ## Every step keeps it -/

/-- What is behind a record stays when it is left alone. -/
theorem Behind.later {v v' : View set} {r : PaymentRecord} (hb : Behind v r)
    (hentries : ∀ (i : ℕ) (e : Entry), v.entries[i]? = some e → v'.entries[i]? = some e)
    (hhistory : ∀ i, historyOf v.trace i <:+ historyOf v'.trace i)
    (hissued : ∀ i j p, Issued v.trace i j p → Issued v'.trace i j p) : Behind v' r where
  emptied h := (hb.emptied h).mono hentries rfl fun i E he => he.mono (hhistory i)
  merged k hk := by
    obtain ⟨position, hget, hreason⟩ := hb.merged k hk
    refine ⟨position, hget, hreason.imp (·.mono hissued rfl List.prefix_rfl) ?_⟩
    exact fun hl => hl.mono hentries rfl fun i E he => he.mono (hhistory i)
  drained h := (hb.drained h).imp (·.mono hissued rfl List.prefix_rfl) fun hl =>
    hl.mono hentries rfl fun i E he => he.mono (hhistory i)
  told h := (hb.told h).imp id fun hl => hl.mono hentries rfl fun i E he =>
    he.imp id (Or.imp id fun ⟨url, status, hurl, hpost, hreport⟩ =>
      ⟨url, status, hurl, (hhistory i).subset hpost, hreport⟩)

/-- What is behind a record stays when it is written over, as far as it was done before. -/
structure Behind.Carried (v : View set) (r new : PaymentRecord) : Prop where
  emptied : 4 ≤ r.stage.rank → Look v new fun E h => E.Emptied h new
  merged : ∀ k < r.consolidated, ∃ position, new.sweptPositions[k]? = some position ∧
    (Receipted v new (.consolidate position.1) ∨ Look v new fun E h => E.Merged h new position)
  drained : r.dustReturned = true →
    Receipted v new .returnDust ∨ Look v new fun E h => E.Drained h new
  told : r.notified = true → new.state = .settled ∧ Look v new fun E h => E.Told new h

theorem Behind.carried {v : View set} {r new : PaymentRecord} (hb : Behind v r)
    (hprogress : r.Progress new) (hfixed : r.Fixed new) : Carried v r new := by
  have hid : new.id = r.id := congrArg (·.request.id) hfixed.terms
  have hidentity := PaymentRecord.identity_congr hfixed.terms
  constructor
  case emptied =>
    exact fun h => (hb.emptied h).mono (fun _ _ he => he) hidentity fun _ E he =>
      he.congr hfixed.terms hprogress.positions
  case merged =>
    intro k hk
    obtain ⟨position, hget, hreason⟩ := hb.merged k hk
    obtain ⟨rest, hrest⟩ := hprogress.positions
    refine ⟨position, ?_, hreason.imp (·.mono (fun _ _ _ h => h) hid hprogress.txs) ?_⟩
    · rw [← hrest, List.getElem?_append_left (List.getElem?_eq_some_iff.mp hget).1, hget]
    · exact fun hl => hl.mono (fun _ _ he => he) hidentity fun _ E he => he.congr hfixed.terms
  case drained =>
    exact fun h => (hb.drained h).imp (·.mono (fun _ _ _ h => h) hid hprogress.txs) fun hl =>
      hl.mono (fun _ _ he => he) hidentity fun _ E he => he.congr hfixed.terms
  case told =>
    intro h
    obtain ⟨hstate, hl⟩ := hb.told h
    exact ⟨hfixed.settled hstate, hl.mono (fun _ _ he => he) hidentity fun _ E he =>
      he.congr hfixed.terms (hfixed.report hstate)⟩

section

variable {v : View set} {r new : PaymentRecord} {i : ℕ} {e : Entry} {now : UInt64}

/-- A tick that decides has its reasons in its own history. -/
theorem Behind.Carried.decided {E : Engine} (hc : Carried v r (new.stamped now))
    (hfixed : r.Fixed (new.stamped now)) (hpos : r.sweptPositions <+: new.sweptPositions)
    (he : v.entries[i]? = some (.tick E)) (hreads : E.Reads (historyOf v.trace i) r new)
    (hpending : r.pending = none)
    (hrank : 4 ≤ new.stage.rank → 4 ≤ r.stage.rank ∨ r.state = .funded ∧ new.state = .swept)
    (hcons : new.consolidated = r.consolidated ∨ new.consolidated = r.consolidated + 1)
    (hnotified : new.notified = true → r.notified = true ∨ r.state = .settled) :
    Behind v (new.stamped now) := by
  have hterms := hfixed.terms
  have hlook {P : Engine → History rpc → Prop} (hid : r.identity = some E.jobIdentity)
      (hP : P E (historyOf v.trace i)) : Look v (new.stamped now) P :=
    ⟨i, E, he, (PaymentRecord.identity_congr hterms).trans hid, hP⟩
  constructor
  case emptied =>
    intro h
    rcases hrank h with hold | ⟨hfunded, hswept⟩
    · exact hc.emptied hold
    · obtain ⟨hid, hempty⟩ := hreads.swept hfunded hswept
      exact hlook hid (hempty.congr hterms hpos)
  case merged =>
    intro k hk
    have hk : k < new.consolidated := hk
    rcases Nat.lt_or_ge k r.consolidated with hlt | hge
    · exact hc.merged k hlt
    · have hne : new.consolidated ≠ r.consolidated := by omega
      obtain rfl : k = r.consolidated := by
        have := hcons.resolve_left hne
        omega
      obtain ⟨hid, position, hget, hmerged⟩ := hreads.merged hpending hne
      obtain ⟨rest, hrest⟩ := hpos
      refine ⟨position, ?_, .inr (hlook hid (hmerged.congr hterms))⟩
      change new.sweptPositions[r.consolidated]? = _
      rw [← hrest, List.getElem?_append_left (List.getElem?_eq_some_iff.mp hget).1, hget]
  case drained =>
    intro h
    cases hdust : r.dustReturned with
    | true => exact hc.drained hdust
    | false =>
        obtain ⟨hid, hdrained⟩ := hreads.drained hpending hdust h
        exact .inr (hlook hid (hdrained.congr hterms))
  case told =>
    intro h
    cases hnot : r.notified with
    | true => exact hc.told hnot
    | false =>
        have hstate : r.state = .settled := by
          refine (hnotified h).resolve_left fun hnotified => ?_
          rw [hnot] at hnotified
          cases hnotified
        obtain ⟨hid, hdelivered⟩ := hreads.delivered hnot h
        refine ⟨hfixed.settled hstate, hlook hid ?_⟩
        refine Engine.Told.congr ?_ hterms (hfixed.report hstate)
        exact hdelivered.imp id (Or.imp id fun ⟨url, hurl, hpost⟩ =>
          ⟨url, r.status, hurl, hpost, rfl⟩)

/-- The extrinsic that is applied is the reason. -/
theorem Behind.Carried.applied {p : PendingTx} {blockHash : String} {s : EventSummary}
    (hc : Carried v r (new.stamped now)) (hs : r.Sound) (hid : new.id = r.id)
    (hp : r.pending = some p) (hissued : ∃ k, Issued v.trace k r.id p)
    (ha : r.Applies (p.receipt blockHash) s p.action new) : Behind v (new.stamped now) := by
  obtain ⟨k, hk⟩ := hissued
  have hreceipt {action : Action} (haction : p.action = action) :
      Receipted v (new.stamped now) action := by
    have hmem : p.receipt blockHash ∈ new.txs := by
      rw [ha.txs.2]
      exact List.mem_append_right _ (.head _)
    have hid : (new.stamped now).id = r.id := hid
    exact ⟨k, p, blockHash, hid ▸ hk, haction, hmem⟩
  obtain ⟨-, -, hfits⟩ := hs.journal p hp
  generalize haction : p.action = action at ha hfits
  generalize p.amount = amount at hfits
  cases ha with
  | fund _ _ =>
      exact ⟨fun h => absurd (show 4 ≤ 3 from h) (by decide), hc.merged, hc.drained, hc.told⟩
  | consolidate =>
      refine ⟨hc.emptied, fun k hk => ?_, hc.drained, hc.told⟩
      have hk : k < r.consolidated + 1 := hk
      rcases Nat.lt_or_ge k r.consolidated with hlt | hge
      · exact hc.merged k hlt
      · obtain rfl : k = r.consolidated := by omega
        generalize r.stage = stage at hfits
        cases hfits with
        | @consolidate position _ hget => exact ⟨position, hget, .inl (hreceipt haction)⟩
  | returnDust => exact ⟨hc.emptied, hc.merged, fun _ => .inl (hreceipt haction), hc.told⟩
  | sweep _ => exact ⟨hc.emptied, hc.merged, hc.drained, hc.told⟩
  | buyStake _ _ => exact ⟨hc.emptied, hc.merged, hc.drained, hc.told⟩
  | destroy _ _ _ => exact ⟨hc.emptied, hc.merged, hc.drained, hc.told⟩

/-- A write has its reasons in the trace it is made after. -/
theorem Behind.written (hb : Behind v r) (hs : r.Sound)
    (hw : e.Writes (historyOf v.trace i) r new) (he : v.entries[i]? = some e)
    (hreads : ∀ E, e = .tick E → E.Reads (historyOf v.trace i) r new)
    (hissued : ∀ p, r.pending = some p → ∃ k, Issued v.trace k r.id p) :
    Behind v (new.stamped now) := by
  have hprogress := PaymentRecord.Progress.writes hs hw
  have hfixed : r.Fixed (new.stamped now) :=
    (PaymentRecord.Fixed.writes hs hw).trans ⟨rfl, fun h => h, fun _ => rfl⟩
  have hc := hb.carried (hprogress.trans (.stamped _ now)) hfixed
  cases PaymentRecord.advance hs hw with
  | kept hrank hcons hdust hnotified =>
      exact ⟨fun h => hc.emptied (hrank h), fun k hk => hc.merged k (hcons ▸ hk),
        fun h => hc.drained (hdust ▸ h), fun h => hc.told (hnotified ▸ h)⟩
  | @decided E heq hpending hrank hcons hnotified =>
      subst heq
      exact hc.decided hfixed hprogress.positions he (hreads E rfl) hpending hrank hcons hnotified
  | @applied p blockHash s hp ha => exact hc.applied hs hw.keys.1 hp (hissued p hp) ha

end

theorem behind_created {v : View set} {e : Entry} {r : PaymentRecord} (hc : e.Creates r) :
    Behind v r := by
  cases hc with
  | payment _ =>
      exact ⟨fun h => absurd (show 4 ≤ 0 from h) (by decide),
        fun k hk => absurd hk (Nat.not_lt_zero k), nofun, nofun⟩
  | sweep _ =>
      exact ⟨fun h => absurd (show 4 ≤ 2 from h) (by decide),
        fun k hk => absurd hk (Nat.not_lt_zero k), nofun, nofun⟩

/-- Every stored record has its reasons in the trace. -/
theorem Informed.behind {v : View set} (h : Informed set v) :
    ∀ j r, v.state.store.get j = some r → Behind v r := by
  refine Informed.rule (P := fun v => ∀ j r, v.state.store.get j = some r → Behind v r)
    ?_ ?_ ?_ ?_ h
  · intro w hw j r hget
    rw [hw.1] at hget
    cases hget
  · intro v e _ ih j r hget
    refine (ih j r hget).later (fun i e' he => ?_) (fun _ => List.suffix_rfl) fun _ _ _ h => h
    exact (List.getElem?_append_left (List.getElem?_eq_some_iff.mp he).1).trans he
  · intro v i e ev w' hv ih he hg heffect j r hget
    have hruns : Runs set v := Informed.runs hv
    have hlater {r : PaymentRecord} (hb : Behind v r) :
        Behind (⟨w', v.entries, (i, ev) :: v.trace⟩ : View set) r :=
      hb.later (fun _ _ he => he) (fun _ => historyOf_suffix) fun _ _ _ h => h.cons
    rcases heffect.origin hget with hold | ⟨hc, -⟩ |
      ⟨old, new, now, hold, hid, hs, -, hw, rfl, rfl⟩
    · exact hlater (ih j r hold)
    · exact behind_created hc
    · refine hlater ((ih j old hold).written hs hw he (fun E heq => ?_) fun p hp => ?_)
      · subst heq
        exact heffect.reads hruns.known hg (hid ▸ hold)
      · rw [hruns.known.fenced.keyed.id_eq hold]
        exact hruns.traced.pending j old p hold hp
  · exact fun v b free _ ih j r hget => (ih j r hget).later (fun _ _ he => he)
      (fun _ => List.suffix_rfl) fun _ _ _ h => h

/-- What a run has to show for a settled record. -/
structure Emptied (c : Resumption.Config (processes set)) (r : PaymentRecord) : Prop where
  /-- The wallet was seen with no position worth sweeping that is not swept. -/
  swept : Look c.view r fun E h => E.Emptied h r
  /-- Each swept position was moved to the treasury hotkey, or seen to be there, or gone. -/
  merged : ∀ j, r.identity = some j → j.consolidate = true → ∀ position ∈ r.sweptPositions,
    Receipted c.view r (.consolidate position.1) ∨ Look c.view r fun E h => E.Merged h r position
  /-- The TAO of the wallet was returned, or it was seen to have none. -/
  drained : ∀ j, r.identity = some j → j.returnDust = true ∨ 0 < r.detectedTao →
    Receipted c.view r .returnDust ∨ Look c.view r fun E h => E.Drained h r

/-- A settled record has left nothing behind. -/
theorem settled_emptied {c : Resumption.Config (processes set)}
    (h : Resumption.Reachable (processes set) c) {j : String} {r : PaymentRecord}
    (hget : c.state.store.get j = some r) (hstate : r.state = .settled) : Emptied c r := by
  have hv := informed_view h
  have hb := Informed.behind hv j r hget
  have hs := (Informed.runs hv).known.sound j r hget
  have hfinished := hs.settled hstate
  constructor
  case swept =>
    refine hb.emptied ?_
    rw [PaymentRecord.stage_of_state hstate (by decide)]
    decide
  case merged =>
    intro i hi hcons position hmem
    obtain ⟨k, hk, hposition⟩ := List.mem_iff_getElem.mp hmem
    obtain ⟨position', hget', hreason⟩ := hb.merged k (hfinished.consolidated i hi hcons ▸ hk)
    rw [List.getElem?_eq_getElem hk, hposition] at hget'
    cases hget'
    exact hreason
  case drained => exact fun i hi hdust => hb.drained (hfinished.dust i hi hdust)

/-! ## Webhooks -/

/-- What a run promises about webhooks. -/
structure Notifies (c : Resumption.Config (processes set)) : Prop where
  /-- What is posted is the report of a settled job, to the URL it was created with. -/
  posted : ∀ i url status a, (i, ⟨.host (.post url status), a⟩) ∈ c.trace →
    ∃ r, c.state.store.get status.id = some r ∧ r.state = .settled ∧
      r.callbackUrl = some url ∧ { status with lastError := none } = r.report ∧
      ∃ k r₀, (k, ⟨.store (.insert r₀), .ok ()⟩) ∈ c.trace ∧ r₀.id = status.id ∧
        r₀.callbackUrl = some url
  /-- A job that counts as notified is settled, and its webhook took the report it still
  has, unless it has none. -/
  told : ∀ j r, c.state.store.get j = some r → r.notified = true →
    r.state = .settled ∧ Look c.view r fun E h => E.Told r h

/-- Webhooks report settled jobs only, and what they report is final. -/
theorem webhooks_final {c : Resumption.Config (processes set)}
    (h : Resumption.Reachable (processes set) c) : Notifies c := by
  have hv := informed_view h
  constructor
  case posted =>
    intro i url status a hmem
    obtain ⟨e, he⟩ := hv.entry hmem
    obtain ⟨later, past, heq⟩ := List.append_of_mem (mem_historyOf.mpr hmem)
    obtain ⟨⟨-, hg⟩, -⟩ := hv.made he ⟨later, heq.symm⟩
    cases hg with
    | free h => exact h.elim
    | @post E h r url hs hidentity hstate hurl _ =>
        have hs := hs.mono ((List.suffix_cons _ _).trans ⟨later, heq.symm⟩)
        obtain ⟨cur, hcur, hfixed⟩ := (Informed.runs hv).fixed hs
        obtain ⟨k, r₀, hinsert, hterms⟩ := (Informed.runs hv).termed r.id cur hcur
        have hterms := hterms.trans hfixed.terms
        refine ⟨cur, hcur, hfixed.settled hstate, ?_, (hfixed.report hstate).symm, k, r₀,
          hinsert, congrArg (·.request.id) hterms, (congrArg Terms.callbackUrl hterms).trans hurl⟩
        exact (congrArg Terms.callbackUrl hfixed.terms).trans hurl
  case told => exact fun j r hget => (Informed.behind hv j r hget).told

end

/-! ## A payment that is collected -/

/-- An engine that consolidates, returns dust and notifies. -/
def collector : Engine :=
  let E := sampleEngine none
  { E with cfg := { E.cfg with consolidate := true, returnDust := true }, webhook := true }

/-- A tick of the collector as the process `i`, up to its `n`-th request. -/
def collectTick (i n : ℕ) : List (Move (player calm)) := start (.tick collector) :: serves i n

/-- The process `i` is shown the position of the wallet. -/
def lookStake (i : ℕ) : Move (player calm) := serve i (.stake 10000000000 samplePositions)

/-- The events of the sweep. -/
def collectedMoved : Events :=
  [.ok ⟨pallet, "StakeTransferred",
    [.account 3, .account 2, .account 7, .u16 1, .u16 1, .u64 0], ""⟩]

/-- A payment is created, seen, funded, swept, settled and notified. -/
def collected : List (Move (player calm)) :=
  start (.createPayment collector { callbackUrl := some "hook" }) :: serves 0 6 ++
    collectTick 1 2 ++ lookStake 1 :: serves 1 1 ++
    collectTick 2 2 ++ lookStake 2 :: serves 2 8 ++
    finalize [("0x", samplePaid)] (some (2, 9000000)) :: serves 2 2 ++
    collectTick 3 2 ++ lookStake 3 :: serves 3 5 ++
    finalize [("0x'", collectedMoved)] none :: serves 3 2 ++
    collectTick 4 5 ++ collectTick 5 8

theorem collected_settled : (playSample collected).any (fun c =>
    (c.state.store.get "job").any fun r => r.state == .settled && r.notified &&
      r.sweptPositions == [("xxxxxxx", 10000000000)]) = true := by
  decide +kernel

theorem collected_emptied : ∃ (c : Resumption.Config (processes calm)) (r : PaymentRecord),
    c.state.store.get "job" = some r ∧ r.state = .settled ∧
      r.sweptPositions = [("xxxxxxx", 10000000000)] ∧ Emptied c r := by
  obtain ⟨c, hc, htest⟩ := playSample_any collected_settled
  simp only [Option.any_eq_true, Bool.and_eq_true, beq_iff_eq] at htest
  obtain ⟨r, hget, ⟨hstate, -⟩, hswept⟩ := htest
  exact ⟨c, r, hget, hstate, hswept, settled_emptied hc hget hstate⟩

theorem collected_notifies : ∃ c : Resumption.Config (processes calm),
    (∃ r, c.state.store.get "job" = some r ∧ r.notified = true) ∧ Notifies c := by
  obtain ⟨c, hc, htest⟩ := playSample_any collected_settled
  simp only [Option.any_eq_true, Bool.and_eq_true, beq_iff_eq] at htest
  obtain ⟨r, hget, ⟨-, hnotified⟩, -⟩ := htest
  exact ⟨c, ⟨r, hget, hnotified⟩, webhooks_final hc⟩

end Buyback
