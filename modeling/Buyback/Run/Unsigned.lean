import Buyback.Process.Evidence
import Buyback.Record.Once
import Buyback.Run.Known
import Buyback.System.Filed

/-!
# Engines on a directory never sign

A directory has no reservations of signers, so what an engine may do on one is to look: no
extrinsic is signed or sent and no job is created, by any engine, in any run.  A journal that
was in a file before can still be resolved, but none is added.
-/

namespace Buyback

open Resumption

section

variable [Ss58] {set : Setting} {f₀ : FileStore}

/-- The processes meet their guarantees on a directory as well. -/
theorem FiledWorld.Serves.relies {w w' : FiledWorld} {o : Op} {a : o.Ans}
    (hs : Serves set w o a w') : Relies o a := by
  cases hs with
  | store _ _ => trivial
  | unsupported _ => trivial
  | host => trivial
  | hearsay _ hrelies => exact hrelies
  | chain hc =>
      cases hc with
      | prepare hsigns => exact hsigns.call_eq
      | submit => trivial
      | read ha => exact ha.relies

theorem filing_meet : Meets (filing set f₀) Relies (fun e h o => e.Allows h o ∧ e.Grounds h o)
    fun _ h _ => Idle h ∧ True :=
  Meets.and ⟨Entry.body_obeys, fun _ _ _ _ hs => hs.relies⟩
    ⟨Entry.body_grounded, fun _ _ _ _ hs => hs.relies⟩

/-- A point of a run on a directory. -/
abbrev FiledView (set : Setting) (f₀ : FileStore) : Type := Guarded.View (filing set f₀)

/-- The points the runs reach. -/
abbrev FiledRuns (set : Setting) (f₀ : FileStore) : FiledView set f₀ → Prop :=
  Guarded.Reachable (filing set f₀) Relies fun e h o => e.Allows h o ∧ e.Grounds h o

/-! ## What is refused -/

/-- A request for a signer, or for the right to sign, that was granted. -/
inductive Granted : Event rpc → Prop where
  | signing : Granted ⟨.store .requireSigning, .ok ()⟩
  | signer {account : String} {r : PaymentRecord} {token : String} :
      Granted ⟨.store (.reserveSignerForRecord account r), .ok token⟩

/-- Nothing is ever granted. -/
theorem FiledWorld.Serves.refused {w w' : FiledWorld} {o : Op} {a : o.Ans}
    (hs : Serves set w o a w') : ¬ Granted ⟨o, a⟩ := by
  intro hg
  generalize hev : (⟨o, a⟩ : Event rpc) = ev at hg
  cases hg with
  | signing =>
      cases hev
      cases hs with
      | store hf _ => cases hf
  | signer =>
      cases hev
      cases hs with
      | store hf _ => cases hf

theorem FiledRuns.refused {v : FiledView set f₀} (h : FiledRuns set f₀ v) :
    ∀ i ev, (i, ev) ∈ v.trace → ¬ Granted ev := by
  induction h with
  | init _ => exact fun i ev hmem => absurd hmem List.not_mem_nil
  | step _ hs ih =>
      cases hs with
      | spawn e => exact ih
      | exec _ _ _ hserve =>
          intro i ev hmem
          rcases List.mem_cons.mp hmem with heq | hmem
          · cases heq
            exact hserve.refused
          · exact ih i ev hmem
      | env _ => exact ih

/-- The requests that are never made where nothing is granted. -/
inductive Signs : Op → Prop where
  | prepare {call : ChainCall} {signer : Keypair} : Signs (.chain (.prepare call signer))
  | submit {tx : PreparedTx} : Signs (.chain (.submitAndWatch tx))
  | insert {r : PaymentRecord} : Signs (.store (.insert r))

/-- What signs has been granted before. -/
theorem Signs.granted {e : Entry} {h : History rpc} {o : Op} (hs : Signs o)
    (ha : e.Allows h o) (hg : e.Grounds h o) : ∃ ev ∈ h, Granted ev := by
  cases hs with
  | prepare =>
      cases ha with
      | plain _ hplain => cases hplain
      | prepare _ => exact ⟨_, .head _, .signer⟩
  | submit =>
      cases ha with
      | plain _ hplain => cases hplain
      | submit => exact ⟨_, .tail _ (.tail _ (.head _)), .signer⟩
  | insert =>
      cases hg with
      | free hfree => exact hfree.elim
      | insert hseals => exact ⟨_, hseals.signing, .signing⟩

theorem FiledRuns.unsigned {v : FiledView set f₀} (h : FiledRuns set f₀ v) {i : ℕ} {e : Entry}
    {o : Op} (ha : e.Allows (historyOf v.trace i) o) (hg : e.Grounds (historyOf v.trace i) o) :
    ¬ Signs o := by
  intro hs
  obtain ⟨ev, hmem, hgranted⟩ := hs.granted ha hg
  exact FiledRuns.refused h i ev (mem_historyOf.mp hmem) hgranted

/-! ## What is stored -/

/-- The journal of a record, if it has one, was in the file of its id at the start. -/
def Inherits (f₀ : FileStore) (r : PaymentRecord) : Prop :=
  ∃ r₀, f₀.read r.id = some r₀ ∧ ∀ p, r.pending = some p → r₀.pending = some p

omit [Ss58] in
theorem PaymentRecord.recordFailure_pending {r : PaymentRecord} {text : String}
    {maxAttempts : UInt32} {now : UInt64} :
    (r.recordFailure text maxAttempts now).pending = r.pending := by
  obtain ⟨lastError, nextAttemptAt, ⟨-, heq⟩ | ⟨-, heq⟩⟩ :=
    r.recordFailure_cases text maxAttempts now
  · rw [heq]
  · rw [heq]

/-- A write without a grant adds no journal. -/
theorem Entry.Writes.pending {e : Entry} {h : History rpc} {r new : PaymentRecord}
    (hw : e.Writes h r new) (hno : ∀ ev ∈ h, ¬ Granted ev) :
    new.pending = none ∨ new.pending = r.pending := by
  cases hw with
  | tick _ hw =>
      cases hw with
      | applied hp _ _ _ happly => exact .inl (PaymentRecord.apply_ok happly hp).txs.1
      | failedOnChain _ _ _ => exact .inl PaymentRecord.recordFailure_pending
      | quarantined _ _ _ _ => exact .inl PaymentRecord.recordFailure_pending
      | attempted _ _ _ _ => exact .inr PaymentRecord.recordFailure_pending
      | dead _ _ => exact .inl rfl
      | _ => exact .inr rfl
  | journal _ _ _ _ => exact absurd .signer (hno _ (.tail _ (.head _)))
  | retry _ _ _ _ _ => exact .inr rfl
  | forceSweep _ _ _ _ => exact .inr rfl

theorem Inherits.writes {e : Entry} {h : History rpc} {r new : PaymentRecord}
    (hr : Inherits f₀ r) (hw : e.Writes h r new) (hno : ∀ ev ∈ h, ¬ Granted ev) :
    Inherits f₀ new := by
  obtain ⟨r₀, hr₀, hsame⟩ := hr
  refine ⟨r₀, by rw [hw.keys.1, hr₀], fun p hp => ?_⟩
  rcases hw.pending hno with hnone | heq
  · rw [hnone] at hp
    cases hp
  · exact hsame p (heq ▸ hp)

/-- Each file is of the record it is named after, which inherits its journal. -/
def Heirs (f₀ f : FileStore) : Prop :=
  ∀ id r, f.read id = some r → r.id = id ∧ Inherits f₀ r

omit [Ss58] in
theorem Heirs.write {f : FileStore} {id : String} {r : PaymentRecord} (h : Heirs f₀ f)
    (hid : r.id = id) (hr : Inherits f₀ r) : Heirs f₀ (f.write id r) := by
  intro id' r' hr'
  by_cases heq : id' = id
  · subst heq
    rw [FileStore.read_write_self] at hr'
    cases hr'
    exact ⟨hid, hr⟩
  · rw [FileStore.read_write_ne heq] at hr'
    exact h id' r' hr'

/-- An operation, of which an update writes a record that inherits. -/
theorem Heirs.perform {f f' : FileStore} {now : UInt64} {o : SharedOp} {a : o.Ret}
    (h : Heirs f₀ f) (hp : f.perform now o = (.ok a, f')) (hno : ∀ r, o ≠ .insert r)
    (hu : ∀ r, o = .update r → Inherits f₀ r) : Heirs f₀ f' := by
  have hok := congrArg Prod.fst hp
  have hf : (f.perform now o).2 = f' := congrArg Prod.snd hp
  cases o with
  | insert r => exact absurd rfl (hno r)
  | get id => exact hf ▸ h
  | list states => exact hf ▸ h
  | update r =>
      obtain ⟨-, -, -, heq⟩ := FileStore.update_iff.mp (orKeep_ok hok)
      rw [← hf, show (f.perform now (.update r)).2 = _ from heq]
      exact h.write rfl (hu r rfl)
  | migrateLegacyPolicy id version budget =>
      obtain ⟨-, ⟨old, hold, hpolicy⟩, heq⟩ := FileStore.migrateLegacyPolicy_iff.mp (orKeep_ok hok)
      obtain ⟨hid, r₀, hr₀, -⟩ := h id old hold
      obtain ⟨-, hpending, -, -, rfl⟩ := SqliteStore.migratedPolicy_ok hpolicy
      rw [← hf, show (f.perform now (.migrateLegacyPolicy id version budget)).2 = _ from heq]
      refine h.write hid ⟨r₀, hr₀, fun p hnew => ?_⟩
      rw [show _ = old.pending from rfl, hpending] at hnew
      cases hnew

/-- What holds of every record that is stored, may come back, or was seen. -/
structure Inherited (f₀ : FileStore) (v : FiledView set f₀) : Prop where
  stored : ∀ f ∈ v.state.store.stores, Heirs f₀ f
  seen : ∀ i ev r, (i, ev) ∈ v.trace → Shows ev r → Inherits f₀ r

/-- A step of the files, of which an update writes a record that inherits. -/
theorem Heirs.step {s s' : Recent} {ev : DirectoryEvent} (h : ∀ f ∈ s.stores, Heirs f₀ f)
    (hs : s.Step ev s') (hno : ∀ now r x, ev ≠ .returned now (.insert r) x)
    (hstop : ∀ now o, ev ≠ .stopped now o)
    (hu : ∀ now r x, ev = .returned now (.update r) x → Inherits f₀ r) :
    ∀ f ∈ s'.stores, Heirs f₀ f := by
  have hone {f : FileStore} (hf : Heirs f₀ f) : ∀ g ∈ Recent.stores ⟨f, []⟩, Heirs f₀ g :=
    fun g hg => List.mem_singleton.mp hg ▸ hf
  have hperform {now : UInt64} {o : SharedOp} {x : Result o.Ret} {a : o.Ret} {f : FileStore}
      (hev : ev = .returned now o x) (hp : s.live.perform now o = (.ok a, f)) : Heirs f₀ f := by
    refine (h _ (.head _)).perform hp ?_ ?_
    · rintro r rfl
      exact hno now r x hev
    · rintro r rfl
      exact hu now r x hev
  cases hs with
  | got _ => exact h
  | listed _ _ => exact h
  | written _ hp => exact hone (hperform rfl hp)
  | failed => exact h
  | failedLate hp =>
      intro f hf
      rcases List.mem_cons.mp hf with rfl | hf
      · exact hperform rfl hp
      · exact h f hf
  | stopped => exact absurd rfl (hstop _ _)
  | stoppedLate _ => exact absurd rfl (hstop _ _)
  | lost hf => exact hone (h _ hf)

/-- What an answer shows inherits, and so do the files after it. -/
theorem Heirs.served {s s' : Recent} {o : StoreOp} {a : Result o.Ret} {o' : SharedOp}
    {a' : Result o'.Ret} {now : UInt64} (h : ∀ f ∈ s.stores, Heirs f₀ f)
    (hfiled : StoreOp.Filed o a o' a') (hs : s.Step (.returned now o' a') s')
    (hno : ∀ r, o ≠ .insert r) (hu : ∀ r, o = .update r → Inherits f₀ r) :
    (∀ f ∈ s'.stores, Heirs f₀ f) ∧ ∀ r, Shows ⟨.store o, a⟩ r → Inherits f₀ r := by
  constructor
  · refine Heirs.step h hs ?_ (fun _ _ => nofun) ?_
    · rintro now' r x ⟨⟩
      cases hfiled
      exact hno r rfl
    · rintro now' r x ⟨⟩
      cases hfiled
      exact hu r rfl
  · intro r hshow
    generalize hev : (⟨.store o, a⟩ : Event rpc) = ev at hshow
    cases hshow with
    | @get id r =>
        cases hev
        cases hfiled
        cases hs with
        | got hget =>
            obtain ⟨-, hread⟩ := FileStore.get_iff.mp hget
            exact (h _ (.head _) id r hread.symm).2
        | written ho _ => exact ho.elim
    | @list states rs r hmem =>
        cases hev
        cases hfiled
        cases hs with
        | listed hperm _ =>
            have hlist : r ∈ s.live.list states := hperm.subset hmem
            obtain ⟨⟨id, r'⟩, hentry, rfl⟩ := List.mem_map.mp
              (List.mem_of_mem_filter ((List.mem_insertionSort _).mp hlist))
            exact (h _ (.head _) id r' (AList.mem_lookup_iff.mpr hentry)).2
        | written ho _ => exact ho.elim
    | @update r t =>
        cases hev
        exact hu r rfl

theorem FiledRuns.inherited (hkeyed : ∀ id r, f₀.read id = some r → r.id = id)
    {v : FiledView set f₀} (h : FiledRuns set f₀ v) : Inherited f₀ v := by
  induction h with
  | init hi =>
      refine ⟨fun f hf id r hr => ?_, fun i ev r hmem => absurd hmem List.not_mem_nil⟩
      rw [hi.1] at hf
      cases List.mem_singleton.mp hf
      have hid := hkeyed id r hr
      exact ⟨hid, r, hid.symm ▸ hr, fun _ hp => hp⟩
  | @step v v' hr hs ih =>
      cases hs with
      | spawn e => exact ⟨ih.stored, ih.seen⟩
      | @exec i e o a s' he hg _ hserve =>
          have hno : ¬ Signs o := FiledRuns.unsigned hr hg.1 hg.2
          have hquiet {st : FiledWorld} (hstore : st.store = v.state.store)
              (hshow : ∀ r, ¬ Shows ⟨o, a⟩ r) :
              Inherited f₀ (⟨st, v.entries, (i, ⟨o, a⟩) :: v.trace⟩ : FiledView set f₀) := by
            refine ⟨fun f hf => ih.stored f (hstore ▸ hf), fun j ev r hmem hr => ?_⟩
            rcases List.mem_cons.mp hmem with heq | hmem
            · cases heq
              exact absurd hr (hshow r)
            · exact ih.seen j ev r hmem hr
          cases hserve with
          | @store o a o' a' now s hfiled hstep =>
              have hu (r : PaymentRecord) (ho : o = .update r) : Inherits f₀ r := by
                subst ho
                obtain ⟨old, hseen, hw⟩ := hg.1.update_inv
                obtain ⟨ev, hev, hshow⟩ := hseen
                refine (ih.seen i ev old (mem_historyOf.mp hev) hshow).writes hw fun ev hev => ?_
                exact FiledRuns.refused hr i ev (mem_historyOf.mp hev)
              obtain ⟨hstores, hshows⟩ := Heirs.served ih.stored hfiled hstep
                (fun r ho => hno (ho ▸ .insert)) hu
              refine ⟨hstores, fun j ev r hmem hshow => ?_⟩
              rcases List.mem_cons.mp hmem with heq | hmem
              · cases heq
                exact hshows r hshow
              · exact ih.seen j ev r hmem hshow
          | unsupported _ => exact hquiet rfl fun r hr => by cases hr
          | chain _ => exact hquiet rfl fun r hr => by cases hr
          | hearsay _ _ => exact hquiet rfl fun r hr => by cases hr
          | host => exact hquiet rfl fun r hr => by cases hr
      | env hchange =>
          cases hchange with
          | block _ => exact ⟨ih.stored, ih.seen⟩
          | lost hstep =>
              exact ⟨Heirs.step ih.stored hstep (fun _ _ _ => nofun) (fun _ _ => nofun)
                fun _ _ _ => nofun, ih.seen⟩

/-- Where no request signs, the chain is given nothing. -/
theorem FiledWorld.Serves.quiet {w w' : FiledWorld} {o : Op} {a : o.Ans}
    (hs : Serves set w o a w') (hno : ¬ Signs o) :
    w'.chain.signed = w.chain.signed ∧ w'.chain.submitted = w.chain.submitted := by
  cases hs with
  | chain hc =>
      cases hc with
      | read _ => exact ⟨rfl, rfl⟩
      | prepare _ => exact absurd .prepare hno
      | submit => exact absurd .submit hno
  | _ => exact ⟨rfl, rfl⟩

theorem FiledRuns.quiet {v : FiledView set f₀} (h : FiledRuns set f₀ v) :
    v.state.chain.signed = [] ∧ v.state.chain.submitted = [] := by
  induction h with
  | init hi => exact hi.2
  | step hr hs ih =>
      cases hs with
      | spawn e => exact ih
      | exec _ hg _ hserve =>
          obtain ⟨hsigned, hsubmitted⟩ := hserve.quiet (FiledRuns.unsigned hr hg.1 hg.2)
          exact ⟨hsigned.trans ih.1, hsubmitted.trans ih.2⟩
      | env hchange =>
          cases hchange with
          | block _ => exact ih
          | lost _ => exact ih

/-! ## What a run on a directory does -/

/-- Nothing is signed, sent or created, and no journal is added. -/
structure NeverSigns (f₀ : FileStore) (c : Resumption.Config (filing set f₀)) : Prop where
  requests : ∀ i ev, (i, ev) ∈ c.trace → ¬ Signs ev.1
  signed : c.state.chain.signed = []
  submitted : c.state.chain.submitted = []
  stored : ∀ id r, c.state.store.live.read id = some r →
    ∃ r₀, f₀.read id = some r₀ ∧ ∀ p, r.pending = some p → r₀.pending = some p

/-- Engines on a directory never sign. -/
theorem directory_never_signs (hkeyed : ∀ id r, f₀.read id = some r → r.id = id)
    {c : Resumption.Config (filing set f₀)} (h : Resumption.Reachable (filing set f₀) c) :
    NeverSigns f₀ c := by
  have hv : FiledRuns set f₀ c.view := h.guarded filing_meet
  constructor
  case requests =>
    intro i ev hmem hsigns
    obtain ⟨e, he⟩ := hv.entry hmem
    obtain ⟨later, past, heq⟩ := List.append_of_mem (mem_historyOf.mpr hmem)
    have hsuffix : ev :: past <:+ historyOf c.trace i := ⟨later, heq.symm⟩
    obtain ⟨⟨ha, hg⟩, -⟩ := hv.made he hsuffix
    obtain ⟨ev', hev', hgranted⟩ := hsigns.granted ha hg
    have hpast := hsuffix.subset (.tail _ hev')
    exact FiledRuns.refused hv i ev' (mem_historyOf.mp hpast) hgranted
  case signed => exact (FiledRuns.quiet hv).1
  case submitted => exact (FiledRuns.quiet hv).2
  case stored =>
    intro id r hr
    obtain ⟨rfl, hinherits⟩ := (FiledRuns.inherited hkeyed hv).stored _ (.head _) id r hr
    exact hinherits

end

/-- A directory with one journaled record. -/
def oneFile : FileStore :=
  FileStore.empty.write "a"
    { plainRecord "a" 0 1 with pending := some ⟨.fund, none, "xx", 0, "0x", 0, 1500⟩ }

theorem oneFile_keyed : ∀ id r, oneFile.read id = some r → r.id = id := by
  intro id r hr
  by_cases hid : id = "a"
  · subst hid
    cases FileStore.read_write_self.symm.trans hr
    rfl
  · cases (FileStore.read_write_ne hid).symm.trans hr

/-- A job is asked for on a directory, and refused. -/
theorem oneFile_never_signs : ∃ c : Resumption.Config (filing calm oneFile),
    (∃ e, (0, ⟨.store .requireSigning, .error e⟩) ∈ c.trace) ∧ NeverSigns oneFile c := by
  have hstart : Resumption.Reachable (filing calm oneFile)
      ⟨⟨⟨oneFile, []⟩, sampleWorld.chain⟩, [], []⟩ := .init ⟨rfl, rfl, rfl⟩
  have hspawn := hstart.step (.spawn _ (Entry.createPayment (sampleEngine none) { }))
  have hrefused := hspawn.step (.exec (i := 0) rfl (.unsupported rfl))
  exact ⟨_, ⟨_, .head _⟩, directory_never_signs oneFile_keyed hrefused⟩

end Buyback
