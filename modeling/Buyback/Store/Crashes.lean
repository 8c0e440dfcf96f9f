import Buyback.Store.Alike
import Buyback.Store.Directory
import Buyback.Store.Versions

/-!
# The file store under crashes

The runs of a directory on which requests fail, processes are stopped and the power is lost,
beside the runs of a store that writes in one step.  `directory_refines` follows the one by
the other, event for event.  `acknowledged_kept` says what is left of a write after it has
returned.

A process that is stopped may have been at any point of its operation, so a reader that comes
after it sees what a reader beside it would.
-/

namespace Buyback

open Resumption Durable Resumption.Program

/-! ## Runs -/

/-- What is seen of a directory. -/
inductive DirectoryEvent where
  /-- An operation has returned. -/
  | returned (now : UInt64) (o : SharedOp) (x : Result o.Ret)
  /-- The process was stopped in an operation. -/
  | stopped (now : UInt64) (o : SharedOp)
  /-- The power was lost. -/
  | lost

/-- What the operation is to write in the directory, JSON gives back. -/
def SharedOp.Writable [RecordJson] [Ss58] (v : Volume String UInt8) (now : UInt64) :
    SharedOp → Prop
  | .insert rec => RecordJson.Writable rec
  | .update rec => RecordJson.Writable (rec.stamped now)
  | .migrateLegacyPolicy id version budget => ∀ bytes old next,
      v.read (id ++ ".json") = some bytes → RecordJson.decode bytes = .ok old →
      migratedPolicy old version budget now = .ok next → RecordJson.Writable next
  | _ => True

/-- A step of a directory. -/
inductive Directory.Step [RecordJson] [Ss58] (v : Volume String UInt8) :
    DirectoryEvent → Volume String UInt8 → Prop where
  | returned {now : UInt64} {o : SharedOp} {x : Result o.Ret} {v' : Volume String UInt8} :
      o.Writable v now →
      Executes Handles (body now o) v (some x) v' →
      Step v (.returned now o x) v'
  | stopped {now : UInt64} {o : SharedOp} {v' : Volume String UInt8} :
      o.Writable v now →
      Executes Handles (body now o) v none v' →
      Step v (.stopped now o) v'
  | lost {v' : Volume String UInt8} : v.Loses v' → Step v .lost v'

/-- An operation that writes a file. -/
def SharedOp.Writes : SharedOp → Prop
  | .get _ | .list _ => False
  | _ => True

namespace Recent

variable [Ss58]

/-- A step of a store that writes in one step. -/
inductive Step (s : Recent) : DirectoryEvent → Recent → Prop where
  | got {now : UInt64} {id : String} {o : Option PaymentRecord} :
      s.live.get id = .ok o →
      Step s (.returned now (.get id) (.ok o)) s
  | listed {now : UInt64} {states : List PaymentState} {rs : List PaymentRecord} :
      rs.Perm (s.live.list states) →
      ByCreation rs →
      Step s (.returned now (.list states) (.ok rs)) s
  /-- Nothing older comes back once an operation that writes has returned. -/
  | written {now : UInt64} {o : SharedOp} {a : o.Ret} {f : FileStore} :
      o.Writes →
      s.live.perform now o = (.ok a, f) →
      Step s (.returned now o (.ok a)) ⟨f, []⟩
  | failed {now : UInt64} {o : SharedOp} {e : Error} : Step s (.returned now o (.error e)) s
  /-- An operation that fails may have been carried out. -/
  | failedLate {now : UInt64} {o : SharedOp} {e : Error} {a : o.Ret} {f : FileStore} :
      s.live.perform now o = (.ok a, f) →
      Step s (.returned now o (.error e)) (s.push f)
  | stopped {now : UInt64} {o : SharedOp} : Step s (.stopped now o) s
  | stoppedLate {now : UInt64} {o : SharedOp} {a : o.Ret} {f : FileStore} :
      s.live.perform now o = (.ok a, f) →
      Step s (.stopped now o) (s.push f)
  | lost {f : FileStore} : f ∈ s.stores → Step s .lost ⟨f, []⟩

end Recent

section

variable [RecordJson] [Ss58] {v v' : Volume String UInt8} {s : Recent}

/-- An operation on a directory, as far as it came, and the same one on the store. -/
structure Directory.Follows (s : Recent) (now : UInt64) (o : SharedOp)
    (out : Option (Result o.Ret)) (v' : Volume String UInt8) : Prop where
  succeeds : ∀ a, out = some (.ok a) → ∃ s', s.Step (.returned now o (.ok a)) s' ∧ OnDisk v' s'
  underway : OnDisk v' s ∨ ∃ a f, s.live.perform now o = (.ok a, f) ∧ OnDisk v' (s.push f)

namespace Directory

variable {now : UInt64} {o : SharedOp} {out : Option (Result o.Ret)}

/-- An operation that writes. -/
theorem Follows.write {x : Result (o.Ret × FileStore)} (ho : o.Writes)
    (hx : s.live.perform now o = orKeep s.live x)
    (h : Halfway s x v' ∧ ∀ a, out = some (.ok a) → Written x a v') : Follows s now o out v' where
  succeeds a ha := by
    obtain ⟨f, rfl, hf⟩ := h.2 a ha
    exact ⟨_, .written ho hx, hf⟩
  underway := by
    refine h.1.imp (fun h' => h') ?_
    rintro ⟨a, f, rfl, hf⟩
    exact ⟨a, f, hx, hf⟩

theorem body_follows (h : OnDisk v s) (hw : o.Writable v now)
    (he : Executes Handles (body now o) v out v') : Follows s now o out v' := by
  cases o with
  | insert r => exact .write trivial rfl ((insert_wp h hw).sound he)
  | update r => exact .write trivial rfl ((update_wp h hw).sound he)
  | migrateLegacyPolicy id version budget =>
      refine .write trivial rfl ((migrateLegacyPolicy_wp h fun old next hold hnext => ?_).sound he)
      obtain ⟨hid, hold'⟩ := h.valid _ (.head _) id old hold
      refine hw (RecordJson.encode old) old next ?_ (RecordJson.decode_encode old hold') hnext
      rw [show id ++ ".json" = FileStore.recordFile id from rfl, h.read_eq hid, hold]
      rfl
  | get id =>
      obtain ⟨hkeep, hget⟩ := (get_wp h).sound he
      exact ⟨fun a ha => ⟨s, .got (hget a ha).2, hkeep⟩, .inl hkeep⟩
  | list states =>
      obtain ⟨hkeep, hlist⟩ := (list_wp h).sound he
      exact ⟨fun a ha => ⟨s, .listed (hlist a ha).2.1 (hlist a ha).2.2, hkeep⟩, .inl hkeep⟩

/-- Each step of a directory is one of the store. -/
theorem Step.follow {ev : DirectoryEvent} (h : Step v ev v') (hs : OnDisk v s) :
    ∃ s', s.Step ev s' ∧ OnDisk v' s' := by
  cases h with
  | @returned now o x v' hw he =>
      have hf := body_follows hs hw he
      cases x with
      | ok a => exact hf.succeeds a rfl
      | error e =>
          rcases hf.underway with hkeep | ⟨a, f, hperform, hpush⟩
          · exact ⟨s, .failed, hkeep⟩
          · exact ⟨_, .failedLate hperform, hpush⟩
  | stopped hw he =>
      rcases (body_follows hs hw he).underway with hkeep | ⟨a, f, hperform, hpush⟩
      · exact ⟨s, .stopped, hkeep⟩
      · exact ⟨_, .stoppedLate hperform, hpush⟩
  | lost hl =>
      obtain ⟨f, hf, hlost⟩ := hs.loses hl
      exact ⟨_, .lost hf, hlost⟩

end Directory

/-- Every run of a directory is one of the store that writes in one step, and the files are
those of that store.  Requests may fail, the process may be stopped anywhere, and the power
may be lost. -/
theorem directory_refines {evs : List DirectoryEvent} (h : Traces Directory.Step .empty evs v) :
    ∃ s, Traces Recent.Step ⟨.empty, []⟩ evs s ∧ OnDisk v s :=
  h.simulates .empty fun _ _ _ _ hstep hs => hstep.follow hs

/-! ## Writes that were acknowledged -/

/-- An event of an operation that writes `r` in place of `old`, whether or not it succeeded. -/
def DirectoryEvent.Puts (id : String) (old r : PaymentRecord) : DirectoryEvent → Prop
  | .returned now o _ => o.target = some id ∧ ∃ a, o.Stores now a (some old) r
  | .stopped now o => o.target = some id ∧ ∃ a, o.Stores now a (some old) r
  | .lost => False

/-- The record `r` has become `r'` through the events: each of them has left the record then
stored alone, or has written over it. -/
inductive Becomes (id : String) (r : PaymentRecord) :
    List DirectoryEvent → PaymentRecord → Prop where
  | same : Becomes id r [] r
  | left {evs : List DirectoryEvent} {ev : DirectoryEvent} {r' : PaymentRecord} :
      Becomes id r evs r' →
      Becomes id r (evs ++ [ev]) r'
  | put {evs : List DirectoryEvent} {ev : DirectoryEvent} {old r' : PaymentRecord} :
      Becomes id r evs old →
      ev.Puts id old r' →
      Becomes id r (evs ++ [ev]) r'

/-- The record that stands in the store after a write returned. -/
def SharedOp.Acknowledges : (o : SharedOp) → o.Ret → String → PaymentRecord → Prop
  | .insert rec, _, id, r => rec.id = id ∧ r = rec
  | .update rec, a, id, r => rec.id = id ∧ r = a
  | .migrateLegacyPolicy id' _ _, a, id, r => id' = id ∧ r = a
  | _, _, _, _ => False

namespace SharedOp.Acknowledges

variable {now : UInt64} {o : SharedOp} {a : o.Ret} {id : String} {r r' : PaymentRecord}

omit [RecordJson] [Ss58] in
theorem target (ho : o.Acknowledges a id r) : o.target = some id := by
  cases o with
  | get id' => cases ho
  | list states => cases ho
  | insert rec => exact congrArg some ho.1
  | update rec => exact congrArg some ho.1
  | migrateLegacyPolicy id' version budget => exact congrArg some ho.1

omit [RecordJson] in
/-- The record an operation acknowledges is the one it stores. -/
theorem stored {old : Option PaymentRecord} (ho : o.Acknowledges a id r)
    (hs : o.Stores now a old r') : r' = r := by
  cases hs with
  | insert => exact ho.2.symm
  | update _ => exact ho.2.symm
  | migrateLegacyPolicy _ => exact ho.2.symm

end SharedOp.Acknowledges

/-- Every store that may come back has one of these records under the id. -/
def Recent.Keeps (s : Recent) (id : String) (among : PaymentRecord → Prop) : Prop :=
  ∀ f ∈ s.stores, ∃ r, f.read id = some r ∧ among r

namespace Recent.Keeps

variable {s s' : Recent} {id : String} {r : PaymentRecord} {evs evs' : List DirectoryEvent}

omit [RecordJson] in
/-- An operation that is carried out leaves the record alone, or writes over it. -/
theorem perform {now : UInt64} {o : SharedOp} {a : o.Ret} {f : FileStore} {ev : DirectoryEvent}
    (h : s.Keeps id (Becomes id r evs)) (hperform : s.live.perform now o = (.ok a, f))
    (hev : ∀ old r', o.target = some id → o.Stores now a (some old) r' → ev.Puts id old r') :
    ∃ r', f.read id = some r' ∧ Becomes id r (evs ++ [ev]) r' := by
  obtain ⟨old, hold, hbecomes⟩ := h _ (.head _)
  have hok := congrArg Prod.fst hperform
  obtain rfl : (s.live.perform now o).2 = f := congrArg Prod.snd hperform
  by_cases ho : o.target = some id
  · obtain ⟨-, r', hstores, hr'⟩ := FileStore.perform_stored hok ho
    rw [hold] at hstores
    exact ⟨r', hr', .put hbecomes (hev old r' ho hstores)⟩
  · exact ⟨old, (FileStore.perform_untouched hok ho).trans hold, .left hbecomes⟩

omit [RecordJson] in
theorem step {ev : DirectoryEvent} (h : s.Keeps id (Becomes id r evs)) (hstep : s.Step ev s') :
    s'.Keeps id (Becomes id r (evs ++ [ev])) := by
  have hleft : s.Keeps id (Becomes id r (evs ++ [ev])) := fun f hf => by
    obtain ⟨r', hr', hbecomes⟩ := h f hf
    exact ⟨r', hr', .left hbecomes⟩
  have hone {f : FileStore} (hf : ∃ r', f.read id = some r' ∧ Becomes id r (evs ++ [ev]) r') :
      Recent.Keeps ⟨f, []⟩ id (Becomes id r (evs ++ [ev])) :=
    fun g hg => List.mem_singleton.mp hg ▸ hf
  have hpush {f : FileStore} (hf : ∃ r', f.read id = some r' ∧ Becomes id r (evs ++ [ev]) r') :
      (s.push f).Keeps id (Becomes id r (evs ++ [ev])) := fun g hg => by
    rcases List.mem_cons.mp hg with rfl | hg
    · exact hf
    · exact hleft g hg
  cases hstep with
  | got => exact hleft
  | listed => exact hleft
  | written _ hperform => exact hone (h.perform hperform fun _ _ ho hs => ⟨ho, _, hs⟩)
  | failed => exact hleft
  | failedLate hperform => exact hpush (h.perform hperform fun _ _ ho hs => ⟨ho, _, hs⟩)
  | stopped => exact hleft
  | stoppedLate hperform => exact hpush (h.perform hperform fun _ _ ho hs => ⟨ho, _, hs⟩)
  | lost hf => exact hone (hleft _ hf)

omit [RecordJson] in
theorem run (hrun : Traces Recent.Step s evs' s') (h : s.Keeps id (Becomes id r evs)) :
    s'.Keeps id (Becomes id r (evs ++ evs')) := by
  induction hrun generalizing evs with
  | nil => rwa [List.append_nil]
  | cons hstep _ ih =>
      have hrest := ih (h.step hstep)
      rwa [List.append_assoc] at hrest

end Recent.Keeps

omit [RecordJson] [Ss58] in
/-- A loss of power is always possible. -/
theorem exists_loses (v : Volume String UInt8) : ∃ v', v.Loses v' := by
  let nodes (i : ℕ) : Node UInt8 := ⟨(v.nodes i).bytes, true⟩
  exact ⟨⟨nodes, v.fresh, v.names, []⟩, .mk (.head _) (fun _ => rfl) fun _ _ => rfl⟩

omit [Ss58] in
/-- A write on which no request fails. -/
theorem Directory.exists_write {id : String} {r : PaymentRecord} (hid : FileStore.ValidId id) :
    ∃ v', Executes Handles (write (FileStore.recordFile id) r) v (some (.ok ())) v' := by
  have hname : ((v.create (FileStore.draftFile id)).2.names (FileStore.draftFile id)).isSome := by
    unfold Volume.create
    split
    next i hi => rw [hi]; rfl
    next => simp [Volume.add]
  unfold write
  rw [FileStore.withExtension_recordFile hid]
  exact ⟨_, .ask .create (.ask .append (.ask .syncNode (.ask (.rename hname)
    (.ask .syncNames .done))))⟩

/-- An insertion on which no request fails. -/
theorem Directory.exists_insert {r : PaymentRecord} (hid : FileStore.ValidId r.id)
    (hnone : v.names (FileStore.recordFile r.id) = none) :
    ∃ v', Executes Handles (insert r) v (some (.ok ())) v' := by
  obtain ⟨v', hwrite⟩ := exists_write (r := r) (v := v) hid
  unfold insert
  rw [path_iff.mpr ⟨hid, rfl⟩]
  refine ⟨v', .ask .exists ?_⟩
  rw [hnone]
  exact hwrite

end

/-- A record as it is created, and the text of its JSON. -/
def storedRecord : PaymentRecord := plainRecord "a" 0 1

def storedText : String :=
  "\x7b
  \"id\": \"a\",
  \"address\": \"xxx\",
  \"netuid\": 1,
  \"min_alpha\": 0,
  \"min_tao\": null,
  \"created_at\": 1,
  \"expires_at\": 18446744073709551615,
  \"state\": \"detected\",
  \"version\": 0,
  \"sealed_secret\": \x7b
    \"v\": 1,
    \"nonce\": \"\",
    \"ct\": \"\"
  \x7d,
  \"metadata\": null,
  \"callback_url\": null,
  \"detected_alpha\": 0,
  \"detected_tao\": 0,
  \"funded_tao\": 0,
  \"swept_alpha\": 0,
  \"txs\": [],
  \"buyback\": null,
  \"buyback_budget\": null,
  \"auto_required\": null,
  \"identity\": null,
  \"attempts\": 0,
  \"next_attempt_at\": 0,
  \"last_error\": null,
  \"failed_from\": null,
  \"pending\": null,
  \"quarantined\": null,
  \"swept_positions\": [],
  \"consolidated\": 0,
  \"dust_returned\": false,
  \"buyback_done\": false,
  \"notified\": false,
  \"updated_at\": 0,
  \"derivation_path\": \"path\"
\x7d"

/-- The JSON of that record.  Of others nothing is said. -/
@[reducible] def storedJson : RecordJson where
  encode r := if r = storedRecord then storedText.toUTF8.toList else []
  decode bytes :=
    if bytes = storedText.toUTF8.toList then .ok storedRecord
    else .error (.store "expected value at line 1 column 1")
  Writable r := r = storedRecord
  decode_encode := by
    rintro r rfl
    rw [if_pos rfl, if_pos rfl]

/-- A job is created, and the power is lost. -/
def createdThenLost : List DirectoryEvent := [.returned 0 (.insert storedRecord) (.ok ()), .lost]

theorem exists_createdThenLost :
    ∃ v, Traces (@Directory.Step storedJson unarySs58) .empty createdThenLost v := by
  have hid : FileStore.ValidId storedRecord.id := ⟨by decide, by decide⟩
  obtain ⟨v, hinsert⟩ := @Directory.exists_insert storedJson unarySs58 .empty _ hid rfl
  obtain ⟨v', hlost⟩ := exists_loses v
  exact ⟨v', .cons (@Directory.Step.returned storedJson _ _ _ _ _ _ rfl hinsert)
    (.cons (@Directory.Step.lost storedJson _ _ _ hlost) .nil)⟩

theorem directory_refines_created : ∃ v s,
    Traces (@Directory.Step storedJson unarySs58) .empty createdThenLost v ∧
      Traces (@Recent.Step unarySs58) ⟨.empty, []⟩ createdThenLost s ∧ @OnDisk storedJson v s := by
  obtain ⟨v, hrun⟩ := exists_createdThenLost
  obtain ⟨s, hs⟩ := @directory_refines storedJson unarySs58 v _ hrun
  exact ⟨v, s, hrun, hs⟩

end Buyback
