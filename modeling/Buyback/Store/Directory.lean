import Buyback.Source.Directory
import Buyback.Store.Alike

/-!
# The methods of the file store, request by request

What the programs of `Directory` do to a volume whose requests may fail.

*Names.*  A record is published under the name of its id.  It is written as a draft under
another name, and renamed when its bytes are synced.

*Recent stores.*  `Recent` is a store with those a loss of power may bring back.
`OnDisk v s` says that the files of a volume are those of such a store.

*Operations.*  `Halfway` is what an operation may leave where it stops or fails: the store
before it, or the store after it with the one before that may come back.  `Written` is what
it leaves when it returns.  There is one such result for each method.
-/

namespace Buyback

open Resumption Durable Resumption.Program

/-! ## File names -/

theorem rsplitDot_none {l : List Char} (h : '.' ∉ l) : rsplitDot l = none := by
  induction l with
  | nil => rfl
  | cons c cs ih =>
      rw [List.mem_cons, not_or] at h
      rw [rsplitDot, ih h.2]
      exact if_neg (Ne.symm h.1)

theorem rsplitDot_append {a b : List Char} (h : '.' ∉ b) :
    rsplitDot (a ++ '.' :: b) = some (a, b) := by
  induction a with
  | nil =>
      rw [List.nil_append, rsplitDot, rsplitDot_none h]
      exact if_pos rfl
  | cons c a ih => rw [List.cons_append, rsplitDot, ih]

/-- The part after the last dot is the extension. -/
theorem stemExtension_append {stem ext : String} (hstem : stem ≠ "") (hext : '.' ∉ ext.toList) :
    stemExtension (stem ++ "." ++ ext) = (stem, some ext) := by
  have hlist : (stem ++ "." ++ ext).toList = stem.toList ++ '.' :: ext.toList := by simp
  have hne : stem.toList ≠ [] := by simpa using hstem
  have hstem : String.ofList stem.toList = stem := by simp
  have hext' : String.ofList ext.toList = ext := by simp
  unfold stemExtension
  rw [hlist, rsplitDot_append hext]
  cases hl : stem.toList with
  | nil => exact absurd hl hne
  | cons c cs =>
      change (String.ofList (c :: cs), some (String.ofList ext.toList)) = _
      rw [← hl, hstem, hext']

namespace FileStore

/-- The file of an id. -/
def recordFile (id : String) : String := id ++ ".json"

/-- The file a record is written to before it is renamed. -/
def draftFile (id : String) : String := id ++ ".json.tmp"

variable {id id' : String}

theorem recordFile_eq : recordFile id = id ++ "." ++ "json" := by
  rw [String.append_assoc]
  rfl

theorem draftFile_eq : draftFile id = recordFile id ++ "." ++ "tmp" := by
  rw [recordFile, String.append_assoc, String.append_assoc]
  rfl

theorem stemExtension_recordFile (h : ValidId id) :
    stemExtension (recordFile id) = (id, some "json") := by
  rw [recordFile_eq]
  exact stemExtension_append h.1 (by simp)

theorem stemExtension_draftFile : stemExtension (draftFile id) = (recordFile id, some "tmp") := by
  rw [draftFile_eq]
  refine stemExtension_append (fun h => ?_) (by simp)
  have := congrArg String.length h
  simp [recordFile] at this

theorem withExtension_recordFile (h : ValidId id) :
    withExtension (recordFile id) "json.tmp" = draftFile id := by
  rw [withExtension, stemExtension_recordFile h, draftFile, String.append_assoc]
  rfl

theorem recordFile_inj (h : ValidId id) (h' : ValidId id') (heq : recordFile id = recordFile id') :
    id = id' := by
  have := congrArg stemExtension heq
  rw [stemExtension_recordFile h, stemExtension_recordFile h'] at this
  exact congrArg Prod.fst this

/-- The names a file store uses. -/
def layout : Layout String where
  published n := ∃ id, ValidId id ∧ n = recordFile id
  draft n := ∃ id, ValidId id ∧ n = draftFile id
  disjoint := by
    rintro n ⟨id, hid, rfl⟩ ⟨id', -, heq⟩
    have hext := congrArg stemExtension heq
    rw [stemExtension_recordFile hid, stemExtension_draftFile] at hext
    exact absurd (Option.some.inj (Prod.mk.inj hext).2) (by decide)

theorem published (h : ValidId id) : layout.published (recordFile id) := ⟨id, h, rfl⟩

end FileStore

/-! ## The store a directory holds -/

/-- The store, and those that a loss of power may bring back. -/
structure Recent where
  live : FileStore
  past : List FileStore

/-- The stores a loss of power may leave. -/
def Recent.stores (s : Recent) : List FileStore := s.live :: s.past

/-- The store with `f` written over it, not yet on disk. -/
def Recent.push (s : Recent) (f : FileStore) : Recent := ⟨f, s.stores⟩

section

variable [RecordJson]

/-- The files of a store. -/
def FileStore.image (f : FileStore) : Contents String UInt8 := fun n =>
  (f.read (stemExtension n).1).map RecordJson.encode

/-- The files are those of the store.  Each is named by an id, and reads back. -/
structure OnDisk (v : Volume String UInt8) (s : Recent) : Prop where
  tracks : v.Tracks FileStore.layout s.live.image (s.past.map FileStore.image)
  valid : ∀ f ∈ s.stores, ∀ id r, f.read id = some r →
    FileStore.ValidId id ∧ RecordJson.Writable r

theorem FileStore.image_recordFile {f : FileStore} {id : String} (h : ValidId id) :
    f.image (recordFile id) = (f.read id).map RecordJson.encode := by
  rw [image, stemExtension_recordFile h]

/-- The image of a store after one file is replaced. -/
theorem FileStore.image_write {f : FileStore} {id n : String} {r : PaymentRecord}
    (h : ValidId id) (hn : layout.published n) :
    Function.update f.image (recordFile id) (some (RecordJson.encode r)) n =
      (f.write id r).image n := by
  obtain ⟨id', hid', rfl⟩ := hn
  rw [image_recordFile hid']
  by_cases heq : id' = id
  · subst heq
    rw [Function.update_self, read_write_self, Option.map_some]
  · have hne : recordFile id' ≠ recordFile id := fun h' => heq (recordFile_inj hid' h h')
    rw [Function.update_of_ne hne, image_recordFile hid', read_write_ne heq]

namespace OnDisk

variable {v v' : Volume String UInt8} {s : Recent} {id : String} {r : PaymentRecord}

theorem empty : OnDisk .empty ⟨.empty, []⟩ where
  tracks := Volume.Tracks.empty
  valid f hf id r h := by
    rw [List.mem_singleton.mp hf] at h
    cases h

/-- The file of an id. -/
theorem read_eq (h : OnDisk v s) (hid : FileStore.ValidId id) :
    v.read (FileStore.recordFile id) = (s.live.read id).map RecordJson.encode := by
  rw [h.tracks.live_eq _ (FileStore.published hid), FileStore.image_recordFile hid]

/-- A draft that is changed changes no record. -/
theorem keep (h : OnDisk v s)
    (ht : v'.Tracks FileStore.layout s.live.image (s.past.map FileStore.image)) : OnDisk v' s :=
  ⟨ht, h.valid⟩

/-- A synced draft that is renamed replaces a record. -/
theorem publish {i : ℕ} (h : OnDisk v s) (hid : FileStore.ValidId id)
    (hw : RecordJson.Writable r)
    (hd : Volume.Draft FileStore.layout v (FileStore.draftFile id) i)
    (hnode : v.nodes i = ⟨RecordJson.encode r, true⟩) :
    OnDisk (v.rename (FileStore.draftFile id) (FileStore.recordFile id))
      (s.push (s.live.write id r)) where
  tracks := by
    have htracks := h.tracks.rename hd (FileStore.published hid) (by rw [hnode])
    rw [hnode] at htracks
    exact htracks.congr fun n hn => FileStore.image_write hid hn
  valid f hf id' r' hr' := by
    rcases List.mem_cons.mp hf with rfl | hf
    · by_cases heq : id' = id
      · subst heq
        rw [Recent.push, FileStore.read_write_self] at hr'
        cases hr'
        exact ⟨hid, hw⟩
      · rw [Recent.push, FileStore.read_write_ne heq] at hr'
        exact h.valid _ (.head _) id' r' hr'
    · exact h.valid f hf id' r' hr'

/-- After the directory is synced, nothing older comes back. -/
theorem syncNames (h : OnDisk v s) : OnDisk v.syncNames ⟨s.live, []⟩ where
  tracks := h.tracks.syncNames
  valid f hf := h.valid f (List.mem_singleton.mp hf ▸ .head _)

theorem weaken (h : OnDisk v ⟨s.live, []⟩) (hs : OnDisk v' s) : OnDisk v s :=
  ⟨h.tracks.weaken (List.nil_subset _), hs.valid⟩

/-- The store after a loss of power. -/
theorem loses (h : OnDisk v s) (hl : v.Loses v') : ∃ f ∈ s.stores, OnDisk v' ⟨f, []⟩ := by
  obtain ⟨c, hc, ht⟩ := h.tracks.loses hl
  obtain ⟨f, hf, rfl⟩ : ∃ f ∈ s.stores, f.image = c := by
    rcases List.mem_cons.mp hc with rfl | hc
    · exact ⟨_, .head _, rfl⟩
    · obtain ⟨f, hf, rfl⟩ := List.mem_map.mp hc
      exact ⟨f, .tail _ hf, rfl⟩
  refine ⟨f, hf, ht, fun g hg => ?_⟩
  rw [List.mem_singleton.mp hg]
  exact h.valid f hf

end OnDisk

/-! ## Writing a file -/

/-- The store before an operation, or after it. -/
def Halfway {α : Type} (s : Recent) (x : Result (α × FileStore)) (v : Volume String UInt8) : Prop :=
  OnDisk v s ∨ ∃ a f, x = .ok (a, f) ∧ OnDisk v (s.push f)

/-- The store after an operation, with nothing older to come back. -/
def Written {α : Type} (x : Result (α × FileStore)) (a : α) (v : Volume String UInt8) : Prop :=
  ∃ f, x = .ok (a, f) ∧ OnDisk v ⟨f, []⟩

/-- The file of a draft, as long as it is not renamed. -/
structure Drafting (v : Volume String UInt8) (s : Recent) (id : String) (file : ℕ) : Prop where
  holds : OnDisk v s
  draft : v.Draft FileStore.layout (FileStore.draftFile id) file

namespace Task

variable {α : Type} {v : Volume String UInt8} {s : Recent} {id : String} {file : ℕ}
  {C : Volume String UInt8 → Prop} {P : α → Volume String UInt8 → Prop}

theorem openFile_wp {next : ℕ → Task α} (h : OnDisk v s) (hid : FileStore.ValidId id)
    (hC : ∀ v', OnDisk v' s → C v')
    (hnext : ∀ file v', Drafting v' s id file → (v'.nodes file).bytes = [] →
      (next file).wp Handles C P v') :
    ((openFile (FileStore.draftFile id)).bind next).wp Handles C P v := by
  refine wp.request (hC v h) (fun a v' x hserve ha => ?_) fun a v' e hserve ha => ?_
  · cases hserve with
    | createFails => cases ha
    | create =>
        cases ha
        obtain ⟨ht, hd, hempty⟩ := h.tracks.create ⟨id, hid, rfl⟩
        exact hnext _ _ ⟨h.keep ht, hd⟩ hempty
  · cases hserve with
    | create => cases ha
    | createFails => exact hC v h

theorem writeAll_wp {next : Unit → Task α} {bytes : List UInt8} (h : Drafting v s id file)
    (hempty : (v.nodes file).bytes = []) (hC : ∀ v', OnDisk v' s → C v')
    (hnext : ∀ v', Drafting v' s id file → (v'.nodes file).bytes = bytes →
      (next ()).wp Handles C P v') :
    ((writeAll file bytes).bind next).wp Handles C P v := by
  have hkeep (part : List UInt8) : OnDisk (v.append file part) s :=
    h.holds.keep (h.holds.tracks.setNode h.draft _)
  refine wp.request (hC v h.holds) (fun a v' x hserve ha => ?_) fun a v' e hserve ha => ?_
  · cases hserve with
    | appendFails => cases ha
    | append =>
        exact hnext _ ⟨hkeep bytes, h.draft.named, h.draft.refers⟩ (by simp [Volume.append, hempty])
  · cases hserve with
    | append => cases ha
    | appendFails => exact hC _ (hkeep _)

theorem syncAll_wp {next : Unit → Task α} (h : Drafting v s id file)
    (hC : ∀ v', OnDisk v' s → C v')
    (hnext : ∀ v', Drafting v' s id file → v'.nodes file = ⟨(v.nodes file).bytes, true⟩ →
      (next ()).wp Handles C P v') :
    ((syncAll file).bind next).wp Handles C P v := by
  refine wp.request (hC v h.holds) (fun a v' x hserve ha => ?_) fun a v' e hserve ha => ?_
  · cases hserve with
    | syncNodeFails => cases ha
    | syncNode =>
        exact hnext _ ⟨h.holds.keep (h.holds.tracks.setNode h.draft _), h.draft.named,
          h.draft.refers⟩ (by simp [Volume.syncNode])
  · cases hserve with
    | syncNode => cases ha
    | syncNodeFails => exact hC v h.holds

theorem rename_wp {next : Unit → Task α} {r : PaymentRecord} (h : Drafting v s id file)
    (hid : FileStore.ValidId id) (hw : RecordJson.Writable r)
    (hnode : v.nodes file = ⟨RecordJson.encode r, true⟩) (hC : C v)
    (hnext : ∀ v', OnDisk v' (s.push (s.live.write id r)) → (next ()).wp Handles C P v') :
    ((rename (FileStore.draftFile id) (FileStore.recordFile id)).bind next).wp Handles C P v := by
  refine wp.request hC (fun a v' x hserve ha => ?_) fun a v' e hserve ha => ?_
  · cases hserve with
    | renameFails => cases ha
    | rename => exact hnext _ (h.holds.publish hid hw h.draft hnode)
  · cases hserve with
    | rename => cases ha
    | renameFails => exact hC

theorem syncDir_wp {P : Unit → Volume String UInt8 → Prop} (h : OnDisk v s)
    (hC : ∀ v', OnDisk v' s → C v') (hP : ∀ v', OnDisk v' ⟨s.live, []⟩ → P () v') :
    syncDir.wp Handles C P v := by
  refine wp.last (hC v h) (fun a v' x hserve ha => ?_) fun a v' e hserve ha => ?_
  · cases hserve with
    | syncNamesFails => cases ha
    | syncNames => exact ⟨hC _ (h.syncNames.weaken h), hP _ h.syncNames⟩
  · cases hserve with
    | syncNames => cases ha
    | syncNamesFails => exact hC v h

end Task

namespace Directory

variable {v : Volume String UInt8} {s : Recent} {id : String} {r : PaymentRecord}

/-- A write replaces the file as a whole.  After it succeeds, nothing older comes back. -/
theorem write_wp {α : Type} {x : Result (α × FileStore)} {a : α} (h : OnDisk v s)
    (hid : FileStore.ValidId id) (hw : RecordJson.Writable r)
    (hx : x = .ok (a, s.live.write id r)) :
    (write (FileStore.recordFile id) r).wp Handles (Halfway s x) (fun _ => Written x a) v := by
  have hC (v' : Volume String UInt8) (h' : OnDisk v' s) : Halfway s x v' := .inl h'
  unfold write
  rw [FileStore.withExtension_recordFile hid]
  refine Task.openFile_wp h hid hC fun file v₁ hd₁ hempty => ?_
  refine Task.writeAll_wp hd₁ hempty hC fun v₂ hd₂ hbytes => ?_
  refine Task.syncAll_wp hd₂ hC fun v₃ hd₃ hnode => ?_
  rw [hbytes] at hnode
  refine Task.rename_wp hd₃ hid hw hnode (.inl hd₃.holds) fun v₄ h₄ => ?_
  exact Task.syncDir_wp h₄ (fun _ h₅ => .inr ⟨a, _, hx, h₅⟩) fun _ h₅ => ⟨_, hx, h₅⟩

/-! ## Reading a file -/

variable {α : Type} {C : Volume String UInt8 → Prop}

omit [RecordJson] in
theorem path_iff [StdTexts] {p : String} :
    path id = .ok p ↔ FileStore.ValidId id ∧ p = FileStore.recordFile id := by
  have h : path id = (FileStore.path id).map FileStore.recordFile := by
    unfold path FileStore.path
    split <;> rfl
  rw [h]
  constructor
  · intro hp
    cases hid : FileStore.path id with
    | error e => rw [hid] at hp; cases hp
    | ok q =>
        rw [hid] at hp
        cases hp
        obtain ⟨hvalid, rfl⟩ := FileStore.path_iff.mp hid
        exact ⟨hvalid, rfl⟩
  · rintro ⟨hid, rfl⟩
    rw [FileStore.path_iff.mpr ⟨hid, rfl⟩]
    rfl

/-- Reading a file changes nothing. -/
theorem read_wp (h : OnDisk v s) (hid : FileStore.ValidId id) (hC : C v) :
    (read (FileStore.recordFile id)).wp Handles C (fun o v' => v' = v ∧ o = s.live.read id) v := by
  refine wp.request hC (fun a v' x hserve ha => ?_) fun a v' e hserve ha => ?_
  · cases hserve with
    | readFails => cases ha
    | read =>
        cases ha
        rw [h.read_eq hid]
        cases hr : s.live.read id with
        | none => exact .ok hC ⟨rfl, rfl⟩
        | some r =>
            refine wp.lift hC fun r' hr' => ?_
            rw [RecordJson.decode_encode _ (h.valid _ (.head _) id r hr).2] at hr'
            cases hr'
            exact .ok hC ⟨rfl, rfl⟩
  · cases hserve with
    | read => cases ha
    | readFails => exact hC

theorem pathExists_wp {next : Bool → Task α} {P : α → Volume String UInt8 → Prop}
    (h : OnDisk v s) (hid : FileStore.ValidId id) (hC : C v)
    (hnext : (next (s.live.read id).isSome).wp Handles C P v) :
    ((Task.pathExists (FileStore.recordFile id)).bind next).wp Handles C P v := by
  refine wp.request hC (fun a v' x hserve ha => ?_) fun a v' e hserve ha => ?_
  · cases hserve
    cases ha
    have hread : (v.read (FileStore.recordFile id)).isSome = (s.live.read id).isSome := by
      rw [h.read_eq hid, Option.isSome_map]
    rw [Volume.read, Volume.view, Option.isSome_map] at hread
    exact hread ▸ hnext
  · cases ha

/-! ## Listing -/

/-- The record under a name that is listed. -/
def listed (f : FileStore) (n : String) : Option (Sigma fun _ : String => PaymentRecord) :=
  if (stemExtension n).2 = some "json" then
    (f.read (stemExtension n).1).map fun r => ⟨(stemExtension n).1, r⟩
  else none

omit [RecordJson] in
theorem listed_recordFile {f : FileStore} (hid : FileStore.ValidId id) :
    listed f (FileStore.recordFile id) = (f.read id).map fun r => ⟨id, r⟩ := by
  rw [listed, FileStore.stemExtension_recordFile hid, if_pos rfl]

omit [RecordJson] in
theorem listed_draftFile {f : FileStore} : listed f (FileStore.draftFile id) = none := by
  rw [listed, FileStore.stemExtension_draftFile]
  rfl

/-- The names of a directory are those a store uses. -/
def Ours (n : String) : Prop := FileStore.layout.published n ∨ FileStore.layout.draft n

theorem collect_wp {states : List PaymentState} {ns : List String} {out : List PaymentRecord}
    {P : List PaymentRecord → Volume String UInt8 → Prop} (h : OnDisk v s)
    (hns : ∀ n ∈ ns, Ours n) (hC : C v)
    (hP : P (out ++ ((ns.filterMap (listed s.live)).map Sigma.snd).filter
      fun r => states.contains r.state) v) :
    (collect states ns out).wp Handles C P v := by
  induction ns generalizing out with
  | nil =>
      rw [List.filterMap_nil, List.map_nil, List.filter_nil, List.append_nil] at hP
      exact .ok hC hP
  | cons n ns ih =>
      have hns' : ∀ m ∈ ns, Ours m := fun m hm => hns m (.tail _ hm)
      rw [List.filterMap_cons] at hP
      unfold collect
      rcases hns n (.head _) with ⟨id, hid, rfl⟩ | ⟨id, hid, rfl⟩
      · rw [listed_recordFile hid] at hP
        rw [FileStore.stemExtension_recordFile hid, if_pos rfl]
        refine wp.bind (read_wp h hid hC) ?_
        rintro o v' - ⟨rfl, rfl⟩
        cases hr : s.live.read id with
        | none =>
            rw [hr] at hP
            exact ih hns' hP
        | some r =>
            rw [hr] at hP
            refine ih hns' ?_
            rw [Option.map_some, List.map_cons, List.filter_cons] at hP
            split at hP
            next hstate => rwa [if_pos hstate, List.append_assoc]
            next hstate => rwa [if_neg hstate]
      · rw [listed_draftFile] at hP
        rw [FileStore.stemExtension_draftFile]
        exact ih hns' hP

/-- The records under the names of a directory are those of the store. -/
theorem entries_perm {ns : List String} (h : OnDisk v s) (hnodup : ns.Nodup)
    (hns : ∀ n, n ∈ ns ↔ (v.names n).isSome) :
    (ns.filterMap (listed s.live)).Perm s.live.files.entries := by
  have hmem {n : String} {e : Sigma fun _ : String => PaymentRecord}
      (he : listed s.live n = some e) (hn : Ours n) :
      n = FileStore.recordFile e.1 ∧ s.live.read e.1 = some e.2 := by
    rcases hn with ⟨id, hid, rfl⟩ | ⟨id, -, rfl⟩
    · rw [listed_recordFile hid] at he
      obtain ⟨r, hr, rfl⟩ := Option.map_eq_some_iff.mp he
      exact ⟨rfl, hr⟩
    · rw [listed_draftFile] at he
      cases he
  have hours (n : String) (hn : n ∈ ns) : Ours n := by
    obtain ⟨i, hi⟩ := Option.isSome_iff_exists.mp ((hns n).mp hn)
    exact h.tracks.known _ (.head _) n i hi
  refine List.mem_ext ?_ s.live.files.nodupKeys.nodup fun e => ?_
  · refine List.pairwise_filterMap.mpr
      (hnodup.imp_of_mem fun ha hb hne e he e' he' heq => hne ?_)
    exact (hmem he (hours _ ha)).1.trans (heq ▸ (hmem he' (hours _ hb)).1.symm)
  · obtain ⟨id, r⟩ := e
    rw [List.mem_filterMap, ← AList.mem_lookup_iff]
    constructor
    · rintro ⟨n, hn, he⟩
      exact (hmem he (hours n hn)).2
    · intro hr
      have hid := (h.valid _ (.head _) id r hr).1
      refine ⟨FileStore.recordFile id, (hns _).mpr ?_, ?_⟩
      · have hread : (v.read (FileStore.recordFile id)).isSome = true := by
          rw [h.read_eq hid, show s.live.read id = some r from hr]
          rfl
        rwa [Volume.read, Volume.view, Option.isSome_map] at hread
      · rw [listed_recordFile hid, show s.live.read id = some r from hr]
        rfl

omit [RecordJson] in
theorem readDir_wp {next : List String → Task α} {P : α → Volume String UInt8 → Prop} (hC : C v)
    (hnext : ∀ ns : List String, ns.Nodup → (∀ n, n ∈ ns ↔ (v.names n).isSome) →
      (next ns).wp Handles C P v) :
    (Task.readDir.bind next).wp Handles C P v := by
  refine wp.request hC (fun a v' x hserve ha => ?_) fun a v' e hserve ha => ?_
  · cases hserve with
    | listFails => cases ha
    | list hnodup hns =>
        cases ha
        exact hnext _ hnodup hns
  · cases hserve with
    | list => cases ha
    | listFails => exact hC

/-- The list of a directory is that of the store, up to the order of equal times. -/
theorem list_wp {states : List PaymentState} (h : OnDisk v s) :
    (list states).wp Handles (OnDisk · s)
      (fun rs v' => OnDisk v' s ∧ rs.Perm (s.live.list states) ∧ ByCreation rs) v := by
  unfold list
  refine readDir_wp h fun ns hnodup hns => ?_
  have hours (n : String) (hn : n ∈ ns) : Ours n := by
    obtain ⟨i, hi⟩ := Option.isSome_iff_exists.mp ((hns n).mp hn)
    exact h.tracks.known _ (.head _) n i hi
  refine wp.bind (collect_wp (P := fun rs v' => v' = v ∧ rs = _) h hours h ⟨rfl, rfl⟩) ?_
  rintro rs v' - ⟨rfl, rfl⟩
  refine .ok h ⟨h, ?_, List.pairwise_insertionSort _ _⟩
  refine (List.perm_insertionSort _ _).trans (.trans ?_ (List.perm_insertionSort _ _).symm)
  rw [List.nil_append]
  exact ((entries_perm h hnodup hns).map Sigma.snd).filter _

/-! ## The operations -/

theorem get_wp [StdTexts] (h : OnDisk v s) :
    (get id).wp Handles (OnDisk · s) (fun o v' => OnDisk v' s ∧ s.live.get id = .ok o) v := by
  refine wp.lift h fun p hp => ?_
  obtain ⟨hid, rfl⟩ := path_iff.mp hp
  refine (read_wp h hid h).mono (fun _ h' => h') ?_
  rintro o v' ⟨rfl, rfl⟩
  exact ⟨h, FileStore.get_iff.mpr ⟨hid, rfl⟩⟩

theorem insert_wp [StdTexts] (h : OnDisk v s) (hw : RecordJson.Writable r) :
    (insert r).wp Handles (Halfway s (s.live.insert r)) (Written (s.live.insert r)) v := by
  refine wp.lift (.inl h) fun p hp => ?_
  obtain ⟨hid, rfl⟩ := path_iff.mp hp
  refine pathExists_wp h hid (.inl h) (wp.ite (fun _ => .error (.inl h)) fun hnone => ?_)
  rw [Bool.not_eq_true, Option.isSome_eq_false_iff, Option.isNone_iff_eq_none] at hnone
  exact write_wp (a := ()) h hid hw (FileStore.insert_iff.mpr ⟨hid, hnone, rfl⟩)

theorem update_wp [StdTexts] {now : UInt64} (h : OnDisk v s)
    (hw : RecordJson.Writable (r.stamped now)) :
    (update r now).wp Handles (Halfway s (s.live.update r now)) (Written (s.live.update r now))
      v := by
  refine wp.lift (.inl h) fun p hp => ?_
  obtain ⟨hid, rfl⟩ := path_iff.mp hp
  refine wp.bind (read_wp h hid (.inl h)) ?_
  rintro o v' - ⟨rfl, rfl⟩
  cases hcur : s.live.read r.id with
  | none => exact .error (.inl h)
  | some cur =>
      refine wp.ite (fun _ => .error (.inl h)) fun hterms => wp.ite (fun _ => .error (.inl h))
        fun hversion => ?_
      simp only [not_or, not_not] at hterms hversion
      have hx : s.live.update r now = .ok (r.stamped now, s.live.write r.id (r.stamped now)) :=
        FileStore.update_iff.mpr
          ⟨hid, ⟨cur, hcur, hversion, hterms.1, hterms.2.1, hterms.2.2⟩, rfl, rfl⟩
      exact (write_wp h hid hw hx).bind fun _ v' hc hw => .ok hc hw

theorem migrateLegacyPolicy_wp [Ss58] {version now : UInt64} {budget : Option BuybackBudget}
    (h : OnDisk v s) (hw : ∀ old next, s.live.read id = some old →
      migratedPolicy old version budget now = .ok next → RecordJson.Writable next) :
    (migrateLegacyPolicy id version budget now).wp Handles
      (Halfway s (s.live.migrateLegacyPolicy id version budget now))
      (Written (s.live.migrateLegacyPolicy id version budget now)) v := by
  refine wp.lift (.inl h) fun p hp => ?_
  obtain ⟨hid, rfl⟩ := path_iff.mp hp
  refine wp.bind (read_wp h hid (.inl h)) ?_
  rintro o v' - ⟨rfl, rfl⟩
  cases hold : s.live.read id with
  | none => exact .error (.inl h)
  | some old =>
      refine wp.lift (.inl h) fun next hnext => ?_
      have hx : s.live.migrateLegacyPolicy id version budget now =
          .ok (next, s.live.write id next) :=
        FileStore.migrateLegacyPolicy_iff.mpr ⟨hid, ⟨old, hold, hnext⟩, rfl⟩
      exact (write_wp h hid (hw old next hold hnext) hx).bind fun _ v' hc hw => .ok hc hw

end Directory

end

end Buyback
