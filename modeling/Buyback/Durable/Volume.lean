import Mathlib.Logic.Function.Basic
import Buyback.Resumption.Crash

/-!
# A directory that may lose power

A `Volume` is one directory of files, as the processes see it and as a loss of power may
leave it.  Names refer to nodes, and a node holds bytes.

*Losing power.*  A node keeps its bytes if they were synced since they last changed, and
may hold anything otherwise.  The names are as they were at some moment since the
directory was last synced, so a rename happens as a whole or not at all.

*Requests.*  `FsOp` are the requests of a program.  Any of them may fail.  Then nothing
has happened, but for an append, which may have written a part.

*Published names.*  `Tracks` says that the published names have the contents `live`, and
had the contents of some element of `live :: past` at each moment a loss of power may go
back to.  A `Layout` says which names are published and which are of drafts.  A draft that
is written, synced and renamed is published as a whole.
-/

namespace Durable

open Resumption

/-- The bytes of a file, and whether they were synced since they last changed. -/
structure Node (β : Type) where
  bytes : List β
  synced : Bool

/-- The contents of files by name. -/
abbrev Contents (ν β : Type) : Type := ν → Option (List β)

/-- A directory. -/
structure Volume (ν β : Type) where
  nodes : ℕ → Node β
  /-- No name refers to this node or a later one. -/
  fresh : ℕ
  names : ν → Option ℕ
  /-- What the names were since the directory was last synced. -/
  past : List (ν → Option ℕ)

namespace Volume

variable {ν β : Type} [DecidableEq ν]

/-- A directory without files. -/
def empty : Volume ν β := ⟨fun _ => ⟨[], true⟩, 0, fun _ => none, []⟩

/-- The contents of the files, for some state of the names. -/
def view (v : Volume ν β) (names : ν → Option ℕ) : Contents ν β := fun n =>
  (names n).map fun i => (v.nodes i).bytes

/-- The contents of a file. -/
def read (v : Volume ν β) : Contents ν β := v.view v.names

/-- The states of the names that a loss of power may go back to. -/
def moments (v : Volume ν β) : List (ν → Option ℕ) := v.names :: v.past

/-- A new file. -/
def add (v : Volume ν β) (n : ν) : Volume ν β where
  nodes := Function.update v.nodes v.fresh ⟨[], false⟩
  fresh := v.fresh + 1
  names := Function.update v.names n (some v.fresh)
  past := v.moments

/-- Open a file to write, truncated if it exists. -/
def create (v : Volume ν β) (n : ν) : ℕ × Volume ν β :=
  match v.names n with
  | some i => (i, { v with nodes := Function.update v.nodes i ⟨[], false⟩ })
  | none => (v.fresh, v.add n)

/-- Write at the end of a file. -/
def append (v : Volume ν β) (i : ℕ) (bs : List β) : Volume ν β :=
  { v with nodes := Function.update v.nodes i ⟨(v.nodes i).bytes ++ bs, false⟩ }

/-- Sync the bytes of a file. -/
def syncNode (v : Volume ν β) (i : ℕ) : Volume ν β :=
  { v with nodes := Function.update v.nodes i ⟨(v.nodes i).bytes, true⟩ }

/-- Rename a file, over another one if the new name is taken. -/
def rename (v : Volume ν β) (a b : ν) : Volume ν β :=
  { v with
    names := Function.update (Function.update v.names b (v.names a)) a none
    past := v.moments }

/-- Sync the directory. -/
def syncNames (v : Volume ν β) : Volume ν β := { v with past := [] }

/-- The power is lost. -/
inductive Loses (v : Volume ν β) : Volume ν β → Prop where
  | mk {nodes : ℕ → Node β} {names : ν → Option ℕ} :
      names ∈ v.moments →
      (∀ i, (nodes i).synced = true) →
      (∀ i, (v.nodes i).synced = true → (nodes i).bytes = (v.nodes i).bytes) →
      Loses v ⟨nodes, v.fresh, names, []⟩

end Volume

/-! ## Requests -/

/-- A request to a directory. -/
inductive FsOp (ν β : Type) where
  | exists (n : ν)
  | read (n : ν)
  | list
  | create (n : ν)
  | append (i : ℕ) (bs : List β)
  | syncNode (i : ℕ)
  | rename (a b : ν)
  | syncNames

/-- The answer to a request. -/
@[reducible] def FsOp.Ans (φ : Type) {ν β : Type} : FsOp ν β → Type
  | .exists _ => Bool
  | .read _ => Except φ (Option (List β))
  | .list => Except φ (List ν)
  | .create _ => Except φ ℕ
  | _ => Except φ Unit

/-- The interface of a directory. -/
@[reducible] def fs (ν β φ : Type) : Interface := ⟨FsOp ν β, FsOp.Ans φ⟩

section

variable {ν β φ : Type} [DecidableEq ν]

/-- Serving a request.  Any but the test for existence may fail. -/
inductive Handles : Volume ν β → (o : FsOp ν β) → o.Ans φ → Volume ν β → Prop where
  | exists {v : Volume ν β} {n : ν} : Handles v (.exists n) (v.names n).isSome v
  | read {v : Volume ν β} {n : ν} : Handles v (.read n) (.ok (v.read n)) v
  | readFails {v : Volume ν β} {n : ν} {e : φ} : Handles v (.read n) (.error e) v
  | list {v : Volume ν β} {ns : List ν} :
      ns.Nodup →
      (∀ n, n ∈ ns ↔ (v.names n).isSome) →
      Handles v .list (.ok ns) v
  | listFails {v : Volume ν β} {e : φ} : Handles v .list (.error e) v
  | create {v : Volume ν β} {n : ν} : Handles v (.create n) (.ok (v.create n).1) (v.create n).2
  | createFails {v : Volume ν β} {n : ν} {e : φ} : Handles v (.create n) (.error e) v
  | append {v : Volume ν β} {i : ℕ} {bs : List β} :
      Handles v (.append i bs) (.ok ()) (v.append i bs)
  | appendFails {v : Volume ν β} {i : ℕ} {bs part : List β} {e : φ} :
      part <+: bs →
      Handles v (.append i bs) (.error e) (v.append i part)
  | syncNode {v : Volume ν β} {i : ℕ} : Handles v (.syncNode i) (.ok ()) (v.syncNode i)
  | syncNodeFails {v : Volume ν β} {i : ℕ} {e : φ} : Handles v (.syncNode i) (.error e) v
  | rename {v : Volume ν β} {a b : ν} :
      (v.names a).isSome →
      Handles v (.rename a b) (.ok ()) (v.rename a b)
  | renameFails {v : Volume ν β} {a b : ν} {e : φ} : Handles v (.rename a b) (.error e) v
  | syncNames {v : Volume ν β} : Handles v .syncNames (.ok ()) v.syncNames
  | syncNamesFails {v : Volume ν β} {e : φ} : Handles v .syncNames (.error e) v

end

/-! ## Published names -/

/-- Which names are published, and which are of files that are being written. -/
structure Layout (ν : Type) where
  published : ν → Prop
  draft : ν → Prop
  disjoint : ∀ n, published n → ¬ draft n

namespace Volume

variable {ν β : Type} [DecidableEq ν] {L : Layout ν} {v v' : Volume ν β}
  {live : Contents ν β} {past : List (Contents ν β)} {n tmp : ν} {i : ℕ}

/-- The published names have the contents `live`, and a loss of power goes back to some
element of `live :: past`. -/
structure Tracks (L : Layout ν) (v : Volume ν β) (live : Contents ν β)
    (past : List (Contents ν β)) : Prop where
  live_eq : ∀ n, L.published n → v.read n = live n
  moment : ∀ d ∈ v.moments, ∃ s ∈ live :: past, ∀ n, L.published n → v.view d n = s n
  used : ∀ d ∈ v.moments, ∀ n i, d n = some i → i < v.fresh
  inj : ∀ d ∈ v.moments, ∀ n m i, d n = some i → d m = some i → n = m
  synced : ∀ d ∈ v.moments, ∀ n i, L.published n → d n = some i → (v.nodes i).synced = true
  known : ∀ d ∈ v.moments, ∀ n i, d n = some i → L.published n ∨ L.draft n
  /-- A file that is being written is under no published name at any moment. -/
  apart : ∀ n i, L.draft n → v.names n = some i → ∀ d ∈ v.moments, ∀ m, L.published m → d m ≠ some i

/-- The name is of a file that is being written, which is the node. -/
structure Draft (L : Layout ν) (v : Volume ν β) (n : ν) (i : ℕ) : Prop where
  named : L.draft n
  refers : v.names n = some i

namespace Tracks

omit [DecidableEq ν] in
theorem empty : Tracks L (Volume.empty : Volume ν β) (fun _ => none) [] where
  live_eq _ _ := rfl
  moment d hd := ⟨_, .head _, fun n _ => by rw [List.mem_singleton.mp hd]; rfl⟩
  used d hd n i h := by rw [List.mem_singleton.mp hd] at h; cases h
  inj d hd n m i h := by rw [List.mem_singleton.mp hd] at h; cases h
  synced d hd n i _ h := by rw [List.mem_singleton.mp hd] at h; cases h
  known d hd n i h := by rw [List.mem_singleton.mp hd] at h; cases h
  apart n i _ h := nomatch h

omit [DecidableEq ν] in
/-- Only the contents of published names count. -/
theorem congr {live' : Contents ν β} (h : Tracks L v live past)
    (heq : ∀ n, L.published n → live n = live' n) : Tracks L v live' past where
  live_eq n hn := (h.live_eq n hn).trans (heq n hn)
  moment d hd := by
    obtain ⟨s, hs, hview⟩ := h.moment d hd
    rcases List.mem_cons.mp hs with rfl | hs
    · exact ⟨live', .head _, fun n hn => (hview n hn).trans (heq n hn)⟩
    · exact ⟨s, .tail _ hs, hview⟩
  used := h.used
  inj := h.inj
  synced := h.synced
  known := h.known
  apart := h.apart

omit [DecidableEq ν] in
theorem weaken {past' : List (Contents ν β)} (h : Tracks L v live past) (hsub : past ⊆ past') :
    Tracks L v live past' where
  live_eq := h.live_eq
  moment d hd := by
    obtain ⟨s, hs, hview⟩ := h.moment d hd
    exact ⟨s, List.cons_subset_cons live hsub hs, hview⟩
  used := h.used
  inj := h.inj
  synced := h.synced
  known := h.known
  apart := h.apart

omit [DecidableEq ν] in
theorem mem_moments : v.names ∈ v.moments := .head _

omit [DecidableEq ν] in
/-- Changing a node that is not published. -/
theorem setNode (h : Tracks L v live past) (hd : Draft L v n i) (node : Node β) :
    Tracks L { v with nodes := Function.update v.nodes i node } live past := by
  have hsame {d : ν → Option ℕ} (hmem : d ∈ v.moments) {m : ν} (hm : L.published m) :
      view { v with nodes := Function.update v.nodes i node } d m = v.view d m := by
    unfold view
    cases hdm : d m with
    | none => rfl
    | some k =>
        have hne : k ≠ i := by
          rintro rfl
          exact h.apart n k hd.named hd.refers d hmem m hm hdm
        simp [Function.update_of_ne hne]
  refine ⟨fun m hm => (hsame mem_moments hm).trans (h.live_eq m hm), fun d hmem => ?_, h.used,
    h.inj, fun d hmem m k hm hdm => ?_, h.known, h.apart⟩
  · obtain ⟨s, hs, heq⟩ := h.moment d hmem
    exact ⟨s, hs, fun m hm => (hsame hmem hm).trans (heq m hm)⟩
  · have hne : k ≠ i := by
      rintro rfl
      exact h.apart n k hd.named hd.refers d hmem m hm hdm
    simpa [Function.update_of_ne hne] using h.synced d hmem m k hm hdm

/-- A new file that is not published. -/
theorem add (h : Tracks L v live past) (hn : L.draft n) : Tracks L (v.add n) live past := by
  have hother {m : ν} (hm : m ≠ n) : (v.add n).names m = v.names m := Function.update_of_ne hm _ _
  have hself : (v.add n).names n = some v.fresh := Function.update_self _ _ _
  have hne {m : ν} (hm : L.published m) : m ≠ n := fun heq => L.disjoint m hm (heq ▸ hn)
  have hold {d : ν → Option ℕ} (hd : d ∈ v.moments) {m : ν} {k : ℕ} (hdm : d m = some k) :
      k ≠ v.fresh := Nat.ne_of_lt (h.used d hd m k hdm)
  -- a published name refers to a node that was there before
  have hback {d : ν → Option ℕ} (hd : d ∈ (v.add n).moments) {m : ν} (hm : L.published m) :
      ∃ d' ∈ v.moments, d' m = d m := by
    rcases List.mem_cons.mp hd with rfl | hd
    · exact ⟨_, mem_moments, (hother (hne hm)).symm⟩
    · exact ⟨d, hd, rfl⟩
  have hview {d : ν → Option ℕ} (hd : d ∈ v.moments) (m : ν) :
      (v.add n).view d m = v.view d m := by
    unfold view Volume.add
    cases hdm : d m with
    | none => rfl
    | some k => simp [Function.update_of_ne (hold hd hdm)]
  have hlive (m : ν) (hm : L.published m) : (v.add n).view (v.add n).names m = live m := by
    rw [← h.live_eq m hm, read, ← hview mem_moments]
    unfold view
    rw [hother (hne hm)]
  constructor
  case live_eq => exact hlive
  case moment =>
    intro d hd
    rcases List.mem_cons.mp hd with rfl | hd
    · exact ⟨live, .head _, hlive⟩
    · obtain ⟨s, hs, heq⟩ := h.moment d hd
      exact ⟨s, hs, fun m hm => (hview hd m).trans (heq m hm)⟩
  case used =>
    intro d hd m k hdm
    change k < v.fresh + 1
    rcases List.mem_cons.mp hd with rfl | hd
    · by_cases hmn : m = n
      · rw [hmn, hself] at hdm
        cases hdm
        exact Nat.lt_succ_self _
      · rw [hother hmn] at hdm
        exact Nat.lt_succ_of_lt (h.used _ mem_moments m k hdm)
    · exact Nat.lt_succ_of_lt (h.used d hd m k hdm)
  case inj =>
    intro d hd m m' k hdm hdm'
    rcases List.mem_cons.mp hd with rfl | hd
    · by_cases hmn : m = n <;> by_cases hmn' : m' = n
      · exact hmn.trans hmn'.symm
      · rw [hmn, hself] at hdm
        rw [hother hmn'] at hdm'
        exact absurd (Option.some.inj hdm).symm (hold mem_moments hdm')
      · rw [hmn', hself] at hdm'
        rw [hother hmn] at hdm
        exact absurd (Option.some.inj hdm').symm (hold mem_moments hdm)
      · rw [hother hmn] at hdm
        rw [hother hmn'] at hdm'
        exact h.inj _ mem_moments m m' k hdm hdm'
    · exact h.inj d hd m m' k hdm hdm'
  case synced =>
    intro d hd m k hm hdm
    obtain ⟨d', hd', heq⟩ := hback hd hm
    rw [← heq] at hdm
    change (Function.update v.nodes v.fresh _ k).synced = true
    rw [Function.update_of_ne (hold hd' hdm)]
    exact h.synced d' hd' m k hm hdm
  case known =>
    intro d hd m k hdm
    rcases List.mem_cons.mp hd with rfl | hd
    · by_cases hmn : m = n
      · exact .inr (hmn ▸ hn)
      · rw [hother hmn] at hdm
        exact h.known _ mem_moments m k hdm
    · exact h.known d hd m k hdm
  case apart =>
    intro m k hm hname d hd m' hm' hdm'
    obtain ⟨d', hd', heq⟩ := hback hd hm'
    rw [← heq] at hdm'
    by_cases hmn : m = n
    · rw [hmn, hself] at hname
      exact hold hd' hdm' (Option.some.inj hname).symm
    · rw [hother hmn] at hname
      exact h.apart m k hm hname d' hd' m' hm' hdm'

/-- Opening a file that is not published. -/
theorem create (h : Tracks L v live past) (hn : L.draft n) :
    Tracks L (v.create n).2 live past ∧ Draft L (v.create n).2 n (v.create n).1 ∧
      ((v.create n).2.nodes (v.create n).1).bytes = [] := by
  unfold Volume.create
  split
  next i hname => exact ⟨h.setNode ⟨hn, hname⟩ _, ⟨hn, hname⟩, by simp⟩
  next => exact ⟨h.add hn, ⟨hn, by simp [Volume.add]⟩, by simp [Volume.add]⟩

/-- A synced file that is renamed is published as a whole. -/
theorem rename (h : Tracks L v live past) (hd : Draft L v tmp i) (hn : L.published n)
    (hsynced : (v.nodes i).synced = true) :
    Tracks L (v.rename tmp n) (Function.update live n (some (v.nodes i).bytes))
      (live :: past) := by
  have hne {m : ν} (hm : L.published m) : m ≠ tmp := fun heq =>
    L.disjoint m hm (heq ▸ hd.named)
  have hntmp : tmp ≠ n := (hne hn).symm
  have hself : (v.rename tmp n).names n = some i := by
    simp [Volume.rename, Function.update_of_ne (hne hn), hd.refers]
  have hother {m : ν} (hmn : m ≠ n) (hmt : m ≠ tmp) : (v.rename tmp n).names m = v.names m := by
    simp [Volume.rename, Function.update_of_ne hmt, Function.update_of_ne hmn]
  have hgone : (v.rename tmp n).names tmp = none := by simp [Volume.rename]
  -- every name after the rename was there before, up to the one that is renamed
  have hback {m : ν} {k : ℕ} (hm : (v.rename tmp n).names m = some k) :
      ∃ m', v.names m' = some k ∧ (m = n ∧ m' = tmp ∨ m ≠ n ∧ m ≠ tmp ∧ m' = m) := by
    by_cases hmt : m = tmp
    · rw [hmt, hgone] at hm
      cases hm
    · by_cases hmn : m = n
      · rw [hmn, hself] at hm
        exact ⟨tmp, hm ▸ hd.refers, .inl ⟨hmn, rfl⟩⟩
      · rw [hother hmn hmt] at hm
        exact ⟨m, hm, .inr ⟨hmn, hmt, rfl⟩⟩
  have hlive (m : ν) (hm : L.published m) : (v.rename tmp n).view (v.rename tmp n).names m =
      Function.update live n (some (v.nodes i).bytes) m := by
    unfold view
    by_cases hmn : m = n
    · subst hmn
      rw [hself, Function.update_self]
      rfl
    · rw [hother hmn (hne hm), Function.update_of_ne hmn]
      exact h.live_eq m hm
  constructor
  case live_eq => exact hlive
  case moment =>
    intro d hmem
    rcases List.mem_cons.mp hmem with rfl | hmem
    · exact ⟨_, .head _, hlive⟩
    · obtain ⟨s, hs, heq⟩ := h.moment d hmem
      exact ⟨s, .tail _ hs, heq⟩
  case used =>
    intro d hmem m k hdm
    rcases List.mem_cons.mp hmem with rfl | hmem
    · obtain ⟨m', hm', -⟩ := hback hdm
      exact h.used _ mem_moments m' k hm'
    · exact h.used d hmem m k hdm
  case inj =>
    intro d hmem m m' k hdm hdm'
    rcases List.mem_cons.mp hmem with rfl | hmem
    · obtain ⟨a, ha, hcase⟩ := hback hdm
      obtain ⟨b, hb, hcase'⟩ := hback hdm'
      have hab := h.inj _ mem_moments a b k ha hb
      rcases hcase with ⟨hmn, hat⟩ | ⟨hmn, hmt, ham⟩ <;>
        rcases hcase' with ⟨hmn', hbt⟩ | ⟨hmn', hmt', hbm⟩
      · exact hmn.trans hmn'.symm
      · exact absurd (hbm ▸ hab ▸ hat) hmt'
      · exact absurd (ham ▸ hab ▸ hbt) hmt
      · exact ham ▸ hbm ▸ hab
    · exact h.inj d hmem m m' k hdm hdm'
  case synced =>
    intro d hmem m k hm hdm
    rcases List.mem_cons.mp hmem with rfl | hmem
    · by_cases hmn : m = n
      · rw [hmn, hself] at hdm
        cases hdm
        exact hsynced
      · rw [hother hmn (hne hm)] at hdm
        exact h.synced _ mem_moments m k hm hdm
    · exact h.synced d hmem m k hm hdm
  case known =>
    intro d hmem m k hdm
    rcases List.mem_cons.mp hmem with rfl | hmem
    · obtain ⟨a, ha, ⟨hmn, -⟩ | ⟨-, -, rfl⟩⟩ := hback hdm
      · exact .inl (hmn ▸ hn)
      · exact h.known _ mem_moments a k ha
    · exact h.known d hmem m k hdm
  case apart =>
    intro m k hm hname d hmem m' hm' hdm'
    obtain ⟨a, ha, hcase⟩ := hback hname
    obtain ⟨-, hmt, rfl⟩ : m ≠ n ∧ m ≠ tmp ∧ a = m :=
      hcase.resolve_left fun hmn => L.disjoint n hn (hmn.1 ▸ hm)
    rcases List.mem_cons.mp hmem with rfl | hmem
    · by_cases hmn' : m' = n
      · rw [hmn', hself] at hdm'
        cases hdm'
        exact hmt (h.inj _ mem_moments a tmp i ha hd.refers)
      · rw [hother hmn' (hne hm')] at hdm'
        exact h.apart a k hm ha _ mem_moments m' hm' hdm'
    · exact h.apart a k hm ha d hmem m' hm' hdm'

omit [DecidableEq ν] in
/-- After the directory is synced, nothing older comes back. -/
theorem syncNames (h : Tracks L v live past) : Tracks L v.syncNames live [] where
  live_eq := h.live_eq
  moment d hd := ⟨live, .head _, fun m hm => by
    rw [List.mem_singleton.mp hd]
    exact h.live_eq m hm⟩
  used d hd := h.used d (List.mem_singleton.mp hd ▸ mem_moments)
  inj d hd := h.inj d (List.mem_singleton.mp hd ▸ mem_moments)
  synced d hd := h.synced d (List.mem_singleton.mp hd ▸ mem_moments)
  known d hd := h.known d (List.mem_singleton.mp hd ▸ mem_moments)
  apart m k hm hname d hd := h.apart m k hm hname d (List.mem_singleton.mp hd ▸ mem_moments)

omit [DecidableEq ν] in
/-- After the power was lost, the contents are those of some moment. -/
theorem loses (h : Tracks L v live past) (hl : v.Loses v') :
    ∃ s ∈ live :: past, Tracks L v' s [] := by
  cases hl with
  | @mk nodes names hmem hall hkept =>
      obtain ⟨s, hs, hview⟩ := h.moment names hmem
      have hlive (m : ν) (hm : L.published m) : (names m).map (fun i => (nodes i).bytes) = s m := by
        rw [← hview m hm]
        unfold view
        cases hname : names m with
        | none => rfl
        | some i => simp [hkept i (h.synced names hmem m i hm hname)]
      refine ⟨s, hs, hlive, fun d hd => ⟨s, .head _, ?_⟩, fun d hd => ?_, fun d hd => ?_,
        fun _ _ _ _ _ _ => hall _, fun d hd => ?_, fun m i hm hname d hd m' hm' hdm => ?_⟩
      · rw [List.mem_singleton.mp hd]
        exact hlive
      · rw [List.mem_singleton.mp hd]
        exact h.used names hmem
      · rw [List.mem_singleton.mp hd]
        exact h.inj names hmem
      · rw [List.mem_singleton.mp hd]
        exact h.known names hmem
      · rw [List.mem_singleton.mp hd] at hdm
        exact L.disjoint m' hm' (h.inj names hmem m m' i hname hdm ▸ hm)

end Tracks

end Volume

end Durable
