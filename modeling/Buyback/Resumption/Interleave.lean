import Mathlib.Logic.Relation
import Buyback.Resumption.Program

/-!
# Interleaved programs over a shared state

A `System` has a shared state, a server that answers requests and may change the
state, and a family of entry programs.  A configuration runs any number of
copies of the entries.  A step starts an entry, serves the next request of one
of them, stops one for good, or lets the state change by itself.

The *trace* of a configuration lists every request served so far with its answer
and the position of the program that made it, newest first.

`Guarded` forgets the programs and keeps the entries.  There an entry may make
any request its guarantee allows after its own history.  `Reachable.guarded`
says that a configuration of programs that satisfy their guarantees is a guarded
configuration.  So an invariant of the guarded system, proved with no program in
sight, holds of every interleaving of the programs.
-/

namespace Resumption

/-- A shared state, the server of its requests, and the programs that may run. -/
structure System where
  /-- The requests and answers. -/
  interface : Interface
  /-- The errors a program may end with. -/
  Err : Type
  /-- The shared state. -/
  State : Type
  /-- The programs that may be started. -/
  Entry : Type
  /-- The program of an entry. -/
  body : Entry → Program interface Err Unit
  /-- The states a run may start in. -/
  init : State → Prop
  /-- Serving a request: the state before, the answer and the state after. -/
  serve : State → (o : interface.Op) → interface.Ans o → State → Prop
  /-- The state changes by itself. -/
  env : State → State → Prop
  /-- Programs may stop at any point. -/
  crashes : Prop

/-- The events of the trace made by the program at position `i`. -/
def historyOf {I : Interface} (trace : List (Nat × Event I)) (i : Nat) : History I :=
  trace.filterMap fun x => if x.1 = i then some x.2 else none

section History

variable {I : Interface} {trace : List (Nat × Event I)} {i j : Nat} {e : Event I}

@[simp] theorem historyOf_nil : historyOf ([] : List (Nat × Event I)) i = [] := rfl

@[simp] theorem historyOf_cons_self : historyOf ((i, e) :: trace) i = e :: historyOf trace i := by
  simp [historyOf]

theorem historyOf_cons_ne (h : j ≠ i) : historyOf ((j, e) :: trace) i = historyOf trace i := by
  simp [historyOf, h]

/-- A history only grows. -/
theorem historyOf_suffix : historyOf trace i <:+ historyOf ((j, e) :: trace) i := by
  by_cases h : j = i
  · subst h
    rw [historyOf_cons_self]
    exact List.suffix_cons _ _
  · exact historyOf_cons_ne h ▸ List.suffix_rfl

@[simp] theorem mem_historyOf : e ∈ historyOf trace i ↔ (i, e) ∈ trace := by
  simp only [historyOf, List.mem_filterMap]
  constructor
  · rintro ⟨⟨k, e'⟩, hmem, heq⟩
    split at heq
    next hk =>
      cases heq
      exact hk ▸ hmem
    next => cases heq
  · exact fun h => ⟨(i, e), h, by simp⟩

@[simp] theorem historyOf_append {later : List (Nat × Event I)} :
    historyOf (later ++ trace) i = historyOf later i ++ historyOf trace i :=
  List.filterMap_append

/-- A trace is split at an event of a history as the history is. -/
theorem historyOf_split {xs ys : History I} (h : historyOf trace i = xs ++ e :: ys) :
    ∃ mid before, trace = mid ++ (i, e) :: before ∧ historyOf mid i = xs ∧
      historyOf before i = ys := by
  obtain ⟨mid, after, rfl, hmid, hafter⟩ := List.filterMap_eq_append_iff.mp h
  obtain ⟨skipped, ⟨k, e'⟩, before, rfl, hskipped, hevent, hbefore⟩ :=
    List.filterMap_eq_cons_iff.mp hafter
  have hskipped : historyOf skipped i = [] := List.filterMap_eq_nil_iff.mpr hskipped
  split at hevent
  next hk =>
    cases hk
    cases hevent
    refine ⟨mid ++ skipped, before, (List.append_assoc _ _ _).symm, ?_, hbefore⟩
    rw [historyOf_append, hskipped, List.append_nil]
    exact hmid
  next => cases hevent

/-- A program that is not in the trace has no history. -/
theorem historyOf_eq_nil (h : ∀ x ∈ trace, x.1 ≠ i) : historyOf trace i = [] := by
  simp only [historyOf, List.filterMap_eq_nil_iff]
  intro x hx
  simp [h x hx]

end History

variable {S : System}

/-! ## Configurations of programs -/

/-- The shared state, the started programs and the trace.  A program that is
`none` has stopped for good. -/
structure Config (S : System) where
  /-- The shared state. -/
  state : S.State
  /-- The started entries with what is left of their programs. -/
  procs : List (S.Entry × Option (Program S.interface S.Err Unit))
  /-- The served requests, newest first. -/
  trace : List (Nat × Event S.interface)

/-- One step of a configuration. -/
inductive Step (S : System) : Config S → Config S → Prop where
  | spawn (c : Config S) (e : S.Entry) :
      Step S c { c with procs := c.procs ++ [(e, some (S.body e))] }
  | exec {c : Config S} {i : Nat} {e : S.Entry} {o : S.interface.Op}
      {next : S.interface.Ans o → Program S.interface S.Err Unit}
      {a : S.interface.Ans o} {s' : S.State} :
      c.procs[i]? = some (e, some (.ask o next)) →
      S.serve c.state o a s' →
      Step S c ⟨s', c.procs.set i (e, some (next a)), (i, ⟨o, a⟩) :: c.trace⟩
  | crash {c : Config S} {i : Nat} {e : S.Entry}
      {p : Option (Program S.interface S.Err Unit)} :
      S.crashes →
      c.procs[i]? = some (e, p) →
      Step S c { c with procs := c.procs.set i (e, none) }
  | env {c : Config S} {s' : S.State} :
      S.env c.state s' →
      Step S c { c with state := s' }

/-- A configuration some run reaches. -/
inductive Reachable (S : System) : Config S → Prop where
  | init {s : S.State} : S.init s → Reachable S ⟨s, [], []⟩
  | step {c c' : Config S} : Reachable S c → Step S c c' → Reachable S c'

/-- A run between two configurations. -/
abbrev Run (S : System) : Config S → Config S → Prop := Relation.ReflTransGen (Step S)

theorem Reachable.run {c c' : Config S} (h : Reachable S c) (hr : Run S c c') :
    Reachable S c' := by
  induction hr with
  | refl => exact h
  | tail _ hs ih => exact ih.step hs

/-- Every event of the trace is of a started program. -/
theorem Reachable.trace_lt {c : Config S} (h : Reachable S c) :
    ∀ x ∈ c.trace, x.1 < c.procs.length := by
  induction h with
  | init _ => intro x hx; cases hx
  | step _ hs ih =>
      cases hs with
      | spawn e =>
          intro x hx
          have := ih x hx
          simp only [List.length_append, List.length_cons, List.length_nil]
          omega
      | exec hp _ =>
          intro x hx
          rw [List.length_set]
          cases hx with
          | head => exact (List.getElem?_eq_some_iff.mp hp).1
          | tail _ hx => exact ih x hx
      | crash _ _ => intro x hx; rw [List.length_set]; exact ih x hx
      | env _ => exact ih

/-- The program at a position is the rest of a started one, if none ever stops. -/
theorem Reachable.running (hc : ¬ S.crashes) {c : Config S} (h : Reachable S c) :
    ∀ x ∈ c.procs, x.2 ≠ none := by
  induction h with
  | init _ => intro x hx; cases hx
  | step _ hs ih =>
      cases hs with
      | spawn e =>
          intro x hx
          rcases List.mem_append.mp hx with hx | hx
          · exact ih x hx
          · rw [List.mem_singleton.mp hx]
            nofun
      | exec _ _ =>
          intro x hx
          rcases List.mem_or_eq_of_mem_set hx with hx | rfl
          · exact ih x hx
          · nofun
      | crash hcrash _ => exact absurd hcrash hc
      | env _ => exact ih

/-- A run whose steps all meet a condition. -/
abbrev RunIf (S : System) (K : Config S → Config S → Prop) : Config S → Config S → Prop :=
  Relation.ReflTransGen fun c c' => Step S c c' ∧ K c c'

theorem RunIf.run {K : Config S → Config S → Prop} {c c' : Config S} (h : RunIf S K c c') :
    Run S c c' := Relation.ReflTransGen.mono (fun _ _ hs => hs.1) _ _ h

/-- The rule for what steps keep that meet a condition. -/
theorem RunIf.rule {K : Config S → Config S → Prop} {P : Config S → Prop} {c c' : Config S}
    (h : RunIf S K c c') (hc : Reachable S c) (start : P c)
    (step : ∀ a b, Reachable S a → P a → Step S a b → K a b → P b) : P c' := by
  induction h with
  | refl => exact start
  | tail hrun hs ih => exact step _ _ (hc.run (RunIf.run hrun)) ih hs.1 hs.2

/-! ## Guarded configurations -/

namespace Guarded

/-- A configuration without its programs. -/
structure View (S : System) where
  /-- The shared state. -/
  state : S.State
  /-- The started entries. -/
  entries : List S.Entry
  /-- The served requests, newest first. -/
  trace : List (Nat × Event S.interface)

/-- One step of a view: a started entry makes a request its guarantee allows
after its own history, and gets an answer allowed by `R`. -/
inductive Step (S : System) (R : (o : S.interface.Op) → S.interface.Ans o → Prop)
    (G : S.Entry → History S.interface → S.interface.Op → Prop) :
    View S → View S → Prop where
  | spawn (v : View S) (e : S.Entry) :
      Step S R G v { v with entries := v.entries ++ [e] }
  | exec {v : View S} {i : Nat} {e : S.Entry} {o : S.interface.Op}
      {a : S.interface.Ans o} {s' : S.State} :
      v.entries[i]? = some e →
      G e (historyOf v.trace i) o →
      R o a →
      S.serve v.state o a s' →
      Step S R G v ⟨s', v.entries, (i, ⟨o, a⟩) :: v.trace⟩
  | env {v : View S} {s' : S.State} :
      S.env v.state s' →
      Step S R G v { v with state := s' }

/-- A view some guarded run reaches. -/
inductive Reachable (S : System) (R : (o : S.interface.Op) → S.interface.Ans o → Prop)
    (G : S.Entry → History S.interface → S.interface.Op → Prop) : View S → Prop where
  | init {s : S.State} : S.init s → Reachable S R G ⟨s, [], []⟩
  | step {v v' : View S} : Reachable S R G v → Step S R G v v' → Reachable S R G v'

section

variable {R : (o : S.interface.Op) → S.interface.Ans o → Prop}
  {G G' : S.Entry → History S.interface → S.interface.Op → Prop}

/-- A weaker guarantee allows more runs. -/
theorem Reachable.mono (hG : ∀ e h o, G e h o → G' e h o) {v : View S}
    (h : Reachable S R G v) : Reachable S R G' v := by
  induction h with
  | init hi => exact .init hi
  | step _ hs ih =>
      refine ih.step ?_
      cases hs with
      | spawn e => exact .spawn _ e
      | exec he hg ha hserve => exact .exec he (hG _ _ _ hg) ha hserve
      | env hs => exact .env hs

/-- Every event is of a started entry. -/
theorem Reachable.entry {v : View S} (h : Reachable S R G v) {i : Nat} {ev : Event S.interface}
    (hev : (i, ev) ∈ v.trace) : ∃ e, v.entries[i]? = some e := by
  induction h with
  | init _ => cases hev
  | step _ hs ih =>
      cases hs with
      | spawn e0 =>
          obtain ⟨e, he⟩ := ih hev
          exact ⟨e, (List.getElem?_append_left (List.getElem?_eq_some_iff.mp he).1).trans he⟩
      | @exec k e0 _ _ _ he _ _ _ =>
          rcases List.mem_cons.mp hev with heq | hev
          · cases heq
            exact ⟨e0, he⟩
          · exact ih hev
      | env _ => exact ih hev

/-- Every request of a history was allowed after the part of it that is older, and its
answer was allowed. -/
theorem Reachable.made {v : View S} (h : Reachable S R G v) {i : Nat} {e : S.Entry}
    (he : v.entries[i]? = some e) {ev : Event S.interface} {past : History S.interface}
    (hpast : ev :: past <:+ historyOf v.trace i) : G e past ev.1 ∧ R ev.1 ev.2 := by
  induction h generalizing e with
  | init _ => cases List.suffix_nil.mp hpast
  | @step v _ hr hs ih =>
      cases hs with
      | spawn e0 =>
          obtain ⟨e', he'⟩ := hr.entry (mem_historyOf.mp (hpast.subset (.head _)))
          have hsame : (v.entries ++ [e0])[i]? = some e' :=
            (List.getElem?_append_left (List.getElem?_eq_some_iff.mp he').1).trans he'
          cases hsame.symm.trans he
          exact ih he' hpast
      | @exec k e0 o a s' hk hg ha _ =>
          by_cases hik : i = k
          · subst hik
            rw [historyOf_cons_self] at hpast
            rcases List.suffix_cons_iff.mp hpast with heq | hpast
            · cases heq
              cases hk.symm.trans he
              exact ⟨hg, ha⟩
            · exact ih he hpast
          · rw [historyOf_cons_ne (Ne.symm hik)] at hpast
            exact ih he hpast
      | env _ => exact ih he hpast

end

end Guarded

/-- A configuration without its programs. -/
def Config.view (c : Config S) : Guarded.View S := ⟨c.state, c.procs.map Prod.fst, c.trace⟩

section Guarantee

variable {R : (o : S.interface.Op) → S.interface.Ans o → Prop}
  {G : S.Entry → History S.interface → S.interface.Op → Prop}
  {Q : S.Entry → History S.interface → Except S.Err Unit → Prop}

/-- Every entry program meets its guarantee from an empty history. -/
def Meets (S : System) (R : (o : S.interface.Op) → S.interface.Ans o → Prop)
    (G : S.Entry → History S.interface → S.interface.Op → Prop)
    (Q : S.Entry → History S.interface → Except S.Err Unit → Prop) : Prop :=
  (∀ e, (S.body e).Sat R (G e) [] (Q e)) ∧ ∀ s o a s', S.serve s o a s' → R o a

/-- Two guarantees at once. -/
theorem Meets.and {G' : S.Entry → History S.interface → S.interface.Op → Prop}
    {Q' : S.Entry → History S.interface → Except S.Err Unit → Prop} (hm : Meets S R G Q)
    (hm' : Meets S R G' Q') :
    Meets S R (fun e h o => G e h o ∧ G' e h o) fun e h x => Q e h x ∧ Q' e h x :=
  ⟨fun e => (hm.1 e).and (hm'.1 e), hm.2⟩

/-- What is left of a program meets the guarantee after its history. -/
theorem Reachable.sat (hm : Meets S R G Q) {c : Config S} (h : Reachable S c) :
    ∀ {i : Nat} {e : S.Entry} {p : Program S.interface S.Err Unit},
      c.procs[i]? = some (e, some p) → p.Sat R (G e) (historyOf c.trace i) (Q e) := by
  induction h with
  | init _ => intro i e p hp; cases hp
  | @step c _ hr hs ih =>
      cases hs with
      | spawn e0 =>
          intro i e p hp
          rw [List.getElem?_append] at hp
          split at hp
          next => exact ih hp
          next hge =>
            obtain ⟨_, hget⟩ := List.getElem?_eq_some_iff.mp hp
            have heq : (e0, some (S.body e0)) = (e, some p) := by
              simpa using hget
            cases heq
            rw [historyOf_eq_nil fun x hx => by have := hr.trace_lt x hx; omega]
            exact hm.1 e0
      | @exec k e0 o next a s' hk hserve =>
          intro i e p hp
          rw [List.getElem?_set] at hp
          split at hp
          next hki =>
            subst hki
            split at hp
            next =>
              cases hp
              rw [historyOf_cons_self]
              exact (ih hk).2 a (hm.2 _ _ _ _ hserve)
            next => cases hp
          next hki =>
            rw [historyOf_cons_ne hki]
            exact ih hp
      | @crash k e0 p0 _ hk =>
          intro i e p hp
          rw [List.getElem?_set] at hp
          split at hp
          next => split at hp <;> cases hp
          next => exact ih hp
      | env _ => exact ih

/-- A request that is served was allowed by the guarantee. -/
theorem Reachable.allowed (hm : Meets S R G Q) {c : Config S} (h : Reachable S c)
    {i : Nat} {e : S.Entry} {o : S.interface.Op}
    {next : S.interface.Ans o → Program S.interface S.Err Unit}
    (hp : c.procs[i]? = some (e, some (.ask o next))) : G e (historyOf c.trace i) o :=
  (h.sat hm hp).1

/-- A program that has ended ended as its guarantee promises. -/
theorem Reachable.ended (hm : Meets S R G Q) {c : Config S} (h : Reachable S c)
    {i : Nat} {e : S.Entry} {x : Except S.Err Unit}
    (hp : c.procs[i]? = some (e, some (.done x))) : Q e (historyOf c.trace i) x :=
  h.sat hm hp

/-- Replacing the program of an entry leaves the list of entries alone. -/
theorem map_fst_set {α β : Type} {l : List (α × β)} {i : Nat} {a : α} {b : β}
    (h : l[i]? = some (a, b)) (b' : β) : (l.set i (a, b')).map Prod.fst = l.map Prod.fst := by
  obtain ⟨hlt, hget⟩ := List.getElem?_eq_some_iff.mp h
  rw [List.map_set]
  refine List.ext_getElem? fun k => ?_
  rw [List.getElem?_set]
  split
  next hik => subst hik; simp [hlt, hget]
  next => rfl

/-- A step of programs that meet their guarantees is a guarded step, or leaves
the view as it is. -/
theorem Step.guarded (hm : Meets S R G Q) {c c' : Config S} (h : Reachable S c)
    (hs : Step S c c') : Guarded.Step S R G c.view c'.view ∨ c'.view = c.view := by
  cases hs with
  | spawn e =>
      left
      have := Guarded.Step.spawn (R := R) (G := G) c.view e
      simpa [Config.view] using this
  | @exec i e o next a s' hp hserve =>
      left
      have hentry : c.view.entries[i]? = some e := by
        simp [Config.view, hp]
      have hset := map_fst_set hp (some (next a))
      have := Guarded.Step.exec (S := S) hentry (h.allowed hm hp) (hm.2 _ _ _ _ hserve) hserve
      simpa [Config.view, hset] using this
  | @crash i e p _ hp =>
      right
      simp [Config.view, map_fst_set hp none]
  | env hs => left; exact .env hs

/-- A run of programs that meet their guarantees is a guarded run. -/
theorem Reachable.guarded (hm : Meets S R G Q) {c : Config S} (h : Reachable S c) :
    Guarded.Reachable S R G c.view := by
  induction h with
  | init hi => exact .init hi
  | step hr hs ih =>
      rcases hs.guarded hm hr with hstep | heq
      · exact ih.step hstep
      · exact heq ▸ ih

end Guarantee

end Resumption
