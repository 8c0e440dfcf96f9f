import Buyback.Resumption.Interleave

/-!
# Scripted runs

A run played by hand.  A `Player` answers the requests of a system and changes its
state, by choices.  A script is a list of moves, and `play` runs it.  Whatever a
script reaches is reachable, so a concrete run is checked by evaluating its
script.
-/

namespace Resumption

/-- Answers to the requests of a system, by choices, and changes of its state. -/
structure Player (S : System) where
  /-- What a move picks. -/
  Choice : Type
  /-- An answer to a request, and the state after it. -/
  answer : Choice → S.State → (o : S.interface.Op) → Option (S.interface.Ans o × S.State)
  /-- The state after it changed by itself. -/
  change : Choice → S.State → Option S.State
  answer_serve : ∀ {x s o a s'}, answer x s o = some (a, s') → S.serve s o a s'
  change_env : ∀ {x s s'}, change x s = some s' → S.env s s'

/-- A move of a script. -/
inductive Move {S : System} (P : Player S) : Type where
  /-- Start an entry. -/
  | spawn (e : S.Entry)
  /-- Serve the next request of a program, if it has one. -/
  | serve (i : ℕ) (x : P.Choice)
  /-- Change the state. -/
  | change (x : P.Choice)

variable {S : System} {P : Player S}

/-- One move. -/
def Config.move (P : Player S) (c : Config S) : Move P → Option (Config S)
  | .spawn e => some { c with procs := c.procs ++ [(e, some (S.body e))] }
  | .serve i x =>
      match c.procs[i]? with
      | some (e, some (.ask o next)) =>
          (P.answer x c.state o).map fun y =>
            ⟨y.2, c.procs.set i (e, some (next y.1)), (i, ⟨o, y.1⟩) :: c.trace⟩
      | _ => some c
  | .change x => (P.change x c.state).map fun s => { c with state := s }

/-- The moves of a script in turn. -/
def Config.play (P : Player S) (c : Config S) : List (Move P) → Option (Config S)
  | [] => some c
  | m :: ms => (c.move P m).bind fun c => c.play P ms

/-- The moves of a script in turn, while a test passes. -/
def Config.playIf (P : Player S) (test : Config S → Config S → Bool) (c : Config S) :
    List (Move P) → Option (Config S)
  | [] => some c
  | m :: ms => (c.move P m).bind fun c' => if test c c' then c'.playIf P test ms else none

/-- A move is one step, or changes nothing. -/
theorem Config.move_step {c c' : Config S} {m : Move P} (h : c.move P m = some c') :
    c' = c ∨ Step S c c' := by
  cases m with
  | spawn e =>
      cases h
      exact .inr (.spawn c e)
  | serve i x =>
      simp only [Config.move] at h
      split at h
      next e o next hp =>
        obtain ⟨⟨a, s'⟩, ha, rfl⟩ := Option.map_eq_some_iff.mp h
        exact .inr (.exec hp (P.answer_serve ha))
      next =>
        cases h
        exact .inl rfl
  | change x =>
      obtain ⟨s', hs, rfl⟩ := Option.map_eq_some_iff.mp h
      exact .inr (.env (P.change_env hs))

theorem Config.move_run {c c' : Config S} {m : Move P} (h : c.move P m = some c') :
    Run S c c' := by
  rcases Config.move_step h with rfl | hs
  · exact .refl
  · exact .single hs

theorem Config.play_run {c c' : Config S} {ms : List (Move P)} (h : c.play P ms = some c') :
    Run S c c' := by
  induction ms generalizing c with
  | nil => cases h; exact .refl
  | cons m ms ih =>
      obtain ⟨c₁, hm, hms⟩ := Option.bind_eq_some_iff.mp h
      exact (Config.move_run hm).trans (ih hms)

/-- A script whose moves pass a test is a run whose steps meet a condition. -/
theorem Config.playIf_run {K : Config S → Config S → Prop} {test : Config S → Config S → Bool}
    (hK : ∀ c c', test c c' = true → K c c') {c c' : Config S} {ms : List (Move P)}
    (h : c.playIf P test ms = some c') : RunIf S K c c' := by
  induction ms generalizing c with
  | nil => cases h; exact .refl
  | cons m ms ih =>
      obtain ⟨c₁, hm, hms⟩ := Option.bind_eq_some_iff.mp h
      split_ifs at hms with htest
      rcases Config.move_step hm with rfl | hs
      · exact ih hms
      · exact .head ⟨hs, hK _ _ htest⟩ (ih hms)

/-- A move that serves a request is one step, with one more event. -/
theorem Config.move_serve {c c' : Config S} {i : ℕ} {x : P.Choice}
    (h : c.move P (.serve i x) = some c') (hlt : c.trace.length < c'.trace.length) :
    Step S c c' ∧ ∃ ev, c'.trace = (i, ev) :: c.trace := by
  simp only [Config.move] at h
  split at h
  next e o next hp =>
    obtain ⟨⟨a, s'⟩, ha, rfl⟩ := Option.map_eq_some_iff.mp h
    exact ⟨.exec hp (P.answer_serve ha), _, rfl⟩
  next =>
    cases h
    exact absurd hlt (Nat.lt_irrefl _)

/-- What a script reaches from a state a run may start in is reachable. -/
theorem Reachable.play {s : S.State} (hs : S.init s) {ms : List (Move P)} {c : Config S}
    (h : Config.play P ⟨s, [], []⟩ ms = some c) : Reachable S c :=
  (Reachable.init hs).run (Config.play_run h)

/-- A script whose end passes a test reaches a configuration that passes it. -/
theorem Config.play_any {c : Config S} {ms : List (Move P)} {test : Config S → Bool}
    (h : (c.play P ms).any test = true) : ∃ c', c.play P ms = some c' ∧ test c' = true := by
  cases hplay : c.play P ms with
  | none => rw [hplay] at h; cases h
  | some c' =>
      rw [hplay] at h
      exact ⟨c', rfl, h⟩

end Resumption
