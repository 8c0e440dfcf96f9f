import Mathlib.Data.Set.Basic
import Buyback.Resumption.Program

/-!
# Requests that are made once

Some requests carry a label.  `p.Takes label S` says that on every path the program `p`
makes requests with labels of `S` only, and with each label once.  So a label is a thing
that is used up.  A program that uses none takes `∅`.

Programs in sequence take what both take, as long as they share nothing.  A program that
takes `S` keeps its history free of repeated labels: `Takes.asks` makes a guarantee of it.
-/

namespace Resumption

variable {I : Interface} {ε α β L : Type} {label : I.Op → Option L}

namespace Program

/-- The program makes requests with labels of `S` only, and with each label once. -/
def Takes (label : I.Op → Option L) : Program I ε α → Set L → Prop
  | .done _, _ => True
  | .ask o next, S =>
      (∀ l, label o = some l → l ∈ S) ∧
        ∀ a, (next a).Takes label {l | l ∈ S ∧ label o ≠ some l}

namespace Takes

variable {S T : Set L} {p : Program I ε α}

theorem mono (hp : p.Takes label S) (hsub : S ⊆ T) : p.Takes label T := by
  induction p generalizing S T with
  | done x => trivial
  | ask o next ih =>
      exact ⟨fun l hl => hsub (hp.1 l hl), fun a => ih a (hp.2 a) fun l hl => ⟨hsub hl.1, hl.2⟩⟩

theorem done {x : Except ε α} : (Program.done x : Program I ε α).Takes label S := trivial

/-- A sequence, whose halves share no label. -/
theorem bind {f : α → Program I ε β} (hp : p.Takes label S) (hf : ∀ a, (f a).Takes label T)
    (hdisj : ∀ l ∈ S, l ∉ T) : (p.bind f).Takes label (S ∪ T) := by
  induction p generalizing S with
  | done x =>
      cases x with
      | ok a => exact (hf a).mono Set.subset_union_right
      | error e => trivial
  | ask o next ih =>
      have hsub : {l | l ∈ S ∧ label o ≠ some l} ⊆ S := fun l hl => hl.1
      refine ⟨fun l hl => .inl (hp.1 l hl), fun a => ?_⟩
      refine (ih a (hp.2 a) fun l hl => hdisj l (hsub hl)).mono ?_
      rintro l (⟨hS, hne⟩ | hT)
      · exact ⟨.inl hS, hne⟩
      · exact ⟨.inr hT, fun hl => hdisj l (hp.1 l hl) hT⟩

/-- A sequence that starts without labels. -/
theorem first {f : α → Program I ε β} (hp : p.Takes label ∅) (hf : ∀ a, (f a).Takes label S) :
    (p.bind f).Takes label S :=
  (hp.bind hf fun l hl => absurd hl (Set.notMem_empty l)).mono (Set.empty_union S).subset

/-- A sequence that goes on without labels. -/
theorem last {f : α → Program I ε β} (hp : p.Takes label S) (hf : ∀ a, (f a).Takes label ∅) :
    (p.bind f).Takes label S :=
  (hp.bind hf fun l _ => Set.notMem_empty l).mono (Set.union_empty S).subset

theorem lift {x : Except ε α} {f : α → Program I ε β}
    (hf : ∀ a, x = .ok a → (f a).Takes label S) :
    ((Program.done x).bind f).Takes label S := by
  cases x with
  | ok a => exact hf a rfl
  | error e => trivial

/-- A request without a label. -/
theorem request {o : I.Op} {answer : I.Ans o → Except ε α} {f : α → Program I ε β}
    (ho : label o = none) (hf : ∀ a x, answer a = .ok x → (f x).Takes label S) :
    ((Program.request o answer).bind f).Takes label S := by
  refine ⟨fun l hl => absurd (ho.symm.trans hl) nofun, fun a => ?_⟩
  refine (lift (S := S) fun x hx => hf a x hx).mono fun l hl => ⟨hl, fun hl' => ?_⟩
  exact absurd (ho.symm.trans hl') nofun

theorem plain {o : I.Op} {answer : I.Ans o → Except ε α} (ho : label o = none) :
    (Program.request o answer).Takes label S :=
  ⟨fun _ hl => absurd (ho.symm.trans hl) nofun, fun _ => trivial⟩

/-- A request with a label, after which the label is used up. -/
theorem take {o : I.Op} {l : L} {answer : I.Ans o → Except ε α} {f : α → Program I ε β}
    (ho : label o = some l) (hf : ∀ a, (f a).Takes label ∅) :
    ((Program.request o answer).bind f).Takes label {l} := by
  refine ⟨fun l' hl => Option.some.inj (hl.symm.trans ho), fun a => ?_⟩
  exact (lift fun x _ => hf x).mono (Set.empty_subset _)

theorem ite {c : Prop} [Decidable c] {q : Program I ε α} (hp : c → p.Takes label S)
    (hq : ¬ c → q.Takes label S) : (if c then p else q).Takes label S := by
  split
  next hc => exact hp hc
  next hc => exact hq hc

/-- A program whose error is handed on as a value. -/
theorem attempt (hp : p.Takes label S) : p.attempt.Takes label S := by
  induction p generalizing S with
  | done x => trivial
  | ask o next ih => exact ⟨hp.1, fun a => ih a (hp.2 a)⟩

end Takes

end Program

end Resumption
