import Mathlib

/-!
# States and errors

The states of a payment and the errors every module returns (`error.rs`, and the
`PaymentState` of `state.rs`).  `Error.display` is the text of an error, which the
engine stores in a record as its last error.
-/

namespace Buyback

/-- The state of a payment record. -/
inductive PaymentState where
  /-- Waiting for at least the minimum amount on the deposit address. -/
  | pending
  /-- Minimum reached. -/
  | detected
  /-- The deposit wallet holds enough TAO for its sweep fees. -/
  | funded
  /-- All alpha moved to the treasury coldkey. -/
  | swept
  /-- Consolidated, dust returned, callbacks fired. -/
  | settled
  /-- Gave up after the last attempt. -/
  | failed
  /-- Expired below the minimum. -/
  | expired
deriving DecidableEq, Repr

namespace PaymentState

/-- The debug text of a state, as an error prints it. -/
def debug : PaymentState → String
  | .pending => "Pending"
  | .detected => "Detected"
  | .funded => "Funded"
  | .swept => "Swept"
  | .settled => "Settled"
  | .failed => "Failed"
  | .expired => "Expired"

/-- The transition table. -/
def canTransition : PaymentState → PaymentState → Bool
  | .pending, .detected | .pending, .expired | .pending, .failed => true
  | .detected, .funded | .detected, .failed => true
  | .funded, .swept | .funded, .failed => true
  | .swept, .settled | .swept, .failed => true
  | .failed, .detected | .failed, .funded | .failed, .swept => true
  | .expired, .detected => true
  | _, _ => false

end PaymentState

/-- The errors of the crate. -/
inductive Error where
  | chain (text : String)
  | store (text : String)
  | crypto (text : String)
  | config (text : String)
  | invalidTransition (source target : PaymentState)
  | notFound (id : String)
  | conflict (id : String)
  | insufficient (text : String)
  | eventMissing (name : String)
deriving DecidableEq, Repr

/-- The text of an error. -/
def Error.display : Error → String
  | .chain text => "chain: " ++ text
  | .store text => "store: " ++ text
  | .crypto text => "crypto: " ++ text
  | .config text => "config: " ++ text
  | .invalidTransition s t => "invalid state transition " ++ s.debug ++ " -> " ++ t.debug
  | .notFound id => "payment " ++ id ++ " not found"
  | .conflict id => "concurrent update of payment " ++ id
  | .insufficient text => "insufficient funds: " ++ text
  | .eventMissing name => "expected event " ++ name ++ " not found in finalized block"

/-- The result of a fallible operation. -/
abbrev Result (α : Type) : Type := Except Error α

/-- `Option::ok_or`. -/
def okOr {α : Type} (o : Option α) (e : Error) : Result α :=
  match o with
  | some a => .ok a
  | none => .error e

@[simp] theorem okOr_ok {α : Type} {o : Option α} {e : Error} {a : α} :
    okOr o e = .ok a ↔ o = some a := by
  cases o <;> simp [okOr]

theorem okOr_error {α : Type} {o : Option α} {e e' : Error} (h : okOr o e = .error e') :
    e' = e := by
  cases o with
  | none =>
      cases h
      rfl
  | some a => cases h

theorem okOr_isNone {α : Type} {o : Option α} {e e' : Error} (h : okOr o e = .error e') :
    o = none := by
  cases o with
  | none => rfl
  | some a => cases h

/-- A sequence that succeeds, in its two halves. -/
theorem Result.bind_ok {α β : Type} {x : Result α} {f : α → Result β} {b : β}
    (h : (x >>= f) = .ok b) : ∃ a, x = .ok a ∧ f a = .ok b := by
  cases x with
  | ok a => exact ⟨a, rfl, h⟩
  | error e => cases h

/-- A sequence that fails, in the half that fails. -/
theorem Result.bind_error {α β : Type} {x : Result α} {f : α → Result β} {e : Error}
    (h : (x >>= f) = .error e) : x = .error e ∨ ∃ a, x = .ok a ∧ f a = .error e := by
  cases x with
  | ok a => exact .inr ⟨a, rfl, h⟩
  | error e' =>
      cases h
      exact .inl rfl

/-- A sequence whose first half is known. -/
theorem Result.ok_bind {α β : Type} {x : Result α} {f : α → Result β} {a : α} (h : x = .ok a) :
    (x >>= f) = f a := by
  rw [h]
  rfl

theorem Result.bind_eq_ok {α β : Type} {x : Result α} {f : α → Result β} {b : β} :
    (x >>= f) = .ok b ↔ ∃ a, x = .ok a ∧ f a = .ok b :=
  ⟨Result.bind_ok, fun ⟨_, ha, hb⟩ => ha ▸ hb⟩

theorem Result.mapError_ok {ε α : Type} {f : ε → Error} {x : Except ε α} {a : α}
    (h : x.mapError f = .ok a) : x = .ok a := by
  cases x with
  | ok a' =>
      cases h
      rfl
  | error e => cases h

/-- A guard that refuses on a condition. -/
theorem Result.refuse_eq_ok {α : Type} {p : Prop} [Decidable p] {e : Error} {x : Result α} {a : α} :
    (if p then .error e else x) = .ok a ↔ ¬ p ∧ x = .ok a := by
  by_cases h : p
  · rw [if_pos h]
    exact ⟨nofun, fun h' => absurd h h'.1⟩
  · rw [if_neg h]
    exact ⟨fun hx => ⟨h, hx⟩, And.right⟩

end Buyback
