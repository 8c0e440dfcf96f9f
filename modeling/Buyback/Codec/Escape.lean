import Buyback.Codec.Hex
import Buyback.Codec.Split

/-!
# Quoted text

A text between quotation marks, with escapes for the characters that would end it, for
some control characters, and for the characters of a given set, which are written as
hexadecimal code points.  Two texts that are quoted alike are the same.
-/

namespace Escape

/-- The characters with a short escape, and its letter. -/
def shorts : List (Char × Char) :=
  [('\x00', '0'), ('\t', 't'), ('\r', 'r'), ('\n', 'n'), ('"', '"'), ('\\', '\\')]

/-- One character of a quoted text. -/
def char (hidden : Char → Bool) (c : Char) : List Char :=
  match shorts.lookup c with
  | some e => ['\\', e]
  | none =>
      if hidden c then '\\' :: 'u' :: '\x7b' :: (Nat.toDigits 16 c.toNat ++ ['\x7d']) else [c]

/-- The quoted text. -/
def quote (hidden : Char → Bool) (cs : List Char) : List Char :=
  '"' :: (cs.flatMap (char hidden) ++ ['"'])

variable {hidden : Char → Bool} {c d e : Char} {x y cs ds : List Char} {n m : ℕ}

/-! ## Code points -/

/-- The number that hexadecimal digits write. -/
def point (cs : List Char) : ℕ := cs.foldl (fun n c => 16 * n + (Hex.value c).getD 0) 0

theorem point_append : point (cs ++ [c]) = 16 * point cs + (Hex.value c).getD 0 := by
  rw [point, List.foldl_append]
  rfl

theorem point_toDigits (n : ℕ) : point (Nat.toDigits 16 n) = n := by
  induction n using Nat.strong_induction_on with
  | _ n ih =>
      rw [Nat.toDigits_eq_if (by omega)]
      split
      next h => rw [← List.nil_append [_], point_append, Hex.value_digitChar h]; simp [point]
      next h =>
        rw [point_append, Hex.value_digitChar (Nat.mod_lt _ (by omega)), ih _ (by omega)]
        simp only [Option.getD_some]
        omega

/-- No brace stands among hexadecimal digits. -/
theorem brace_notMem_toDigits (n : ℕ) : '\x7d' ∉ Nat.toDigits 16 n := by
  have hdigit {d : ℕ} (h : d < 16) : '\x7d' ≠ Nat.digitChar d :=
    (by decide : ∀ d : Fin 16, '\x7d' ≠ Nat.digitChar d) ⟨d, h⟩
  induction n using Nat.strong_induction_on with
  | _ n ih =>
      rw [Nat.toDigits_eq_if (by omega)]
      split
      next h => exact fun hmem => hdigit h (List.mem_singleton.mp hmem)
      next h =>
        intro hmem
        rcases List.mem_append.mp hmem with hmem | hmem
        · exact ih _ (by omega) hmem
        · exact hdigit (Nat.mod_lt _ (by omega)) (List.mem_singleton.mp hmem)

/-- What follows a code point is found behind its brace. -/
theorem toDigits_append_inj
    (h : Nat.toDigits 16 n ++ '\x7d' :: x = Nat.toDigits 16 m ++ '\x7d' :: y) : n = m ∧ x = y := by
  have honce := congrArg (Split.once ['\x7d']) h
  rw [Split.once_singleton (brace_notMem_toDigits n),
    Split.once_singleton (brace_notMem_toDigits m), Option.some.injEq, Prod.mk.injEq] at honce
  refine ⟨?_, honce.2⟩
  rw [← point_toDigits n, honce.1, point_toDigits]

/-! ## Characters -/

theorem mem_of_lookup {l : List (Char × Char)} (h : l.lookup c = some e) : (c, e) ∈ l := by
  obtain ⟨l₁, l₂, rfl, -⟩ := List.lookup_eq_some_iff.mp h
  exact List.mem_append_right _ (.head _)

/-- A short escape is no code point, and its letter tells the character. -/
theorem letter_eq (hc : shorts.lookup c = some e) :
    e ≠ 'u' ∧ ∀ d, shorts.lookup d = some e → c = d := by
  have hall : ∀ p ∈ shorts, p.2 ≠ 'u' ∧ ∀ q ∈ shorts, q.2 = p.2 → p.1 = q.1 := by decide
  obtain ⟨hu, heq⟩ := hall _ (mem_of_lookup hc)
  exact ⟨hu, fun d hd => heq _ (mem_of_lookup hd) rfl⟩

/-- A character that stands for itself, starts no escape and ends no text. -/
theorem ne_of_lookup (h : shorts.lookup c = none) : c ≠ '\\' ∧ c ≠ '"' := by
  constructor
  · rintro rfl
    cases h
  · rintro rfl
    cases h

/-- The three ways to write a character. -/
inductive Form (c : Char) : List Char → Prop where
  | letter {e : Char} : shorts.lookup c = some e → Form c ['\\', e]
  | point : Form c ('\\' :: 'u' :: '\x7b' :: (Nat.toDigits 16 c.toNat ++ ['\x7d']))
  | plain : c ≠ '\\' → c ≠ '"' → Form c [c]

theorem char_form (hidden : Char → Bool) (c : Char) : Form c (char hidden c) := by
  unfold char
  split
  next e h => exact .letter h
  next h =>
    obtain ⟨hback, hquote⟩ := ne_of_lookup h
    split
    · exact .point
    · exact .plain hback hquote

/-- The text of one character ends where that of the next begins. -/
theorem Form.append_inj {s t : List Char} (hs : Form c s) (ht : Form d t) (h : s ++ x = t ++ y) :
    c = d ∧ x = y := by
  cases hs with
  | letter he =>
      obtain ⟨hu, heq⟩ := letter_eq he
      cases ht with
      | letter he' =>
          cases h
          exact ⟨heq _ he', rfl⟩
      | point =>
          cases h
          exact absurd rfl hu
      | plain hback _ =>
          cases h
          exact absurd rfl hback
  | point =>
      cases ht with
      | letter he' =>
          cases h
          exact absurd rfl (letter_eq he').1
      | point =>
          simp only [List.cons_append, List.append_assoc, List.nil_append, List.cons.injEq,
            true_and] at h
          obtain ⟨hpoint, hrest⟩ := toDigits_append_inj h
          exact ⟨Char.toNat_inj.mp hpoint, hrest⟩
      | plain hback _ =>
          cases h
          exact absurd rfl hback
  | plain hback _ =>
      cases ht with
      | letter _ =>
          cases h
          exact absurd rfl hback
      | point =>
          cases h
          exact absurd rfl hback
      | plain _ _ =>
          cases h
          exact ⟨rfl, rfl⟩

/-- No character is written like the closing mark. -/
theorem Form.ne_mark {s : List Char} (hs : Form c s) : s ++ x ≠ '"' :: y := by
  intro h
  cases hs with
  | letter _ => cases h
  | point => cases h
  | plain _ hquote =>
      cases h
      exact hquote rfl

/-- Two texts that are quoted alike are the same. -/
theorem quote_inj (h : quote hidden cs = quote hidden ds) : cs = ds := by
  have hbody := (List.cons.inj h).2
  clear h
  induction cs generalizing ds with
  | nil =>
      cases ds with
      | nil => rfl
      | cons d ds =>
          rw [List.flatMap_cons, List.append_assoc] at hbody
          exact absurd hbody.symm (char_form hidden d).ne_mark
  | cons c cs ih =>
      cases ds with
      | nil =>
          rw [List.flatMap_cons, List.append_assoc] at hbody
          exact absurd hbody (char_form hidden c).ne_mark
      | cons d ds =>
          rw [List.flatMap_cons, List.flatMap_cons, List.append_assoc, List.append_assoc] at hbody
          obtain ⟨rfl, hrest⟩ := (char_form hidden c).append_inj (char_form hidden d) hbody
          rw [ih hrest]

end Escape
