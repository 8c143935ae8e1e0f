import Mathlib.Data.List.Induction
import Peg.Arithmetic

/-!
# Peg.Proofs.Arithmetic.Language

The language of sums, products and parentheses as an ordinary context-free grammar.

* `Phrase ops sym w x`: the word `w` is a phrase of the symbol `sym`, and `x` is its value. There is
  one constructor for each production. Operators of one level group to the left.
* `Word ops w`: `w` is a sum.
* `Phrase.grow_digit`, `Phrase.grow_product`: what can be written behind a phrase so that it stays one.
-/

namespace Peg
namespace Arithmetic

variable {α : Type}

inductive Symbol where
  | digits
  | number
  | terminal
  | timesDivision
  | plusMinus

def Spaces (u : List Char) : Prop := ∀ ch ∈ u, CharClass.isSpace (some ch) = true

inductive Phrase (ops : Ops α) : Symbol → List Char → α → Prop
  | digit {d : Char} : CharClass.isDigit (some d) = true →
      Phrase ops .digits [d]
        (ops.add (ops.mul (ops.ofNat 0) (ops.ofNat 10)) (ops.ofNat (digitOf d)))
  | moreDigits {w : List Char} {x : α} {d : Char} :
      Phrase ops .digits w x → CharClass.isDigit (some d) = true →
      Phrase ops .digits (w ++ [d]) (ops.add (ops.mul x (ops.ofNat 10)) (ops.ofNat (digitOf d)))
  | unsigned {w : List Char} {x : α} : Phrase ops .digits w x → Phrase ops .number w x
  | signed {w : List Char} {x : α} :
      Phrase ops .digits w x → Phrase ops .number ('-' :: w) (ops.neg x)
  | number {w : List Char} {x : α} : Phrase ops .number w x → Phrase ops .terminal w x
  | paren {w : List Char} {x : α} :
      Phrase ops .plusMinus w x → Phrase ops .terminal ('(' :: (w ++ [')'])) x
  | factor {w : List Char} {x : α} : Phrase ops .terminal w x → Phrase ops .timesDivision w x
  | times {w u v w' : List Char} {x y : α} :
      Phrase ops .timesDivision w x → Spaces u → Spaces v → Phrase ops .terminal w' y →
      Phrase ops .timesDivision (w ++ (u ++ '*' :: (v ++ w'))) (ops.mul x y)
  | divide {w u v w' : List Char} {x y : α} :
      Phrase ops .timesDivision w x → Spaces u → Spaces v → Phrase ops .terminal w' y →
      Phrase ops .timesDivision (w ++ (u ++ '/' :: (v ++ w'))) (ops.div x y)
  | term {w : List Char} {x : α} : Phrase ops .timesDivision w x → Phrase ops .plusMinus w x
  | plus {w u v w' : List Char} {x y : α} :
      Phrase ops .plusMinus w x → Spaces u → Spaces v → Phrase ops .timesDivision w' y →
      Phrase ops .plusMinus (w ++ (u ++ '+' :: (v ++ w'))) (ops.add x y)
  | minus {w u v w' : List Char} {x y : α} :
      Phrase ops .plusMinus w x → Spaces u → Spaces v → Phrase ops .timesDivision w' y →
      Phrase ops .plusMinus (w ++ (u ++ '-' :: (v ++ w'))) (ops.sub x y)

def Word (ops : Ops α) (w : List Char) : Prop := ∃ x, Phrase ops .plusMinus w x

/-! ## Digits -/

theorem not_isSpace_of_isDigit {d : Char} (h : CharClass.isDigit (some d) = true) :
    CharClass.isSpace (some d) = false := by
  by_contra hs
  simp only [CharClass.isSpace, Bool.not_eq_false, Bool.or_eq_true, beq_iff_eq] at hs
  rcases hs with ((rfl | rfl) | rfl) | rfl <;> exact absurd h (by decide)

theorem not_isDigit_of_isSpace {ch : Char} (h : CharClass.isSpace (some ch) = true) :
    CharClass.isDigit (some ch) = false := by
  by_contra hd
  rw [Bool.not_eq_false] at hd
  rw [not_isSpace_of_isDigit hd] at h
  cases h

theorem magnitude_snoc (ops : Ops α) (ds : List Char) (d : Char) :
    magnitude ops (ds ++ [d]) =
      ops.add (ops.mul (magnitude ops ds) (ops.ofNat 10)) (ops.ofNat (digitOf d)) := by
  simp [magnitude]

variable {ops : Ops α} {sym : Symbol} {w : List Char} {x : α}

theorem phrase_digits_iff :
    Phrase ops .digits w x ↔
      w ≠ [] ∧ (∀ d ∈ w, CharClass.isDigit (some d) = true) ∧ x = magnitude ops w := by
  constructor
  · intro h
    generalize hs : Symbol.digits = sym at h
    induction h with
    | digit hd => exact ⟨by simp, by simpa using hd, rfl⟩
    | @moreDigits w x d _ hd ih =>
      obtain ⟨-, hall, rfl⟩ := ih hs
      refine ⟨by simp, ?_, (magnitude_snoc ops w d).symm⟩
      intro e he
      rcases List.mem_append.1 he with he | he
      · exact hall e he
      · rw [List.mem_singleton.1 he]
        exact hd
    | _ => cases hs
  · rintro ⟨hne, hall, rfl⟩
    induction w using List.reverseRecOn with
    | nil => exact absurd rfl hne
    | append_singleton w d ih =>
      have hd : CharClass.isDigit (some d) = true := hall d (by simp)
      by_cases hw : w = []
      · subst hw
        exact .digit hd
      · rw [magnitude_snoc]
        exact .moreDigits (ih hw fun e he => hall e (by simp [he])) hd

/-! ## Values of numbers -/

theorem ofSignDigits_none (ds : List Char) :
    ofSignDigits ops (.pair .none (.list (ds.map .char))) = .num (magnitude ops ds) := by
  simp [ofSignDigits, Value.chars_list_char]

theorem ofSignDigits_some (v : Value α) (ds : List Char) :
    ofSignDigits ops (.pair (.some v) (.list (ds.map .char))) =
      .num (ops.neg (magnitude ops ds)) := by
  simp [ofSignDigits, Value.chars_list_char]

namespace Phrase

/-! ## Both ends of a phrase -/

theorem ne_nil (h : Phrase ops sym w x) : w ≠ [] := by
  induction h with
  | unsigned _ ih => exact ih
  | number _ ih => exact ih
  | factor _ ih => exact ih
  | term _ ih => exact ih
  | _ => simp

theorem head_not_isSpace (h : Phrase ops sym w x) (rest : List Char) :
    ∀ ch ∈ (w ++ rest).head?, CharClass.isSpace (some ch) = false := by
  induction h generalizing rest with
  | digit hd =>
    intro ch hch
    cases hch
    exact not_isSpace_of_isDigit hd
  | unsigned _ ih => exact ih rest
  | number _ ih => exact ih rest
  | factor _ ih => exact ih rest
  | term _ ih => exact ih rest
  | signed _ _ =>
    intro ch hch
    cases hch
    rfl
  | paren _ _ =>
    intro ch hch
    cases hch
    rfl
  | moreDigits _ _ ih => rw [List.append_assoc]; exact ih _
  | times _ _ _ _ ih _ => rw [List.append_assoc]; exact ih _
  | divide _ _ _ _ ih _ => rw [List.append_assoc]; exact ih _
  | plus _ _ _ _ ih _ => rw [List.append_assoc]; exact ih _
  | minus _ _ _ _ ih _ => rw [List.append_assoc]; exact ih _

theorem getLast?_operation {u v w' : List Char} (op : Char) (hne : w' ≠ []) :
    (w ++ (u ++ op :: (v ++ w'))).getLast? = w'.getLast? := by
  have hassoc : w ++ (u ++ op :: (v ++ w')) = (w ++ (u ++ op :: v)) ++ w' := by simp
  rw [hassoc, List.getLast?_append, List.getLast?_eq_some_getLast hne, Option.some_or]

/-! ## What can be written behind a phrase -/

/-- A digit can be added to the number at the end. -/
theorem grow_digit (h : Phrase ops sym w x) {d : Char} (hd : CharClass.isDigit (some d) = true)
    (hlast : ∀ e ∈ w.getLast?, CharClass.isDigit (some e) = true) :
    ∃ y, Phrase ops sym (w ++ [d]) y := by
  induction h with
  | digit hd₀ => exact ⟨_, .moreDigits (.digit hd₀) hd⟩
  | moreDigits h hd₀ _ => exact ⟨_, .moreDigits (.moreDigits h hd₀) hd⟩
  | unsigned _ ih =>
    obtain ⟨y, hy⟩ := ih hlast
    exact ⟨y, .unsigned hy⟩
  | signed h ih =>
    rw [List.getLast?_cons_of_ne_nil h.ne_nil] at hlast
    obtain ⟨y, hy⟩ := ih hlast
    exact ⟨_, .signed hy⟩
  | number _ ih =>
    obtain ⟨y, hy⟩ := ih hlast
    exact ⟨y, .number hy⟩
  | paren _ _ =>
    rw [← List.cons_append, List.getLast?_concat] at hlast
    have hclose := hlast ')' rfl
    exact absurd hclose (by decide)
  | factor _ ih =>
    obtain ⟨y, hy⟩ := ih hlast
    exact ⟨y, .factor hy⟩
  | term _ ih =>
    obtain ⟨y, hy⟩ := ih hlast
    exact ⟨y, .term hy⟩
  | times h hu hv h' _ ih =>
    rw [getLast?_operation '*' h'.ne_nil] at hlast
    obtain ⟨y, hy⟩ := ih hlast
    exact ⟨_, by simpa using h.times hu hv hy⟩
  | divide h hu hv h' _ ih =>
    rw [getLast?_operation '/' h'.ne_nil] at hlast
    obtain ⟨y, hy⟩ := ih hlast
    exact ⟨_, by simpa using h.divide hu hv hy⟩
  | plus h hu hv h' _ ih =>
    rw [getLast?_operation '+' h'.ne_nil] at hlast
    obtain ⟨y, hy⟩ := ih hlast
    exact ⟨_, by simpa using h.plus hu hv hy⟩
  | minus h hu hv h' _ ih =>
    rw [getLast?_operation '-' h'.ne_nil] at hlast
    obtain ⟨y, hy⟩ := ih hlast
    exact ⟨_, by simpa using h.minus hu hv hy⟩

section Operations

variable {u v w' : List Char} {op : Char} {y : α}

theorem product (h : Phrase ops .timesDivision w x) (hop : op = '*' ∨ op = '/') (hu : Spaces u)
    (hv : Spaces v) (h' : Phrase ops .terminal w' y) :
    Phrase ops .timesDivision (w ++ (u ++ op :: (v ++ w')))
      ((if op = '*' then ops.mul else ops.div) x y) := by
  rcases hop with rfl | rfl
  · exact h.times hu hv h'
  · exact h.divide hu hv h'

theorem sum (h : Phrase ops .plusMinus w x) (hop : op = '+' ∨ op = '-') (hu : Spaces u)
    (hv : Spaces v) (h' : Phrase ops .timesDivision w' y) :
    Phrase ops .plusMinus (w ++ (u ++ op :: (v ++ w')))
      ((if op = '+' then ops.add else ops.sub) x y) := by
  rcases hop with rfl | rfl
  · exact h.plus hu hv h'
  · exact h.minus hu hv h'

/-- A product behind a sum goes on with the last operand of the sum. -/
theorem grow_product (h : Phrase ops .plusMinus w x) (hop : op = '*' ∨ op = '/') (hu : Spaces u)
    (hv : Spaces v) (h' : Phrase ops .terminal w' y) :
    ∃ z, Phrase ops .plusMinus (w ++ (u ++ op :: (v ++ w'))) z := by
  cases h with
  | term h => exact ⟨_, .term (h.product hop hu hv h')⟩
  | plus h₁ hu₁ hv₁ h₂ =>
    exact ⟨_, by simpa using h₁.plus hu₁ hv₁ (h₂.product hop hu hv h')⟩
  | minus h₁ hu₁ hv₁ h₂ =>
    exact ⟨_, by simpa using h₁.minus hu₁ hv₁ (h₂.product hop hu hv h')⟩

end Operations

end Phrase
end Arithmetic
end Peg
