import Peg.Proofs.Arithmetic.Chain
import Peg.Proofs.Semantics.Terminates

/-!
# Peg.Proofs.Arithmetic.WellFormed

The rules for sums and products come to an end on every text.

* `wellFormed_body?`: each rule begins with rules in lower slots only, and what is repeated is either
  white space, a digit or a tail, none of them nullable.
* `ends_plusMinus`, `ends_sumTail`, `ends_productTail`: the grammars that follow from it.
-/

namespace Peg
namespace Arithmetic

open Grammar (WellFormed Uses Ends Part Nullable Leftmost)

variable {α : Type} {ops : Ops α} {mark : List Char → List Char → Span}

theorem body?_cases {slot : Nat} {b : Grammar Empty Empty α} (h : body? ops slot = some b) :
    slot = 0 ∧ b = numberBody ops ∨ slot = 1 ∧ b = terminalBody ∨
      slot = 2 ∧ b = timesDivisionBody ops ∨ slot = 3 ∧ b = plusMinusBody ops := by
  match slot, h with
  | 0, h => exact .inl ⟨rfl, (Option.some.inj h).symm⟩
  | 1, h => exact .inr (.inl ⟨rfl, (Option.some.inj h).symm⟩)
  | 2, h => exact .inr (.inr (.inl ⟨rfl, (Option.some.inj h).symm⟩))
  | 3, h => exact .inr (.inr (.inr ⟨rfl, (Option.some.inj h).symm⟩))

section Chains

variable {op₁ op₂ : Char} {operand r : Rule} {byChar : Char → α → α → α}
  {table : Nat → Option (Grammar Empty Empty α)} {h : Grammar Empty Empty α}

theorem part_chain_rule : Part (chain ops op₁ op₂ operand byChar) (.rule r) ↔ r = operand := by
  simp [chain]

theorem part_chain_many0 :
    Part (chain ops op₁ op₂ operand byChar) (.many0 h) ↔
      h = tail op₁ op₂ operand ∨ h = .whitespace := by
  simp [chain, tail, Grammar.whitespace]

theorem not_part_chain_many1 : ¬ Part (chain ops op₁ op₂ operand byChar) (.many1 h) := by
  simp [chain]

theorem not_nullable_tail : ¬ Nullable table (tail op₁ op₂ operand) := by
  simp [tail]

/-- The operators of a tail are read before its operand is. -/
theorem leftmost_chain : Leftmost table (chain ops op₁ op₂ operand byChar) r ↔ r = operand := by
  simp [chain]

theorem not_nullable_of_part_chain (hp : Part (chain ops op₁ op₂ operand byChar) (.many0 h)) :
    ¬ Nullable table h := by
  rcases part_chain_many0.1 hp with rfl | rfl
  · exact not_nullable_tail
  · exact Grammar.not_nullable_whitespace

theorem part_chain_tail :
    Part (chain ops op₁ op₂ operand byChar) (tail op₁ op₂ operand) := by
  simp [chain, tail]

end Chains

theorem wellFormed_body? : WellFormed (body? ops) (.rule plusMinus) := by
  apply WellFormed.of_bodies rfl
  · intro slot b r hb hp
    rcases body?_cases hb with ⟨rfl, rfl⟩ | ⟨rfl, rfl⟩ | ⟨rfl, rfl⟩ | ⟨rfl, rfl⟩
    · simp [numberBody] at hp
    · have hr : r = number ∨ r = plusMinus := by simpa [terminalBody] using hp
      rcases hr with rfl | rfl <;> rfl
    · rw [part_chain_rule.1 hp]
      rfl
    · rw [part_chain_rule.1 hp]
      rfl
  · intro slot b h hb hp
    rcases body?_cases hb with ⟨rfl, rfl⟩ | ⟨rfl, rfl⟩ | ⟨rfl, rfl⟩ | ⟨rfl, rfl⟩
    · simp [numberBody] at hp
    · simp [terminalBody] at hp
    · exact not_nullable_of_part_chain hp
    · exact not_nullable_of_part_chain hp
  · intro slot b h hb hp
    rcases body?_cases hb with ⟨rfl, rfl⟩ | ⟨rfl, rfl⟩ | ⟨rfl, rfl⟩ | ⟨rfl, rfl⟩
    · have hh : h = .single CharClass.isDigit := by simpa [numberBody] using hp
      rw [hh]
      exact Grammar.not_nullable_single
    · simp [terminalBody] at hp
    · exact absurd hp not_part_chain_many1
    · exact absurd hp not_part_chain_many1
  · -- the slots are in the order in which the rules build on each other
    refine ⟨id, fun slot b r hb hr => ?_⟩
    rcases body?_cases hb with ⟨rfl, rfl⟩ | ⟨rfl, rfl⟩ | ⟨rfl, rfl⟩ | ⟨rfl, rfl⟩
    · simp [numberBody] at hr
    · have hr' : r = number := by simpa [terminalBody] using hr
      rw [hr']
      decide
    · rw [leftmost_chain.1 hr]
      decide
    · rw [leftmost_chain.1 hr]
      decide

theorem uses_timesDivision : Uses (body? ops) (.rule plusMinus) (.rule timesDivision) := by
  have hbody : Uses (body? ops) (.rule plusMinus) (plusMinusBody ops) := .body .self rfl
  exact hbody.of_part (part_chain_rule.2 rfl)

theorem ends_plusMinus (cs : List Char) : Ends (body? ops) mark (.rule plusMinus) cs :=
  wellFormed_body?.ends .self

theorem ends_sumTail (cs : List Char) :
    Ends (body? ops) mark (tail '+' '-' timesDivision) cs := by
  have hbody : Uses (body? ops) (.rule plusMinus) (plusMinusBody ops) := .body .self rfl
  exact wellFormed_body?.ends (hbody.of_part part_chain_tail)

theorem ends_productTail (cs : List Char) : Ends (body? ops) mark (tail '*' '/' terminal) cs := by
  have hbody : Uses (body? ops) (.rule plusMinus) (timesDivisionBody ops) :=
    .body uses_timesDivision rfl
  exact wellFormed_body?.ends (hbody.of_part part_chain_tail)

end Arithmetic
end Peg
