import Peg.Grammar.Basic

/-!
# Peg.Proofs.Grammar.Nullable

Which grammars may succeed without reading a character.

* `Nullable body? g`: read off from the way in which `g` is built, with a rule taken for its body.

The analysis is conservative. What it calls nullable need not succeed anywhere, but what it does not
call nullable never succeeds without reading.
-/

namespace Peg
namespace Grammar

variable {α : Type}

inductive Nullable (body? : Nat → Option (Grammar Empty Empty α)) : Grammar Empty Empty α → Prop
  | eof : Nullable body? .eof
  | seq {gs : List (Grammar Empty Empty α)} :
      (∀ g ∈ gs, Nullable body? g) → Nullable body? (.seq gs)
  | alternative {gs : List (Grammar Empty Empty α)} {g : Grammar Empty Empty α} :
      g ∈ gs → Nullable body? g → Nullable body? (.alternative gs)
  | and {a b : Grammar Empty Empty α} :
      Nullable body? a → Nullable body? b → Nullable body? (.and a b)
  | orLeft {a b : Grammar Empty Empty α} : Nullable body? a → Nullable body? (.or a b)
  | orRight {a b : Grammar Empty Empty α} : Nullable body? b → Nullable body? (.or a b)
  | optional {g : Grammar Empty Empty α} : Nullable body? (.optional g)
  | many0 {g : Grammar Empty Empty α} : Nullable body? (.many0 g)
  | many1 {g : Grammar Empty Empty α} : Nullable body? g → Nullable body? (.many1 g)
  | not {g : Grammar Empty Empty α} : Nullable body? (.not g)
  | map {f : Value α → Value α} {g : Grammar Empty Empty α} :
      Nullable body? g → Nullable body? (.map f g)
  | span {g : Grammar Empty Empty α} : Nullable body? g → Nullable body? (.span g)
  /-- The guard of an arm that does not consume reads nothing that counts. -/
  | arm {l : Lookahead (Grammar Empty Empty α) (Value α → Value α)}
      {a : GuardedArm (Grammar Empty Empty α) (Value α → Value α)} :
      a ∈ l.arms → (a.consume = true → Nullable body? a.look) → Nullable body? a.step →
      Nullable body? (.lookahead l)
  | otherwise {l : Lookahead (Grammar Empty Empty α) (Value α → Value α)}
      {g : Grammar Empty Empty α} :
      l.otherwise = some g → Nullable body? g → Nullable body? (.lookahead l)
  | rule {r : Rule} {b : Grammar Empty Empty α} :
      body? r.slot = some b → Nullable body? b → Nullable body? (.rule r)

section Equations

variable {body? : Nat → Option (Grammar Empty Empty α)} {g a b : Grammar Empty Empty α}
  {gs : List (Grammar Empty Empty α)}

@[simp] theorem not_nullable_single {test : Option Char → Bool} :
    ¬ Nullable body? (.single test) := by
  intro h
  cases h

@[simp] theorem nullable_eof : Nullable body? (.eof : Grammar Empty Empty α) := .eof

@[simp] theorem nullable_seq : Nullable body? (.seq gs) ↔ ∀ g ∈ gs, Nullable body? g := by
  constructor
  · intro h
    cases h with
    | seq h => exact h
  · exact .seq

@[simp] theorem nullable_alternative :
    Nullable body? (.alternative gs) ↔ ∃ g ∈ gs, Nullable body? g := by
  constructor
  · intro h
    cases h with
    | alternative hm h => exact ⟨_, hm, h⟩
  · rintro ⟨g, hm, h⟩
    exact .alternative hm h

@[simp] theorem nullable_and : Nullable body? (.and a b) ↔ Nullable body? a ∧ Nullable body? b := by
  constructor
  · intro h
    cases h with
    | and ha hb => exact ⟨ha, hb⟩
  · rintro ⟨ha, hb⟩
    exact .and ha hb

@[simp] theorem nullable_or : Nullable body? (.or a b) ↔ Nullable body? a ∨ Nullable body? b := by
  constructor
  · intro h
    cases h with
    | orLeft h => exact .inl h
    | orRight h => exact .inr h
  · rintro (h | h)
    · exact .orLeft h
    · exact .orRight h

@[simp] theorem nullable_optional : Nullable body? (.optional g) := .optional

@[simp] theorem nullable_many0 : Nullable body? (.many0 g) := .many0

@[simp] theorem nullable_many1 : Nullable body? (.many1 g) ↔ Nullable body? g := by
  constructor
  · intro h
    cases h with
    | many1 h => exact h
  · exact .many1

@[simp] theorem nullable_not : Nullable body? (.not g) := .not

@[simp] theorem nullable_map {f : Value α → Value α} :
    Nullable body? (.map f g) ↔ Nullable body? g := by
  constructor
  · intro h
    cases h with
    | map h => exact h
  · exact .map

@[simp] theorem nullable_span : Nullable body? (.span g) ↔ Nullable body? g := by
  constructor
  · intro h
    cases h with
    | span h => exact h
  · exact .span

@[simp] theorem nullable_lookahead {l : Lookahead (Grammar Empty Empty α) (Value α → Value α)} :
    Nullable body? (.lookahead l) ↔
      (∃ a ∈ l.arms, (a.consume = true → Nullable body? a.look) ∧ Nullable body? a.step) ∨
        ∃ g, l.otherwise = some g ∧ Nullable body? g := by
  constructor
  · intro h
    cases h with
    | arm hm hl hs => exact .inl ⟨_, hm, hl, hs⟩
    | otherwise ho h => exact .inr ⟨_, ho, h⟩
  · rintro (⟨a, hm, hl, hs⟩ | ⟨g, ho, h⟩)
    · exact .arm hm hl hs
    · exact .otherwise ho h

theorem nullable_rule {r : Rule} :
    Nullable body? (.rule r) ↔ ∃ b, body? r.slot = some b ∧ Nullable body? b := by
  constructor
  · intro h
    cases h with
    | rule hb h => exact ⟨_, hb, h⟩
  · rintro ⟨b, hb, h⟩
    exact .rule hb h

/-! The grammars that are defined from others -/

@[simp] theorem not_nullable_char {c : Char} : ¬ Nullable body? (.char c) := not_nullable_single

@[simp] theorem not_nullable_whitespace : ¬ Nullable body? (whitespace : Grammar Empty Empty α) :=
  not_nullable_single

@[simp] theorem not_nullable_word : ¬ Nullable body? (word : Grammar Empty Empty α) := by
  simp [word]

@[simp] theorem nullable_spaceBefore : Nullable body? (spaceBefore g) ↔ Nullable body? g := by
  simp [spaceBefore]

end Equations

end Grammar
end Peg
