import Peg.Proofs.Grammar.Nullable
import Peg.Proofs.Grammar.Uses

/-!
# Peg.Proofs.Grammar.WellFormed

Grammars that cannot go round without reading.

* `Leftmost body? g r`: `g` may invoke the rule `r` before it has read a character.
* `WellFormed body? g`: the rules that `g` uses have bodies, what it repeats is not nullable, and the
  rules are ranked so that each invokes only rules of lower rank before it has read a character.
-/

namespace Peg
namespace Grammar

variable {α : Type}

inductive Leftmost (body? : Nat → Option (Grammar Empty Empty α)) :
    Grammar Empty Empty α → Rule → Prop
  | rule {r : Rule} : Leftmost body? (.rule r) r
  | seqHead {g : Grammar Empty Empty α} {gs : List (Grammar Empty Empty α)} {r : Rule} :
      Leftmost body? g r → Leftmost body? (.seq (g :: gs)) r
  | seqTail {g : Grammar Empty Empty α} {gs : List (Grammar Empty Empty α)} {r : Rule} :
      Nullable body? g → Leftmost body? (.seq gs) r → Leftmost body? (.seq (g :: gs)) r
  | alternative {gs : List (Grammar Empty Empty α)} {g : Grammar Empty Empty α} {r : Rule} :
      g ∈ gs → Leftmost body? g r → Leftmost body? (.alternative gs) r
  | andLeft {a b : Grammar Empty Empty α} {r : Rule} :
      Leftmost body? a r → Leftmost body? (.and a b) r
  | andRight {a b : Grammar Empty Empty α} {r : Rule} :
      Nullable body? a → Leftmost body? b r → Leftmost body? (.and a b) r
  | orLeft {a b : Grammar Empty Empty α} {r : Rule} :
      Leftmost body? a r → Leftmost body? (.or a b) r
  | orRight {a b : Grammar Empty Empty α} {r : Rule} :
      Leftmost body? b r → Leftmost body? (.or a b) r
  | optional {g : Grammar Empty Empty α} {r : Rule} :
      Leftmost body? g r → Leftmost body? (.optional g) r
  | many0 {g : Grammar Empty Empty α} {r : Rule} :
      Leftmost body? g r → Leftmost body? (.many0 g) r
  | many1 {g : Grammar Empty Empty α} {r : Rule} :
      Leftmost body? g r → Leftmost body? (.many1 g) r
  | not {g : Grammar Empty Empty α} {r : Rule} : Leftmost body? g r → Leftmost body? (.not g) r
  | map {f : Value α → Value α} {g : Grammar Empty Empty α} {r : Rule} :
      Leftmost body? g r → Leftmost body? (.map f g) r
  | span {g : Grammar Empty Empty α} {r : Rule} : Leftmost body? g r → Leftmost body? (.span g) r
  | look {l : Lookahead (Grammar Empty Empty α) (Value α → Value α)}
      {a : GuardedArm (Grammar Empty Empty α) (Value α → Value α)} {r : Rule} :
      a ∈ l.arms → Leftmost body? a.look r → Leftmost body? (.lookahead l) r
  | step {l : Lookahead (Grammar Empty Empty α) (Value α → Value α)}
      {a : GuardedArm (Grammar Empty Empty α) (Value α → Value α)} {r : Rule} :
      a ∈ l.arms → (a.consume = true → Nullable body? a.look) → Leftmost body? a.step r →
      Leftmost body? (.lookahead l) r
  | otherwise {l : Lookahead (Grammar Empty Empty α) (Value α → Value α)}
      {g : Grammar Empty Empty α} {r : Rule} :
      l.otherwise = some g → Leftmost body? g r → Leftmost body? (.lookahead l) r

section Equations

variable {body? : Nat → Option (Grammar Empty Empty α)} {g a b : Grammar Empty Empty α}
  {gs : List (Grammar Empty Empty α)} {r : Rule}

@[simp] theorem not_leftmost_single {test : Option Char → Bool} :
    ¬ Leftmost body? (.single test) r := by
  intro h
  cases h

@[simp] theorem not_leftmost_eof : ¬ Leftmost body? (.eof : Grammar Empty Empty α) r := by
  intro h
  cases h

@[simp] theorem leftmost_rule {r' : Rule} : Leftmost body? (.rule r') r ↔ r = r' := by
  constructor
  · intro h
    cases h
    rfl
  · rintro rfl
    exact .rule

@[simp] theorem not_leftmost_seq_nil : ¬ Leftmost body? (.seq []) r := by
  intro h
  cases h

@[simp] theorem leftmost_seq_cons :
    Leftmost body? (.seq (g :: gs)) r ↔
      Leftmost body? g r ∨ Nullable body? g ∧ Leftmost body? (.seq gs) r := by
  constructor
  · intro h
    cases h with
    | seqHead h => exact .inl h
    | seqTail hn h => exact .inr ⟨hn, h⟩
  · rintro (h | ⟨hn, h⟩)
    · exact .seqHead h
    · exact .seqTail hn h

@[simp] theorem leftmost_alternative :
    Leftmost body? (.alternative gs) r ↔ ∃ g ∈ gs, Leftmost body? g r := by
  constructor
  · intro h
    cases h with
    | alternative hm h => exact ⟨_, hm, h⟩
  · rintro ⟨g, hm, h⟩
    exact .alternative hm h

@[simp] theorem leftmost_and :
    Leftmost body? (.and a b) r ↔
      Leftmost body? a r ∨ Nullable body? a ∧ Leftmost body? b r := by
  constructor
  · intro h
    cases h with
    | andLeft h => exact .inl h
    | andRight hn h => exact .inr ⟨hn, h⟩
  · rintro (h | ⟨hn, h⟩)
    · exact .andLeft h
    · exact .andRight hn h

@[simp] theorem leftmost_or :
    Leftmost body? (.or a b) r ↔ Leftmost body? a r ∨ Leftmost body? b r := by
  constructor
  · intro h
    cases h with
    | orLeft h => exact .inl h
    | orRight h => exact .inr h
  · rintro (h | h)
    · exact .orLeft h
    · exact .orRight h

@[simp] theorem leftmost_optional : Leftmost body? (.optional g) r ↔ Leftmost body? g r := by
  constructor
  · intro h
    cases h with
    | optional h => exact h
  · exact .optional

@[simp] theorem leftmost_many0 : Leftmost body? (.many0 g) r ↔ Leftmost body? g r := by
  constructor
  · intro h
    cases h with
    | many0 h => exact h
  · exact .many0

@[simp] theorem leftmost_many1 : Leftmost body? (.many1 g) r ↔ Leftmost body? g r := by
  constructor
  · intro h
    cases h with
    | many1 h => exact h
  · exact .many1

@[simp] theorem leftmost_not : Leftmost body? (.not g) r ↔ Leftmost body? g r := by
  constructor
  · intro h
    cases h with
    | not h => exact h
  · exact .not

@[simp] theorem leftmost_map {f : Value α → Value α} :
    Leftmost body? (.map f g) r ↔ Leftmost body? g r := by
  constructor
  · intro h
    cases h with
    | map h => exact h
  · exact .map

@[simp] theorem leftmost_span : Leftmost body? (.span g) r ↔ Leftmost body? g r := by
  constructor
  · intro h
    cases h with
    | span h => exact h
  · exact .span

@[simp] theorem not_leftmost_char {c : Char} : ¬ Leftmost body? (.char c) r := not_leftmost_single

@[simp] theorem not_leftmost_whitespace :
    ¬ Leftmost body? (whitespace : Grammar Empty Empty α) r := not_leftmost_single

@[simp] theorem leftmost_spaceBefore :
    Leftmost body? (spaceBefore g) r ↔ Leftmost body? g r := by
  simp [spaceBefore]

end Equations

/-- A rule that is invoked in front is written down in the grammar. -/
theorem Leftmost.part {body? : Nat → Option (Grammar Empty Empty α)} {g : Grammar Empty Empty α}
    {r : Rule} (h : Leftmost body? g r) : Part g (.rule r) := by
  induction h with
  | rule => exact .self
  | seqHead _ ih => exact part_iff.2 (.inr ⟨_, List.mem_cons_self, ih⟩)
  | seqTail _ _ ih =>
    rw [part_seq] at ih ⊢
    obtain he | ⟨k, hk, hp⟩ := ih
    · cases he
    · exact .inr ⟨k, List.mem_cons_of_mem _ hk, hp⟩
  | alternative hm _ ih => exact part_iff.2 (.inr ⟨_, hm, ih⟩)
  | andLeft _ ih => exact part_and.2 (.inr (.inl ih))
  | andRight _ _ ih => exact part_and.2 (.inr (.inr ih))
  | orLeft _ ih => exact part_or.2 (.inr (.inl ih))
  | orRight _ ih => exact part_or.2 (.inr (.inr ih))
  | optional _ ih => exact part_optional.2 (.inr ih)
  | many0 _ ih => exact part_many0.2 (.inr ih)
  | many1 _ ih => exact part_many1.2 (.inr ih)
  | not _ ih => exact part_not.2 (.inr ih)
  | map _ ih => exact part_map.2 (.inr ih)
  | span _ ih => exact part_span.2 (.inr ih)
  | look hm _ ih => exact part_iff.2 (.inr ⟨_, look_mem_children hm, ih⟩)
  | step hm _ _ ih => exact part_iff.2 (.inr ⟨_, step_mem_children hm, ih⟩)
  | otherwise ho _ ih => exact part_iff.2 (.inr ⟨_, otherwise_mem_children ho, ih⟩)

theorem Uses.of_part {body? : Nat → Option (Grammar Empty Empty α)} {g h k : Grammar Empty Empty α}
    (hu : Uses body? g h) (hp : Part h k) : Uses body? g k := by
  induction hp with
  | self => exact hu
  | child _ hm ih => exact ih.part hm

structure WellFormed (body? : Nat → Option (Grammar Empty Empty α)) (g : Grammar Empty Empty α) :
    Prop where
  closed : Closed body? g
  many0 : ∀ h, Uses body? g (.many0 h) → ¬ Nullable body? h
  many1 : ∀ h, Uses body? g (.many1 h) → ¬ Nullable body? h
  ranked : ∃ rank : Nat → Nat, ∀ r b r', Uses body? g (.rule r) → body? r.slot = some b →
    Leftmost body? b r' → rank r'.slot < rank r.slot

/-- What a rule uses lies in some body, so it is enough to look at the bodies one by one. -/
theorem WellFormed.of_bodies {body? : Nat → Option (Grammar Empty Empty α)} {r₀ : Rule}
    (hstart : (body? r₀.slot).isSome = true)
    (closed : ∀ slot b r, body? slot = some b → Part b (.rule r) → (body? r.slot).isSome = true)
    (many0 : ∀ slot b h, body? slot = some b → Part b (.many0 h) → ¬ Nullable body? h)
    (many1 : ∀ slot b h, body? slot = some b → Part b (.many1 h) → ¬ Nullable body? h)
    (ranked : ∃ rank : Nat → Nat, ∀ slot b r, body? slot = some b → Leftmost body? b r →
      rank r.slot < rank slot) : WellFormed body? (.rule r₀) where
  closed r hu := by
    rcases hu.part_or with hp | ⟨slot, b, hb, hp⟩
    · have hr : r = r₀ := by simpa using hp
      rw [hr]
      exact hstart
    · exact closed slot b r hb hp
  many0 h hu := by
    rcases hu.part_or with hp | ⟨slot, b, hb, hp⟩
    · simp at hp
    · exact many0 slot b h hb hp
  many1 h hu := by
    rcases hu.part_or with hp | ⟨slot, b, hb, hp⟩
    · simp at hp
    · exact many1 slot b h hb hp
  ranked := by
    obtain ⟨rank, hrank⟩ := ranked
    exact ⟨rank, fun r b r' _ hb hr' => hrank r.slot b r' hb hr'⟩

end Grammar
end Peg
