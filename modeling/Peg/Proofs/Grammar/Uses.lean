import Peg.Grammar.Basic

/-!
# Peg.Proofs.Grammar.Uses

The parts of a grammar, and the grammars that it can come to run.

* `children g`: the grammars from which `g` is built directly.
* `Grammar.induct`: what passes from the children to a grammar holds of every grammar.
* `Part g h`: `h` is `g`, or a part of one of its children.
* `Uses body? g h`: `h` is met on the way from `g` to its parts and into the bodies of its rules.
* `Closed body? g`: every rule that `g` uses has a body.
-/

namespace Peg
namespace Grammar

variable {κ ω α : Type}

def children : Grammar κ ω α → List (Grammar κ ω α)
  | single _ | eof | rule _ | leaf _ => []
  | seq gs | alternative gs => gs
  | and a b | or a b => [a, b]
  | optional g | many0 g | many1 g | not g | map _ g | span g | wrap _ g => [g]
  | lookahead l => l.arms.flatMap (fun a => [a.look, a.step]) ++ l.otherwise.toList

theorem look_mem_children {l : Lookahead (Grammar κ ω α) (Value α → Value α)}
    {a : GuardedArm (Grammar κ ω α) (Value α → Value α)} (h : a ∈ l.arms) :
    a.look ∈ (lookahead l).children := by
  simp only [children, List.mem_append, List.mem_flatMap]
  exact .inl ⟨a, h, by simp⟩

theorem step_mem_children {l : Lookahead (Grammar κ ω α) (Value α → Value α)}
    {a : GuardedArm (Grammar κ ω α) (Value α → Value α)} (h : a ∈ l.arms) :
    a.step ∈ (lookahead l).children := by
  simp only [children, List.mem_append, List.mem_flatMap]
  exact .inl ⟨a, h, by simp⟩

theorem otherwise_mem_children {l : Lookahead (Grammar κ ω α) (Value α → Value α)}
    {g : Grammar κ ω α} (h : l.otherwise = some g) : g ∈ (lookahead l).children := by
  simp [children, h]

theorem sizeOf_lt_of_mem_children {g h : Grammar κ ω α} (hm : h ∈ g.children) :
    sizeOf h < sizeOf g := by
  cases g with
  | single test => simp [children] at hm
  | eof => simp [children] at hm
  | rule r => simp [children] at hm
  | leaf k => simp [children] at hm
  | seq gs =>
    have hlt : sizeOf h < sizeOf gs := List.sizeOf_lt_of_mem hm
    simp only [seq.sizeOf_spec]
    omega
  | alternative gs =>
    have hlt : sizeOf h < sizeOf gs := List.sizeOf_lt_of_mem hm
    simp only [alternative.sizeOf_spec]
    omega
  | and a b =>
    simp only [children, List.mem_cons, List.not_mem_nil, or_false] at hm
    simp only [and.sizeOf_spec]
    rcases hm with rfl | rfl
    · omega
    · omega
  | or a b =>
    simp only [children, List.mem_cons, List.not_mem_nil, or_false] at hm
    simp only [or.sizeOf_spec]
    rcases hm with rfl | rfl
    · omega
    · omega
  | lookahead l =>
    obtain ⟨arms, otherwise⟩ := l
    simp only [children, List.mem_append, List.mem_flatMap, List.mem_cons, List.not_mem_nil,
      or_false, Option.mem_toList] at hm
    rcases hm with ⟨⟨look, consume, step, transform⟩, ha, rfl | rfl⟩ | rfl
    · have hlt := List.sizeOf_lt_of_mem ha
      simp at hlt ⊢
      omega
    · have hlt := List.sizeOf_lt_of_mem ha
      simp at hlt ⊢
      omega
    · simp
      omega
  | _ =>
    simp only [children, List.mem_cons, List.not_mem_nil, or_false] at hm
    subst hm
    simp

theorem induct {motive : Grammar κ ω α → Prop}
    (step : ∀ g, (∀ h ∈ g.children, motive h) → motive g) (g : Grammar κ ω α) : motive g :=
  step g fun h _ => induct step h
termination_by sizeOf g
decreasing_by exact sizeOf_lt_of_mem_children ‹_›

/-- `h` is met on the way down into `g`, without going into the bodies of rules. -/
inductive Part (g : Grammar κ ω α) : Grammar κ ω α → Prop
  | self : Part g g
  | child {h k : Grammar κ ω α} : Part g h → k ∈ h.children → Part g k

theorem part_iff {g h : Grammar κ ω α} : Part g h ↔ h = g ∨ ∃ k ∈ g.children, Part k h := by
  constructor
  · intro hp
    induction hp with
    | self => exact .inl rfl
    | @child m k _ hk ih =>
      rcases ih with rfl | ⟨j, hj, hp⟩
      · exact .inr ⟨k, hk, .self⟩
      · exact .inr ⟨j, hj, hp.child hk⟩
  · rintro (rfl | ⟨k, hk, hp⟩)
    · exact .self
    · induction hp with
      | self => exact Part.self.child hk
      | child _ hm ih => exact ih.child hm

section Part

variable {g h a b : Grammar κ ω α} {gs : List (Grammar κ ω α)}

@[simp] theorem part_single {test : Option Char → Bool} :
    Part (single test) h ↔ h = single test := by
  rw [part_iff]
  simp [children]

@[simp] theorem part_eof : Part eof h ↔ h = eof := by
  rw [part_iff]
  simp [children]

@[simp] theorem part_rule {r : Rule} : Part (rule r) h ↔ h = rule r := by
  rw [part_iff]
  simp [children]

@[simp] theorem part_seq : Part (seq gs) h ↔ h = seq gs ∨ ∃ k ∈ gs, Part k h := by
  rw [part_iff]
  simp only [children]

@[simp] theorem part_alternative :
    Part (alternative gs) h ↔ h = alternative gs ∨ ∃ k ∈ gs, Part k h := by
  rw [part_iff]
  simp only [children]

@[simp] theorem part_and : Part (and a b) h ↔ h = and a b ∨ Part a h ∨ Part b h := by
  rw [part_iff]
  simp [children]

@[simp] theorem part_or : Part (or a b) h ↔ h = or a b ∨ Part a h ∨ Part b h := by
  rw [part_iff]
  simp [children]

@[simp] theorem part_optional : Part (optional g) h ↔ h = optional g ∨ Part g h := by
  rw [part_iff]
  simp [children]

@[simp] theorem part_many0 : Part (many0 g) h ↔ h = many0 g ∨ Part g h := by
  rw [part_iff]
  simp [children]

@[simp] theorem part_many1 : Part (many1 g) h ↔ h = many1 g ∨ Part g h := by
  rw [part_iff]
  simp [children]

@[simp] theorem part_not : Part (not g) h ↔ h = not g ∨ Part g h := by
  rw [part_iff]
  simp [children]

@[simp] theorem part_map {f : Value α → Value α} : Part (map f g) h ↔ h = map f g ∨ Part g h := by
  rw [part_iff]
  simp [children]

@[simp] theorem part_span : Part (span g) h ↔ h = span g ∨ Part g h := by
  rw [part_iff]
  simp [children]

@[simp] theorem part_char {c : Char} : Part (char c) h ↔ h = single (CharClass.isChar c) :=
  part_single

@[simp] theorem part_whitespace : Part whitespace h ↔ h = single CharClass.isSpace := part_single

@[simp] theorem part_spaceBefore :
    Part (spaceBefore g) h ↔
      h = map Value.second (and (many0 whitespace) g) ∨ h = and (many0 whitespace) g ∨
        h = many0 whitespace ∨ h = single CharClass.isSpace ∨ Part g h := by
  simp [spaceBefore, or_assoc]

end Part

inductive Uses (body? : Nat → Option (Grammar κ ω α)) (g : Grammar κ ω α) : Grammar κ ω α → Prop
  | self : Uses body? g g
  | part {h k : Grammar κ ω α} : Uses body? g h → k ∈ h.children → Uses body? g k
  | body {r : Rule} {b : Grammar κ ω α} :
      Uses body? g (.rule r) → body? r.slot = some b → Uses body? g b

/-- What is used lies in the grammar itself or in the body of some rule. -/
theorem Uses.part_or {body? : Nat → Option (Grammar κ ω α)} {g h : Grammar κ ω α}
    (hu : Uses body? g h) : Part g h ∨ ∃ slot b, body? slot = some b ∧ Part b h := by
  induction hu with
  | self => exact .inl .self
  | part _ hk ih =>
    rcases ih with hp | ⟨slot, b, hb, hp⟩
    · exact .inl (hp.child hk)
    · exact .inr ⟨slot, b, hb, hp.child hk⟩
  | @body r b _ hb _ => exact .inr ⟨r.slot, b, hb, .self⟩

def Closed (body? : Nat → Option (Grammar κ ω α)) (g : Grammar κ ω α) : Prop :=
  ∀ r, Uses body? g (.rule r) → (body? r.slot).isSome = true

end Grammar
end Peg
