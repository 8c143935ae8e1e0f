import Peg.Proofs.Grammar.Uses

/-!
# Peg.Proofs.Grammar.Throughout

What holds of everything that a grammar comes to run.

* `Throughout body? P g`: `P` holds of `g`, of its parts, and of the bodies of the rules it uses.

It passes from a grammar to whatever that runs, and it holds of a grammar if it holds of the parts
(`Throughout.of_children`, `Throughout.of_parts`). What is left of a list of parts is no part of the
grammar, but it uses nothing else, so `P` passes to it as well once it holds of the list itself.
-/

namespace Peg
namespace Grammar

variable {κ ω α : Type} {body? : Nat → Option (Grammar κ ω α)} {P : Grammar κ ω α → Prop}
  {g h k : Grammar κ ω α}

theorem Uses.trans (hg : Uses body? g h) (hh : Uses body? h k) : Uses body? g k := by
  induction hh with
  | self => exact hg
  | part _ hm ih => exact ih.part hm
  | body _ hb ih => exact ih.body hb

/-- The first step down from a grammar leads to a part of it, or into the body of the rule that it
is. -/
theorem Uses.head (hu : Uses body? g k) :
    k = g ∨ (∃ j ∈ g.children, Uses body? j k) ∨
      ∃ r b, g = .rule r ∧ body? r.slot = some b ∧ Uses body? b k := by
  induction hu with
  | self => exact .inl rfl
  | @part h k _ hm ih =>
    rcases ih with rfl | ⟨j, hj, hu⟩ | ⟨r, b, hg, hb, hu⟩
    · exact .inr (.inl ⟨k, hm, .self⟩)
    · exact .inr (.inl ⟨j, hj, hu.part hm⟩)
    · exact .inr (.inr ⟨r, b, hg, hb, hu.part hm⟩)
  | @body r b _ hb ih =>
    rcases ih with rfl | ⟨j, hj, hu⟩ | ⟨r', b', hg, hb', hu⟩
    · exact .inr (.inr ⟨r, b, rfl, hb, .self⟩)
    · exact .inr (.inl ⟨j, hj, hu.body hb⟩)
    · exact .inr (.inr ⟨r', b', hg, hb', hu.body hb⟩)

def Throughout (body? : Nat → Option (Grammar κ ω α)) (P : Grammar κ ω α → Prop)
    (g : Grammar κ ω α) : Prop :=
  ∀ h, Uses body? g h → P h

namespace Throughout

theorem here (hg : Throughout body? P g) : P g := hg g .self

theorem child (hg : Throughout body? P g) (hk : k ∈ g.children) : Throughout body? P k :=
  fun h hu => hg h ((Uses.part .self hk).trans hu)

theorem body {r : Rule} {b : Grammar κ ω α} (hg : Throughout body? P (.rule r))
    (hb : body? r.slot = some b) : Throughout body? P b :=
  fun h hu => hg h ((Uses.body .self hb).trans hu)

theorem of_children (hg : P g) (hrule : ∀ r, g ≠ .rule r)
    (hchild : ∀ k ∈ g.children, Throughout body? P k) : Throughout body? P g := by
  intro k hu
  rcases hu.head with rfl | ⟨j, hj, hu⟩ | ⟨r, b, he, -, -⟩
  · exact hg
  · exact hchild j hj k hu
  · exact absurd he (hrule r)

theorem of_leaf (hg : P g) (hrule : ∀ r, g ≠ .rule r) (hnil : g.children = []) :
    Throughout body? P g :=
  of_children hg hrule fun _ hk => absurd (hnil ▸ hk) List.not_mem_nil

theorem of_child (hg : P g) (hrule : ∀ r, g ≠ .rule r) (hone : g.children = [k])
    (hk : Throughout body? P k) : Throughout body? P g := by
  refine of_children hg hrule fun j hj => ?_
  rw [hone] at hj
  obtain rfl := List.mem_singleton.1 hj
  exact hk

section Rest

variable {gs : List (Grammar κ ω α)}

theorem seqTail (hg : Throughout body? P (.seq (g :: gs))) (h : P (.seq gs)) :
    Throughout body? P (.seq gs) :=
  of_children h nofun fun _ hk => hg.child (List.mem_cons_of_mem g hk)

theorem alternativeTail (hg : Throughout body? P (.alternative (g :: gs)))
    (h : P (.alternative gs)) : Throughout body? P (.alternative gs) :=
  of_children h nofun fun _ hk => hg.child (List.mem_cons_of_mem g hk)

theorem lookaheadTail {a : GuardedArm (Grammar κ ω α) (Value α → Value α)}
    {arms : List (GuardedArm (Grammar κ ω α) (Value α → Value α))} {ow : Option (Grammar κ ω α)}
    (hg : Throughout body? P (.lookahead ⟨a :: arms, ow⟩)) (h : P (.lookahead ⟨arms, ow⟩)) :
    Throughout body? P (.lookahead ⟨arms, ow⟩) := by
  refine of_children h nofun fun k hk => hg.child ?_
  simp only [children, List.flatMap_cons, List.append_assoc]
  exact List.mem_append_right _ hk

/-- Behind its first round a repetition has no least number of rounds. -/
theorem rounds (hg : Throughout body? P (.many1 g)) (h : P (.many0 g)) :
    Throughout body? P (.many0 g) :=
  of_children h nofun fun _ hk => hg.child hk

end Rest

/-- Everything in use lies in the grammar or in the body of a rule, and can be looked up there. -/
theorem of_parts (hg : ∀ h, Part g h → P h)
    (hbody : ∀ slot b, body? slot = some b → ∀ h, Part b h → P h) : Throughout body? P g := by
  intro h hu
  rcases hu.part_or with hp | ⟨slot, b, hb, hp⟩
  · exact hg h hp
  · exact hbody slot b hb h hp

theorem word (hword : P word) (hletters : P (.many1 (.single CharClass.isAlpha)))
    (hletter : P (.single CharClass.isAlpha)) : Throughout body? P Grammar.word := by
  have hone : Throughout body? P (.single CharClass.isAlpha) := of_leaf hletter nofun rfl
  have hmany : Throughout body? P (.many1 (.single CharClass.isAlpha)) :=
    of_child hletters nofun rfl hone
  exact of_child hword nofun rfl hmany

theorem spaceBefore (hg : Throughout body? P g) (hskip : P (spaceBefore g))
    (hboth : P (.and (.many0 whitespace) g)) (hspaces : P (.many0 whitespace))
    (hspace : P whitespace) : Throughout body? P (Grammar.spaceBefore g) := by
  have hone : Throughout body? P whitespace := of_leaf hspace nofun rfl
  have hmany : Throughout body? P (.many0 whitespace) := of_child hspaces nofun rfl hone
  have hand : Throughout body? P (.and (.many0 whitespace) g) := by
    refine of_children hboth nofun fun k hk => ?_
    rcases List.mem_cons.1 hk with rfl | hk
    · exact hmany
    · obtain rfl := List.mem_singleton.1 hk
      exact hg
  exact of_child hskip nofun rfl hand

end Throughout
end Grammar
end Peg
