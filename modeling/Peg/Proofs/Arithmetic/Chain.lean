import Peg.Proofs.Arithmetic.Language
import Peg.Proofs.Semantics.CharRun

/-!
# Peg.Proofs.Arithmetic.Chain

Operands with operators between them, for sums and products alike.

* `tail op₁ op₂ operand`: one operator and the operand behind it.
* `derives_tail`, `tail_fails`, `of_tail`: what a tail reads, and where it fails.
* `derives_chain`, `of_chain`: a chain is an operand and a run of tails, and its value is folded from
  the left.
-/

namespace Peg
namespace Arithmetic

open Grammar (Derives)

variable {α : Type} {ops : Ops α} {body? : Nat → Option (Grammar Empty Empty α)}
  {mark : List Char → List Char → Span} {op₁ op₂ : Char} {operand : Rule} {cs rest : List Char}

def tail (op₁ op₂ : Char) (operand : Rule) : Grammar Empty Empty α :=
  .and (.spaceBefore (.alternative [.char op₁, .char op₂])) (.spaceBefore (.rule operand))

theorem char_ok {ch : Char} : Derives body? mark (.char ch) (ch :: cs) (.ok (.char ch) cs) :=
  .single (by simp [CharClass.isChar])

theorem char_miss {ch d : Char} (h : d ≠ ch) :
    Derives body? mark (.char ch) (d :: cs) (.fail .predicate (d :: cs)) :=
  .singleMiss (by simpa [CharClass.isChar] using h)

theorem of_char {ch : Char} {v : Value α} (h : Derives body? mark (.char ch) cs (.ok v rest)) :
    cs = ch :: rest ∧ v = .char ch := by
  obtain ⟨d, rfl, hd, rfl⟩ := h.single_ok
  have hdc : d = ch := by simpa [CharClass.isChar] using hd
  rw [hdc]
  exact ⟨rfl, rfl⟩

theorem derives_operator {op : Char} (hop : op = op₁ ∨ op = op₂) :
    Derives body? mark (.alternative [.char op₁, .char op₂]) (op :: cs) (.ok (.char op) cs) := by
  by_cases h : op = op₁
  · subst h
    exact .alternativeHit char_ok
  · have h₂ : op = op₂ := hop.resolve_left h
    subst h₂
    exact .alternativeNext (char_miss h) (.alternativeHit char_ok)

theorem derives_tail {u v : List Char} {op : Char} {y : Value α} (hop : op = op₁ ∨ op = op₂)
    (hspace : CharClass.isSpace (some op) = false) (hu : Spaces u) (hv : Spaces v)
    (hcs : ∀ ch ∈ cs.head?, CharClass.isSpace (some ch) = false)
    (h : Derives body? mark (.rule operand) cs (.ok y rest)) :
    Derives body? mark (tail op₁ op₂ operand) (u ++ op :: (v ++ cs))
      (.ok (.pair (.char op) y) rest) := by
  have hoperator : Derives body? mark (.spaceBefore (.alternative [.char op₁, .char op₂]))
      (u ++ op :: (v ++ cs)) (.ok (.char op) (v ++ cs)) := by
    refine Derives.spaceBefore hu ?_ (derives_operator hop)
    intro ch hch
    cases hch
    exact hspace
  exact hoperator.andNext (Derives.spaceBefore hv hcs h)

/-- Behind white space there is a character, but it is none of the operators. -/
theorem tail_fails {u : List Char} {ch : Char} (hu : Spaces u)
    (hspace : CharClass.isSpace (some ch) = false) (h₁ : ch ≠ op₁) (h₂ : ch ≠ op₂) :
    ∃ cause left, Derives body? mark (tail op₁ op₂ operand) (u ++ ch :: cs) (.fail cause left) := by
  have hoperator : Derives body? mark (.alternative [.char op₁, .char op₂]) (ch :: cs)
      (.fail .noAlternative (ch :: cs)) :=
    .alternativeNext (char_miss h₁) (.alternativeNext (char_miss h₂) .alternativeNil)
  refine ⟨_, _, .andFail (Derives.spaceBefore hu ?_ hoperator)⟩
  intro d hd
  cases hd
  exact hspace

theorem of_tail {y : Value α} (h : Derives body? mark (tail op₁ op₂ operand) cs (.ok y rest)) :
    ∃ u op v mid z, u ++ op :: (v ++ mid) = cs ∧ (op = op₁ ∨ op = op₂) ∧ Spaces u ∧ Spaces v ∧
      Derives body? mark (.rule operand) mid (.ok z rest) ∧ y = .pair (.char op) z := by
  obtain ⟨x, mid₁, z, hx, hz, rfl⟩ := h.and_ok
  obtain ⟨u, mid₂, rfl, hu, hx⟩ := hx.of_spaceBefore
  obtain ⟨v, mid, rfl, hv, hz⟩ := hz.of_spaceBefore
  obtain ⟨g, hg, hx⟩ := hx.alternative_ok
  simp only [List.mem_cons, List.not_mem_nil, or_false] at hg
  rcases hg with rfl | rfl
  · obtain ⟨rfl, rfl⟩ := of_char hx
    exact ⟨u, op₁, v, mid, z, rfl, .inl rfl, hu, hv, hz, rfl⟩
  · obtain ⟨rfl, rfl⟩ := of_char hx
    exact ⟨u, op₂, v, mid, z, rfl, .inr rfl, hu, hv, hz, rfl⟩

variable {byChar : Char → α → α → α}

theorem derives_chain {x : α} {vs : List (Value α)} {mid : List Char}
    (h : Derives body? mark (.rule operand) cs (.ok (.num x) mid))
    (htail : Derives body? mark (.many0 (tail op₁ op₂ operand)) mid (.ok (.list vs) rest)) :
    Derives body? mark (chain ops op₁ op₂ operand byChar) cs
      (.ok (.num (vs.foldl (applyTail ops byChar) x)) rest) :=
  .map (h.andNext htail)

/-- A run of tails cannot fail, so a chain fails only where its first operand does. -/
theorem of_chain_fail {cause : Cause}
    (h : Derives body? mark (chain ops op₁ op₂ operand byChar) cs (.fail cause rest)) :
    Derives body? mark (.rule operand) cs (.fail cause rest) := by
  rcases h.map_fail.and_fail with hfirst | ⟨x, mid, -, htail⟩
  · exact hfirst
  · obtain ⟨vs, left, he⟩ := htail.list_of_many0
    cases he

section Phrases

variable {P Q : List Char → α → Prop}

/-- By induction on the tails, with the phrase read so far in front of them. -/
theorem of_tails {n : Nat} {w : List Char} {x : α} {vs : List (Value α)}
    (hoperand : ∀ ds v left, ds.length ≤ n → Derives body? mark (.rule operand) ds (.ok v left) →
      ∃ w' y, w' ++ left = ds ∧ v = .num y ∧ Q w' y)
    (hmore : ∀ w x op u v w' y, P w x → (op = op₁ ∨ op = op₂) → Spaces u → Spaces v → Q w' y →
      P (w ++ (u ++ op :: (v ++ w'))) (byChar op x y))
    (hw : P w x) (hcs : cs.length ≤ n)
    (h : Derives body? mark (.many0 (tail op₁ op₂ operand)) cs (.ok (.list vs) rest)) :
    ∃ t, t ++ rest = cs ∧ P (w ++ t) (vs.foldl (applyTail ops byChar) x) := by
  induction vs generalizing cs w x with
  | nil =>
    cases h with
    | many0Stop _ => exact ⟨[], rfl, by simpa using hw⟩
  | cons y vs ih =>
    cases h with
    | @many0More _ _ _ _ mid _ hy hvs =>
      obtain ⟨u, op, v, ds, z, rfl, hop, hu, hv, hz, rfl⟩ := of_tail hy
      simp only [List.length_append, List.length_cons] at hcs
      obtain ⟨w', a, rfl, rfl, hq⟩ := hoperand ds z mid (by omega) hz
      simp only [List.length_append] at hcs
      obtain ⟨t, rfl, hp⟩ := ih (hmore w x op u v w' a hw hop hu hv hq) (by omega) hvs
      exact ⟨u ++ op :: (v ++ (w' ++ t)), by simp, by simpa [applyTail, numOf] using hp⟩

theorem of_chain {v : Value α}
    (hoperand : ∀ ds v left, ds.length ≤ cs.length →
      Derives body? mark (.rule operand) ds (.ok v left) →
      ∃ w' y, w' ++ left = ds ∧ v = .num y ∧ Q w' y)
    (hfirst : ∀ w x, Q w x → P w x)
    (hmore : ∀ w x op u v w' y, P w x → (op = op₁ ∨ op = op₂) → Spaces u → Spaces v → Q w' y →
      P (w ++ (u ++ op :: (v ++ w'))) (byChar op x y))
    (h : Derives body? mark (chain ops op₁ op₂ operand byChar) cs (.ok v rest)) :
    ∃ w x, w ++ rest = cs ∧ v = .num x ∧ P w x := by
  obtain ⟨z, hz, rfl⟩ := h.map_ok
  obtain ⟨a, mid, b, ha, hb, rfl⟩ := hz.and_ok
  obtain ⟨vs, left, he⟩ := hb.list_of_many0
  cases he
  obtain ⟨w, x, rfl, rfl, hq⟩ := hoperand cs a mid (Nat.le_refl _) ha
  obtain ⟨t, rfl, hp⟩ := of_tails hoperand hmore (hfirst w x hq) (by simp) hb
  exact ⟨w ++ t, _, by simp, rfl, hp⟩

end Phrases
end Arithmetic
end Peg
