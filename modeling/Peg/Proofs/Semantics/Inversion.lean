import Peg.Proofs.Semantics.Derives

/-!
# Peg.Proofs.Semantics.Inversion

Derivations taken apart: what must have been derived before, for combinators whose outcome is made
from the outcomes of their parts.
-/

namespace Peg
namespace Grammar
namespace Derives

variable {α : Type} {body? : Nat → Option (Grammar Empty Empty α)}
  {mark : List Char → List Char → Span} {g a b : Grammar Empty Empty α} {v : Value α}
  {cause : Cause} {cs rest : List Char}

theorem single_ok {test : Option Char → Bool}
    (h : Derives body? mark (.single test) cs (.ok v rest)) :
    ∃ ch, cs = ch :: rest ∧ test (some ch) = true ∧ v = .char ch := by
  cases h with
  | single ht => exact ⟨_, rfl, ht, rfl⟩

theorem map_ok {f : Value α → Value α} (h : Derives body? mark (.map f g) cs (.ok v rest)) :
    ∃ w, Derives body? mark g cs (.ok w rest) ∧ v = f w := by
  generalize ho : Outcome.ok v rest = o at h
  cases h with
  | @map f g cs o h =>
    cases o with
    | ok w left =>
      cases ho
      exact ⟨w, h, rfl⟩
    | fail cause left => cases ho

theorem map_fail {f : Value α → Value α} (h : Derives body? mark (.map f g) cs (.fail cause rest)) :
    Derives body? mark g cs (.fail cause rest) := by
  generalize ho : Outcome.fail cause rest = o at h
  cases h with
  | @map f g cs o h =>
    cases o with
    | ok w left => cases ho
    | fail cause left =>
      cases ho
      exact h

theorem and_ok (h : Derives body? mark (.and a b) cs (.ok v rest)) :
    ∃ x mid y, Derives body? mark a cs (.ok x mid) ∧ Derives body? mark b mid (.ok y rest) ∧
      v = .pair x y := by
  generalize ho : Outcome.ok v rest = o at h
  cases h with
  | andFail _ => cases ho
  | @andNext a b x cs mid o ha hb =>
    cases o with
    | ok y left =>
      cases ho
      exact ⟨x, mid, y, ha, hb, rfl⟩
    | fail cause left => cases ho

theorem and_fail (h : Derives body? mark (.and a b) cs (.fail cause rest)) :
    Derives body? mark a cs (.fail cause rest) ∨
      ∃ x mid, Derives body? mark a cs (.ok x mid) ∧ Derives body? mark b mid (.fail cause rest) := by
  generalize ho : Outcome.fail cause rest = o at h
  cases h with
  | andFail ha =>
    cases ho
    exact .inl ha
  | @andNext a b x cs mid o ha hb =>
    cases o with
    | ok y left => cases ho
    | fail cause left =>
      cases ho
      exact .inr ⟨x, mid, ha, hb⟩

theorem alternative_ok {gs : List (Grammar Empty Empty α)}
    (h : Derives body? mark (.alternative gs) cs (.ok v rest)) :
    ∃ g ∈ gs, Derives body? mark g cs (.ok v rest) := by
  induction gs with
  | nil => cases h
  | cons g gs ih =>
    cases h with
    | alternativeHit h => exact ⟨g, List.mem_cons_self, h⟩
    | alternativeNext _ h =>
      obtain ⟨k, hk, hd⟩ := ih h
      exact ⟨k, List.mem_cons_of_mem _ hk, hd⟩

/-- An alternative fails of itself, at its own start. -/
theorem alternative_fail {gs : List (Grammar Empty Empty α)}
    (h : Derives body? mark (.alternative gs) cs (.fail cause rest)) :
    cause = .noAlternative ∧ rest = cs := by
  induction gs with
  | nil =>
    cases h
    exact ⟨rfl, rfl⟩
  | cons g gs ih =>
    cases h with
    | alternativeNext _ h => exact ih h

theorem rule_body {r : Rule} {o : Outcome α} (h : Derives body? mark (.rule r) cs o) :
    ∃ b, body? r.slot = some b ∧ Derives body? mark b cs o := by
  cases h with
  | rule hb h => exact ⟨_, hb, h⟩

end Derives
end Grammar
end Peg
