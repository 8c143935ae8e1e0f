import Peg.Parsing

/-!
# Peg.Parsing.Extends

Computations compared by the runs they have. `y` extends `x` if every run of `x` is a run of `y`: the
two agree wherever `x` ends, and `y` may end where `x` does not. A sequence only grows when its parts
do (`Extends.bind`).
-/

namespace Peg
namespace Parsing

variable {σ α β : Type}

/-- A sequence ends in one of two ways: its first part was aborted, or both parts have a run. -/
theorem bind_eq_some_iff {x : Parsing σ α} {f : α → Parsing σ β} {s : σ} {r : Run σ β} :
    (x >>= f) s = some r ↔
      (∃ rule log s', x s = some ⟨.error rule, log, s'⟩ ∧ r = ⟨.error rule, log, s'⟩) ∨
      ∃ a log s' r', x s = some ⟨.ok a, log, s'⟩ ∧ f a s' = some r' ∧ r = r'.behind log := by
  rw [bind_apply]
  rcases x s with _ | ⟨rule | a, log, s'⟩
  · simp
  · constructor
    · intro h
      exact .inl ⟨rule, log, s', rfl, (Option.some.inj h).symm⟩
    · rintro (⟨_, _, _, h, rfl⟩ | ⟨_, _, _, _, h, _⟩) <;> cases h
      rfl
  · constructor
    · intro h
      obtain ⟨r', hf, hr⟩ := Option.map_eq_some_iff.1 h
      exact .inr ⟨a, log, s', r', rfl, hf, hr.symm⟩
    · rintro (⟨_, _, _, h, _⟩ | ⟨_, _, _, r', h, h', rfl⟩) <;> cases h
      simp [h']

def Extends (x y : Parsing σ α) : Prop := ∀ s r, x s = some r → y s = some r

namespace Extends

theorem refl (x : Parsing σ α) : Extends x x := fun _ _ h => h

theorem trans {x y z : Parsing σ α} (h₁ : Extends x y) (h₂ : Extends y z) : Extends x z :=
  fun s r h => h₂ s r (h₁ s r h)

theorem unfinished (x : Parsing σ α) : Extends Parsing.unfinished x := fun _ _ h => nomatch h

theorem bind {x y : Parsing σ α} {f g : α → Parsing σ β} (hx : Extends x y)
    (hf : ∀ a, Extends (f a) (g a)) : Extends (x >>= f) (y >>= g) := by
  intro s r h
  rw [bind_eq_some_iff] at h ⊢
  rcases h with ⟨rule, log, s', h, hr⟩ | ⟨a, log, s', r', h, h', hr⟩
  · exact .inl ⟨rule, log, s', hx _ _ h, hr⟩
  · exact .inr ⟨a, log, s', r', hx _ _ h, hf a _ _ h', hr⟩

theorem map {x y : Parsing σ α} (f : α → β) (h : Extends x y) : Extends (f <$> x) (f <$> y) := by
  rw [map_eq_pure_bind, map_eq_pure_bind]
  exact h.bind fun _ => refl _

end Extends
end Parsing
end Peg
