import Peg.Parsing.Extends

/-!
# Peg.Proofs.Parsing.Ensures

What holds of every run of a computation, whatever state it starts from:

* `Ensures L E Q x`: the runs of `x` write only records in `L`, abort only at rules in `E`, and give
  only results in `Q`.

A computation without a run ensures everything, so nothing here says that a computation ends.
-/

namespace Peg
namespace Parsing

variable {σ α β : Type} {L L' : Record → Prop} {E E' : Rule → Prop} {Q Q' : α → Prop}
  {R : β → Prop}

def Ensures (L : Record → Prop) (E : Rule → Prop) (Q : α → Prop) (x : Parsing σ α) : Prop :=
  ∀ s r, x s = some r →
    (∀ e ∈ r.log.toList, L e) ∧ (∀ rule, r.result = .error rule → E rule) ∧
      ∀ a, r.result = .ok a → Q a

namespace Ensures

theorem pure {a : α} (h : Q a) : Ensures L E Q (pure a : Parsing σ α) := by
  intro s r hr
  cases hr
  refine ⟨fun e he => absurd he (by simp), fun rule hrule => ?_, fun b hb => ?_⟩
  · cases hrule
  · cases hb
    exact h

theorem emit {e : Record} (h : L e) : Ensures L E (fun _ => True) (emit e : Parsing σ Unit) := by
  intro s r hr
  cases hr
  refine ⟨fun e' he => ?_, fun rule hrule => ?_, fun _ _ => trivial⟩
  · rw [Log.toList_single, List.mem_singleton] at he
    exact he ▸ h
  · cases hrule

theorem abort {rule : Rule} (h : E rule) : Ensures L E Q (abort rule : Parsing σ α) := by
  intro s r hr
  cases hr
  refine ⟨fun e he => absurd he (by simp), fun rule' hrule => ?_, fun b hb => ?_⟩
  · cases hrule
    exact h
  · cases hb

theorem unfinished : Ensures L E Q (unfinished : Parsing σ α) := by
  intro s r hr
  cases hr

/-- What is ensured of a part is ensured of the whole under any weaker description. -/
theorem mono {x : Parsing σ α} (h : Ensures L E Q x) (hL : ∀ e, L e → L' e)
    (hE : ∀ rule, E rule → E' rule) (hQ : ∀ a, Q a → Q' a) : Ensures L' E' Q' x := by
  intro s r hr
  obtain ⟨hl, he, hq⟩ := h s r hr
  exact ⟨fun e hm => hL e (hl e hm), fun rule hm => hE rule (he rule hm), fun a ha => hQ a (hq a ha)⟩

theorem bind {x : Parsing σ α} {f : α → Parsing σ β} (hx : Ensures L E Q x)
    (hf : ∀ a, Q a → Ensures L E R (f a)) : Ensures L E R (x >>= f) := by
  intro s r hr
  rcases bind_eq_some_iff.1 hr with ⟨rule, log, s', h, rfl⟩ | ⟨a, log, s', r', h, h', rfl⟩
  · obtain ⟨hl, he, -⟩ := hx _ _ h
    refine ⟨hl, fun rule' hrule => ?_, fun b hb => ?_⟩
    · cases hrule
      exact he rule rfl
    · cases hb
  · obtain ⟨hl, -, hq⟩ := hx _ _ h
    obtain ⟨hl', he', hq'⟩ := hf a (hq a rfl) _ _ h'
    refine ⟨fun e hm => ?_, he', hq'⟩
    rw [Run.log_behind, Log.toList_append, List.mem_append] at hm
    rcases hm with hm | hm
    · exact hl e hm
    · exact hl' e hm

theorem map {x : Parsing σ α} (f : α → β) (hx : Ensures L E (fun a => R (f a)) x) :
    Ensures L E R (f <$> x) := by
  rw [map_eq_pure_bind]
  exact hx.bind fun a ha => pure ha

end Ensures
end Parsing
end Peg
