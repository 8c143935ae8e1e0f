import Peg.Grammar.Fuel
import Peg.Proofs.Grammar.Uses
import Peg.Proofs.Parser.Agrees

/-!
# Peg.Proofs.Rule.Renaming

The numbers of slots mean nothing beyond which rules share a body.

* `Grammar.rename ρ g`: the grammar `g` with its rules, under the names that they have, in the slots
  that `ρ` assigns to theirs.
* `eval_rename`: where the bodies have moved along with the rules, the parsers agree.

Foreign parsers have to take their part in this (`Foreign.Congruent`), as those of `Peg.Extension`
do: they may not look at the slot in which a body was missing.
-/

namespace Peg

variable {κ ω σ α : Type}

def Rule.rename (ρ : Nat → Nat) (r : Rule) : Rule := ⟨r.name, ρ r.slot⟩

/-- A foreign parser makes parsers that agree of parsers that agree. -/
def Foreign.Congruent (foreign : Foreign κ ω σ α) : Prop :=
  ∀ w p q, Parser.Agrees p q → Parser.Agrees (foreign.wrap w p) (foreign.wrap w q)

theorem Foreign.congruent_of_isEmpty (foreign : Foreign κ Empty σ α) : foreign.Congruent := nofun

theorem Extension.all_congruent : (Extension.all (α := α)).Congruent :=
  fun w _ _ h => Extension.wrap_related w h (C := Parsing.Agrees.congruence)

namespace Grammar

def rename (ρ : Nat → Nat) : Grammar κ ω α → Grammar κ ω α
  | single test => single test
  | eof => eof
  | seq gs => seq (gs.map fun g => g.rename ρ)
  | alternative gs => alternative (gs.map fun g => g.rename ρ)
  | and a b => and (a.rename ρ) (b.rename ρ)
  | or a b => or (a.rename ρ) (b.rename ρ)
  | optional g => optional (g.rename ρ)
  | many0 g => many0 (g.rename ρ)
  | many1 g => many1 (g.rename ρ)
  | not g => not (g.rename ρ)
  | map f g => map f (g.rename ρ)
  | span g => span (g.rename ρ)
  | lookahead ⟨arms, none⟩ => lookahead
      ⟨arms.map fun a => ⟨a.look.rename ρ, a.consume, a.step.rename ρ, a.transform⟩, none⟩
  | lookahead ⟨arms, some g⟩ => lookahead
      ⟨arms.map fun a => ⟨a.look.rename ρ, a.consume, a.step.rename ρ, a.transform⟩,
        some (g.rename ρ)⟩
  | rule r => rule (r.rename ρ)
  | leaf k => leaf k
  | wrap w g => wrap w (g.rename ρ)
termination_by g => sizeOf g
decreasing_by
  all_goals
    apply sizeOf_lt_of_mem_children
    first
    | assumption
    | exact look_mem_children ‹_›
    | exact step_mem_children ‹_›
    | simp [children]

variable {foreign : Foreign κ ω σ α} {body? body?' : Nat → Option (Grammar κ ω α)} {ρ : Nat → Nat}

theorem eval_rename (hf : foreign.Congruent)
    (hbody : ∀ slot, body?' (ρ slot) = (body? slot).map (rename ρ)) (n : Nat) (g : Grammar κ ω α) :
    Parser.Agrees (eval ⟨foreign, body?⟩ n g) (eval ⟨foreign, body?'⟩ n (g.rename ρ)) := by
  induction n generalizing g with
  | zero => exact .refl _
  | succ n ih =>
    intro c
    cases g with
    | single test =>
      rw [rename]
      exact .refl _
    | eof =>
      rw [rename]
      exact .refl _
    | leaf k =>
      rw [rename]
      exact .refl _
    | seq gs =>
      simp only [rename, eval, List.map_map]
      exact (Parser.Related.seq gs ih).map _ c
    | alternative gs =>
      simp only [rename, eval, List.map_map]
      exact Parser.Related.alternative gs ih c
    | and a b =>
      rw [rename]
      exact ((ih a).and (ih b)).map _ c
    | or a b =>
      rw [rename]
      exact (ih a).or (ih b) c
    | optional g =>
      rw [rename]
      exact (ih g).optional.map _ c
    | many0 g =>
      rw [rename]
      exact ((ih g).many0 (Nat.le_refl n) (.inl rfl)).map _ c
    | many1 g =>
      rw [rename]
      exact ((ih g).many1 (Nat.le_refl n) (.inl rfl)).map _ c
    | not g =>
      rw [rename]
      exact (ih g).not.map _ c
    | map f g =>
      rw [rename]
      exact (ih g).map _ c
    | span g =>
      rw [rename]
      exact (ih g).withSpan.map _ c
    | lookahead l =>
      obtain ⟨arms, ow⟩ := l
      have harms (o o' : Option (Parser σ (Value α)))
          (ho : Parser.Agrees (o.getD (Parser.refuse .noAlternative))
            (o'.getD (Parser.refuse .noAlternative))) :
          Parser.Agrees (Parser.lookahead o (arms.map (armOf (eval ⟨foreign, body?⟩ n))))
            (Parser.lookahead o' (arms.map fun a => armOf (eval ⟨foreign, body?'⟩ n)
              ⟨a.look.rename ρ, a.consume, a.step.rename ρ, a.transform⟩)) :=
        .lookahead _ _ arms ho (fun a => ih a.look) (fun a => ih a.step) (fun _ => rfl) fun _ => rfl
      cases ow with
      | none =>
        simp only [rename, eval, List.map_map]
        exact harms none none (.refl _) c
      | some g =>
        simp only [rename, eval, List.map_map]
        exact harms (some _) (some _) (ih g) c
    | rule r =>
      have hslot : body?' (r.rename ρ).slot = (body? r.slot).map (rename ρ) := hbody r.slot
      have hname : r.name = (r.rename ρ).name := rfl
      simp only [rename, eval, hslot, Option.map_map]
      exact Parser.Agrees.invoke hname (body? r.slot) ih c
    | wrap w g =>
      rw [rename]
      exact hf w _ _ (ih g) c

end Grammar
end Peg
