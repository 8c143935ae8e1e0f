import Peg.Extension
import Peg.Parser.Extends

/-!
# Peg.Grammar.Fuel

Fuel only decides whether a grammar has a run, never which one. More fuel keeps a run that less fuel
has found (`eval_extends`), so a grammar has at most one run from a cursor and a state
(`Runs.unique`). Foreign parsers that run other parsers have to respect this; those of
`Peg.Extension` do.
-/

namespace Peg

variable {κ ω σ α : Type}

/-- A foreign parser has at least as many runs as what it runs allows. -/
def Foreign.Monotone (foreign : Foreign κ ω σ α) : Prop :=
  ∀ w p q, Parser.Extends p q → Parser.Extends (foreign.wrap w p) (foreign.wrap w q)

theorem Foreign.monotone_of_isEmpty (foreign : Foreign κ Empty σ α) : foreign.Monotone := nofun

/-- What the wrapping parsers of `Peg.Extension` do beyond running another parser does not depend on
it, so they keep every comparison. -/
theorem Extension.wrap_related {β : Type} {C : Parsing.Congruence Extension.Counters}
    (w : Extension.Wrap) {p q : Parser Extension.Counters β} (h : Parser.Related C p q) :
    Parser.Related C (Extension.wrap w p) (Extension.wrap w q) := by
  cases w with
  | limit counter =>
    refine fun c => C.bind (C.refl _) fun counters => ?_
    split
    · exact C.bind (C.refl _) fun _ => h c
    · exact C.refl _
  | probe name =>
    exact fun c => C.bind (C.refl _) fun _ => C.bind (h c) fun _ => C.refl _

theorem Extension.all_monotone : (Extension.all (α := α)).Monotone :=
  fun w _ _ h => Extension.wrap_related w h (C := Parsing.Extends.congruence)

namespace Grammar

variable {env : Env κ ω σ α}

theorem eval_extends (hf : env.toForeign.Monotone) {n m : Nat} (hnm : n ≤ m)
    (g : Grammar κ ω α) : Parser.Extends (eval env n g) (eval env m g) := by
  induction n generalizing m g with
  | zero => exact fun c => .unfinished _
  | succ n ih =>
    obtain ⟨m, rfl⟩ : ∃ k, m = k + 1 := ⟨m - 1, by omega⟩
    have hnm : n ≤ m := by omega
    replace ih := fun g => ih hnm g
    intro c
    cases g with
    | single test => exact .refl _
    | eof => exact .refl _
    | leaf k => exact .refl _
    | seq gs => exact (Parser.Extends.seq gs ih).map _ c
    | alternative gs => exact Parser.Extends.alternative gs ih c
    | and a b => exact ((ih a).and (ih b)).map _ c
    | or a b => exact (ih a).or (ih b) c
    | optional g => exact (ih g).optional.map _ c
    | many0 g => exact ((ih g).many0 hnm).map _ c
    | many1 g => exact ((ih g).many1 hnm).map _ c
    | not g => exact (ih g).not.map _ c
    | map f g => exact (ih g).map _ c
    | span g => exact (ih g).withSpan.map _ c
    | lookahead l =>
      refine Parser.Extends.lookahead (armOf (eval env n)) (armOf (eval env m)) l.arms ?_
        (fun a => ih a.look) (fun a => ih a.step) (fun _ => rfl) (fun _ => rfl) c
      cases l.otherwise with
      | none => exact .refl _
      | some g => exact ih g
    | rule r => exact Parser.Extends.invoke r _ ih c
    | wrap w g => exact hf w _ _ (ih g) c

/-- A grammar has at most one run from a cursor and a state. -/
theorem Runs.unique (hf : env.toForeign.Monotone) {g : Grammar κ ω α} {c : Cursor} {s : σ}
    {r r' : Run σ (Answer (Value α))} (h : Runs env g c s r) (h' : Runs env g c s r') : r = r' := by
  obtain ⟨n, hn⟩ := h
  obtain ⟨m, hm⟩ := h'
  have h₁ := eval_extends hf (Nat.le_max_left n m) g c s r hn
  have h₂ := eval_extends hf (Nat.le_max_right n m) g c s r' hm
  exact Option.some.inj (h₁.symm.trans h₂)

end Grammar
end Peg
