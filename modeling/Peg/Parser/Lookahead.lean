import Peg.Parser.Basic

/-!
# Peg.Parser.Lookahead

A choice that commits. Each arm has a guard, which decides whether the arm is taken, and a step, which
is run once it is taken. The step starts behind what the guard read if the arm consumes it, and
otherwise where the guard started. A guard that fails leads to the next arm. A step that fails is the
failure of the whole: no later arm is tried, which is what makes this different from an ordinary
choice.
-/

namespace Peg
namespace Parser

variable {σ β γ δ : Type}

structure Arm (σ β γ δ : Type) where
  look : Parser σ β
  /-- Whether the step goes on behind what the guard read. -/
  consume : Bool
  step : Parser σ γ
  transform : β → γ → δ

/-- The step of the first arm whose guard succeeds. If there is none, `otherwise` from the same
cursor; without it the choice fails there. -/
def lookahead (otherwise : Option (Parser σ δ)) : List (Arm σ β γ δ) → Parser σ δ
  | [] => otherwise.getD (refuse .noAlternative)
  | arm :: arms => fun c => do
    match ← arm.look c with
    | .ok v d => map (arm.transform v) arm.step (if arm.consume then d else c)
    | .fail _ => lookahead otherwise arms c

end Parser
end Peg
