import Peg.Parser.Basic

/-!
# Peg.Parser.Choice

Parsers that recover from a mismatch. Whatever a failed attempt read is dropped: the next attempt
starts from the cursor at which the choice itself was started, and a mismatch of the choice lies
there. An abort is not a mismatch, and none of these parsers recovers from it.
-/

namespace Peg
namespace Parser

variable {σ β : Type}

/-- The first of the parsers that succeeds. -/
def alternative : List (Parser σ β) → Parser σ β
  | [] => refuse .noAlternative
  | p :: ps => fun c => do
    match ← p c with
    | .ok v d => pure (.ok v d)
    | .fail _ => alternative ps c

/-- The first of two parsers that succeeds. -/
def or (p q : Parser σ β) : Parser σ β := fun c => do
  match ← p c with
  | .ok v d => pure (.ok v d)
  | .fail _ =>
    match ← q c with
    | .ok v d => pure (.ok v d)
    | .fail _ => refuse .noAlternative c

/-- Succeeds without a value where `p` fails. -/
def optional (p : Parser σ β) : Parser σ (Option β) := fun c => do
  match ← p c with
  | .ok v d => pure (.ok (some v) d)
  | .fail _ => succeed none c

/-- Succeeds where `p` fails, and reads nothing. -/
def not (p : Parser σ β) : Parser σ Unit := fun c => do
  match ← p c with
  | .ok _ _ => refuse .unexpectedMatch c
  | .fail _ => succeed () c

end Parser
end Peg
