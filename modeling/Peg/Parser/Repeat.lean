import Peg.Parser.Basic

/-!
# Peg.Parser.Repeat

Greedy repetition: a parser is run again and again until it fails, and that failure is dropped. It
is never run fewer times so that what follows can match.

A parser that succeeds without reading anything would be repeated forever. The number of rounds is
therefore bounded, and a repetition that needs more has no run.
-/

namespace Peg
namespace Parser

variable {σ β : Type}

/-- The values of all rounds that succeed, and the cursor behind the last of them. -/
def greedy (p : Parser σ β) : Nat → Cursor → Parsing σ (List β × Cursor)
  | 0, _ => Parsing.unfinished
  | bound + 1, c => do
    match ← p c with
    | .ok v d => (fun (vs, last) => (v :: vs, last)) <$> greedy p bound d
    | .fail _ => pure ([], c)

/-- Zero or more rounds. -/
def many0 (bound : Nat) (p : Parser σ β) : Parser σ (List β) := fun c =>
  (fun (vs, last) => .ok vs last) <$> greedy p bound c

/-- One or more rounds. -/
def many1 (bound : Nat) (p : Parser σ β) : Parser σ (List β) := fun c => do
  let (vs, last) ← greedy p bound c
  if vs.isEmpty then refuse .atLeastOne c else pure (.ok vs last)

end Parser
end Peg
