import Peg.Parser.Basic

/-!
# Peg.Parser.Drive

Ways to start a parser. `drive` runs it once and records how the parse began and ended; `complete`
also requires that the whole source is read.
-/

namespace Peg
namespace Parser

variable {σ β : Type}

/-- Runs `p` and answers as it does. Input that is left over is no mismatch. -/
def drive (p : Parser σ β) : Parser σ β := fun c => do
  Parsing.emit (.started c.offset)
  match ← p c with
  | .ok v d =>
    Parsing.emit (.succeeded d.offset)
    pure (.ok v d)
  | .fail e =>
    Parsing.emit (.failed e)
    pure (.fail e)

/-- Runs `p` on a whole source. That nothing is left over is checked after the records are
written. -/
def complete (p : Parser σ β) (source : String) : Parsing σ (Except ParseError β) := do
  match ← andThen (drive p) (fun v => map (fun _ => v) eof) (.start source) with
  | .ok v _ => pure (.ok v)
  | .fail e => pure (.error e)

end Parser
end Peg
