import Peg.ParseError
import Peg.Rule.Basic

/-!
# Peg.Record

What a parse leaves in the log. Records are in the order in which things happen. Backtracking takes
back what was read, but not what was recorded.

Defining a rule leaves `defined`. A driven parse leaves `started` before anything else and, unless it
is aborted, `succeeded` or `failed` after everything else. A rule that has a body leaves `entering`
whenever it is invoked, before its body runs. A probe leaves `probed` before, and `probeOk` or
`probeFail` after, what it runs.
-/

namespace Peg

inductive Record where
  | defined (name : String)
  | started (offset : Nat)
  | succeeded (offset : Nat)
  | failed (e : ParseError)
  | entering (name : String) (offset : Nat)
  | probed (name : String) (offset : Nat)
  | probeOk (name : String) (offset stop : Nat)
  | probeFail (name : String) (offset position : Nat)
deriving DecidableEq

def Record.line : Record → String
  | .defined name => s!"DEBUG defined rule `{name}`"
  | .started offset => s!"DEBUG parse started at {offset}"
  | .succeeded offset => s!"DEBUG parse succeeded, stopped at {offset}"
  | .failed e => "DEBUG parse failed: " ++ e.display
  | .entering name offset => s!"TRACE entering rule `{name}` at {offset}"
  | .probed name offset => s!"enter {name} at {offset}"
  | .probeOk name offset stop => s!"leave {name} at {offset} ok {stop}"
  | .probeFail name offset position => s!"leave {name} at {offset} fail {position}"

end Peg
