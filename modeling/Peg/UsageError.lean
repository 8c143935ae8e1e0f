/-!
# Peg.UsageError

The ways in which a caller can misuse rules and cursors. They are mistakes in a program that builds
or starts a parser, not mismatches of a source with a grammar (`Peg.ParseError`).
-/

namespace Peg

inductive UsageError where
  | undefinedRule (name : String)
  | alreadyDefined (name : String)
  /-- A cursor was asked for at an offset that is no boundary of the text of that many bytes. -/
  | invalidOffset (offset length : Nat)
deriving DecidableEq

namespace UsageError

def message : UsageError → String
  | .undefinedRule name => s!"rule `{name}` was invoked before it was defined"
  | .alreadyDefined name => s!"rule `{name}` is already defined"
  | .invalidOffset offset length =>
    s!"offset {offset} is not a character boundary of the {length}-byte input"

end UsageError
end Peg
