import Peg.Text.Quoted

/-!
# Peg.Rule.Basic

References to grammar rules. A rule is declared before its body is known, so that bodies can refer to
rules that come later, or to themselves. What a reference carries is the rule's name, which appears
in messages and records, and the slot in which the body is looked up when the rule is invoked. Two
references share a body exactly when they share the slot; names need not be distinct.
-/

namespace Peg

structure Rule where
  name : String
  slot : Nat
deriving DecidableEq

namespace Rule

/-- The name of a rule that was declared without one. -/
def anonymous : String := "<anonymous>"

/-- The rule's name and whether it has a body. -/
def describe (r : Rule) (defined : Bool) : String :=
  "Rule \x7b name: " ++ Text.quote r.name ++ ", defined: " ++ (if defined then "true" else "false")
    ++ " \x7d"

end Rule
end Peg
