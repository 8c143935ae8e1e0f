import Peg.Session.Basic
import Peg.Session.Term

/-!
# Peg.Session.Script

Sessions whose grammars are given as terms. The identifiers in a term are looked up when its step is
carried out, and the counters that it needs last for the rest of the session.
-/

namespace Peg
namespace Script

open Session (Command Outcome)

inductive Step where
  | declare (id name : String)
  | clone (id of : String)
  | info (id : String)
  | define (id : String) (body : Term)
  | parse (t : Term) (req : Request)

abbrev State := Session Extension.Leaf Extension.Wrap Extension.Counters Nat

abbrev Effect := Session.Effect Extension.Leaf Extension.Wrap Extension.Counters Nat

def initial : State := .start []

/-- The grammar of a term, and the session with its counters. -/
def build? (s : State) (t : Term) : Option (Term.Built × State) :=
  (t.build s.rule? s.state).map fun (g, counters) => (g, { s with state := counters })

/-- Carries out a step, unless it uses an identifier without a rule. -/
def step? (s : State) : Step → Option Effect
  | .declare id name => s.step? Extension.all (.declare id name)
  | .clone id of => s.step? Extension.all (.clone id of)
  | .info id => s.step? Extension.all (.info id)
  | .define id body => do
    let (g, s) ← build? s body
    s.step? Extension.all (.define id g)
  | .parse t req => do
    let (g, s) ← build? s t
    s.step? Extension.all (.parse g req)

/-- The outcomes of all steps, each with the records of that step. -/
def run? (s : State) : List Step → Option (List (Outcome Nat × List Record))
  | [] => some []
  | step :: steps => do
    let effect ← step? s step
    let rest ← run? effect.session steps
    return (effect.outcome, effect.log) :: rest

/-! ## Rules and a start term -/

/-- A set of rules by name, some of them without a body, and the term to parse with. -/
structure Program where
  rules : List (String × Option Term)
  start : Term

/-- Declares every name once, and then defines the rules in the order in which they are listed. -/
def Program.setup (p : Program) : List Step :=
  (p.rules.map Prod.fst).eraseDups.map (fun name => .declare name name) ++
    p.rules.filterMap fun (name, body) => body.map (.define name)

/-- Carries out the steps up to the first that is a misuse, if there is one. The outcome is that of
the last step carried out, with the records of all. -/
def runToMisuse? (s : State) (last : Step) : List Step → Option (Outcome Nat × List Record)
  | [] => (step? s last).map fun effect => (effect.outcome, effect.log)
  | step :: steps => do
    let effect ← step? s step
    if let .replied reply := effect.outcome then
      return (.replied reply, effect.log)
    let (outcome, log) ← runToMisuse? effect.session last steps
    return (outcome, effect.log ++ log)

def Program.run? (p : Program) (req : Request) : Option (Outcome Nat × List Record) :=
  runToMisuse? initial (.parse p.start req) p.setup

end Script
end Peg
