import Peg.Grammar.Eval

/-!
# Peg.Extension

Some parsers that grammars cannot express: they fail with a message of their own, move the cursor
without looking at the input, write records, or count. The counters are the state that all parsers of
a session share. Backtracking does not take back a count.
-/

namespace Peg
namespace Extension

inductive Leaf where
  | fail (message : String)
  /-- Moves on by a number of characters, or to the end of the input. -/
  | skip (times : Nat)
  /-- Moves to an offset, of another source if one is given. -/
  | jump (offset : Nat) (source : Option String)

inductive Wrap where
  /-- Runs a parser as often as the counter allows. -/
  | limit (counter : Nat)
  /-- Records how a parser was run and how it ended. -/
  | probe (name : String)

abbrev Counters := List Nat

variable {α β : Type}

def jump (offset : Nat) (source : Option String) : Parser Counters (Value α) := fun c =>
  match Cursor.startingAt? (source.getD c.source) offset with
  | .ok d => pure (.ok .unit d)
  | .error e => Parser.refuse (.other e.message) c

/-- Takes one off the counter and runs `p`; fails once the counter is at zero. -/
def limit (counter : Nat) (p : Parser Counters β) : Parser Counters β := fun c => do
  let counters ← Parsing.getState
  match counters[counter]? with
  | some (left + 1) =>
    Parsing.setState (counters.set counter left)
    p c
  | _ => Parser.refuse (.other "limit reached") c

def probe (name : String) (p : Parser Counters β) : Parser Counters β := fun c => do
  Parsing.emit (.probed name c.offset)
  match ← p c with
  | .ok v d =>
    Parsing.emit (.probeOk name c.offset d.offset)
    pure (.ok v d)
  | .fail e =>
    Parsing.emit (.probeFail name c.offset e.position)
    pure (.fail e)

def leaf : Leaf → Parser Counters (Value α)
  | .fail message => Parser.refuse (.other message)
  | .skip times => fun c => pure (.ok .unit (c.advance times))
  | .jump offset source => jump offset source

def wrap : Wrap → Parser Counters β → Parser Counters β
  | .limit counter => limit counter
  | .probe name => probe name

def all : Foreign Leaf Wrap Counters α := ⟨leaf, wrap⟩

end Extension
end Peg
