import Peg.Cursor.Basic
import Peg.Location.Context

/-!
# Peg.ParseError

A mismatch of the source with a grammar. It is an ordinary outcome of parsing, from which choices
and repetitions recover. It says what was expected and where the parser that failed was started.
-/

namespace Peg

/-- What went wrong. Each kind of parser that can fail of itself has one cause. -/
inductive Cause where
  | predicate
  | endOfInput
  | noAlternative
  | atLeastOne
  | unexpectedMatch
  /-- What a parser from outside the library says. -/
  | other (text : String)
deriving DecidableEq

def Cause.text : Cause → String
  | .predicate => "expected predicate-matched character"
  | .endOfInput => "expected end of input"
  | .noAlternative => "no alternative matches"
  | .atLeastOne => "expected at least one occurrence"
  | .unexpectedMatch => "unexpected match"
  | .other text => text

structure ParseError where
  cause : Cause
  location : Location
deriving DecidableEq

namespace ParseError

/-- The failure at a cursor. -/
def ofCursor (cause : Cause) (c : Cursor) : ParseError := ⟨cause, ⟨c.source, c.offset⟩⟩

def message (e : ParseError) : String := e.cause.text

/-- Byte offset of the failure. -/
def position (e : ParseError) : Nat := e.location.offset

@[simp] theorem message_ofCursor (cause : Cause) (c : Cursor) :
    (ofCursor cause c).message = cause.text := rfl

@[simp] theorem location_ofCursor (cause : Cause) (c : Cursor) :
    (ofCursor cause c).location = ⟨c.source, c.offset⟩ := rfl

@[simp] theorem position_ofCursor (cause : Cause) (c : Cursor) :
    (ofCursor cause c).position = c.offset := rfl

def display (e : ParseError) : String := e.message ++ " at " ++ e.location.display

/-- The failure in one line, an empty line, and the source around it. -/
def context (e : ParseError) : Except IndentFault String := do
  let lines ← e.location.contextLines
  return e.display ++ "\n\n" ++ String.join (lines.map (· ++ "\n"))

end ParseError
end Peg
