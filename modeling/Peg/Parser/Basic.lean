import Peg.Parsing
import Peg.Span

/-!
# Peg.Parser.Basic

A parser reads on from a cursor and answers with a value and the cursor behind what it read, or with
a mismatch. Here are the parsers for a single character and for the end of the input, and the ways
to put parsers one after the other: a mismatch of any of them is the mismatch of the whole, as it is.
-/

namespace Peg

/-- What a parser that was not aborted has found. -/
inductive Answer (β : Type) where
  | ok (value : β) (rest : Cursor)
  | fail (error : ParseError)

def Answer.map {β γ : Type} (f : β → γ) : Answer β → Answer γ
  | .ok v d => .ok (f v) d
  | .fail e => .fail e

abbrev Parser (σ β : Type) : Type := Cursor → Parsing σ (Answer β)

namespace Parser

variable {σ β γ : Type}

/-- Reads nothing and succeeds. -/
def succeed (v : β) : Parser σ β := fun c => pure (.ok v c)

/-- Fails at its cursor. -/
def refuse (cause : Cause) : Parser σ β := fun c => pure (.fail (.ofCursor cause c))

/-- Runs `p` and, if it succeeds, goes on from where it stopped with the parser that its value
selects. -/
def andThen (p : Parser σ β) (f : β → Parser σ γ) : Parser σ γ := fun c => do
  match ← p c with
  | .ok v d => f v d
  | .fail e => pure (.fail e)

def map (f : β → γ) (p : Parser σ β) : Parser σ γ := fun c => Answer.map f <$> p c

/-- One character that passes the test. The end of the input never matches, even if the test is
true of it. -/
def single (test : Option Char → Bool) : Parser σ Char := fun c =>
  match c.peek with
  | some ch => if test (some ch) then succeed ch c.next else refuse .predicate c
  | none => refuse .predicate c

/-- The end of the input. -/
def eof : Parser σ Unit := fun c =>
  match c.peek with
  | none => succeed () c
  | some _ => refuse .endOfInput c

/-- Two parsers in sequence. -/
def and (p : Parser σ β) (q : Parser σ γ) : Parser σ (β × γ) :=
  andThen p fun v => map (v, ·) q

/-- Any number of parsers in sequence. -/
def seq : List (Parser σ β) → Parser σ (List β)
  | [] => succeed []
  | p :: ps => andThen p fun v => map (v :: ·) (seq ps)

/-- Adds the stretch of the source that `p` read to its value. -/
def withSpan (p : Parser σ β) : Parser σ (β × Span) := fun c => do
  match ← p c with
  | .ok v d => pure (.ok (v, ⟨c.source, c.offset, d.offset⟩) d)
  | .fail e => pure (.fail e)

/-- Runs the body of a rule, if it has one. -/
def invoke (r : Rule) : Option (Parser σ β) → Parser σ β
  | none => fun _ => Parsing.abort r
  | some body => fun c => do
    Parsing.emit (.entering r.name c.offset)
    body c

end Parser
end Peg
