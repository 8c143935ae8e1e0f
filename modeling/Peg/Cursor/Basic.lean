import Peg.Text
import Peg.UsageError

/-!
# Peg.Cursor.Basic

A position in a source text, from which a parser reads on.

A cursor is a plain value: a copy serves as a branch for a speculative parse, and dropping the copy
undoes it. `start` and `startingAt?` make cursors, `next` and `advance` move them, and `peek`,
`remaining` and `isAtEnd` look at what is left.
-/

namespace Peg

structure Cursor where
  source : String
  /-- Number of bytes of `source` that lie before the cursor. -/
  offset : Nat
deriving DecidableEq

namespace Cursor

def start (source : String) : Cursor := ⟨source, 0⟩

/-- The cursor at a byte offset, which has to be a boundary of the source. -/
def startingAt? (source : String) (offset : Nat) : Except UsageError Cursor :=
  if Text.isBoundary source offset then .ok ⟨source, offset⟩
  else .error (.invalidOffset offset source.utf8ByteSize)

/-- The character under the cursor; none at the end of the input. -/
def peek (c : Cursor) : Option Char := Text.charAt? c.source c.offset

/-- The cursor past the current character; at the end of the input it stays. -/
def next (c : Cursor) : Cursor :=
  match c.peek with
  | some ch => { c with offset := c.offset + ch.utf8Size }
  | none => c

/-- The cursor after `n` moves to the next character. -/
def advance : Nat → Cursor → Cursor
  | 0, c => c
  | n + 1, c => advance n c.next

def isAtEnd (c : Cursor) : Bool := c.source.utf8ByteSize ≤ c.offset

/-- The input from the cursor on; empty for an offset that is no boundary. -/
def remaining (c : Cursor) : String :=
  (Text.slice? c.source c.offset c.source.utf8ByteSize).getD ""

/-- The cursor lies between two characters of its source, or at an end of it. -/
def Valid (c : Cursor) : Prop := Text.isBoundary c.source c.offset = true

instance (c : Cursor) : Decidable c.Valid := inferInstanceAs (Decidable (_ = true))

/-- The cursor divides its source into `pre`, which lies behind it, and `post`, which is left. -/
def Splits (c : Cursor) (pre post : String) : Prop :=
  c.source = pre ++ post ∧ c.offset = pre.utf8ByteSize

end Cursor
end Peg
