import Peg.Location.Basic

/-!
# Peg.Location.Context

The lines around a location, with a pointer under it.

`pieces` cuts a text at its newlines, so a text that ends in a newline has an empty last piece: that
is the line on which a failure at the end of the input lies. The context of a location is the pieces
from two lines before it to two lines after it, each behind its number. The line of the location
itself is marked and followed by a line with the pointer, which is indented by as many bytes as
stand before the location in the marked line.

A text has less than `roomLimit` bytes, and so has the room that it is written into (`roomFor`). An
offset may be any 64-bit number, and one far past the end of its text asks for an indent that leaves
no room for the pointer. Then there is no context (`IndentFault`).
-/

namespace Peg

/-- Why the lines around a location cannot be written. -/
inductive IndentFault where
  /-- The indent is no 64-bit number. -/
  | overflow
  /-- There is no room for a line. -/
  | tooLong
deriving DecidableEq

def IndentFault.message : IndentFault → String
  | .overflow => "attempt to add with overflow"
  | .tooLong => "capacity overflow"

namespace Location

/-- The parts of a text between its newlines; there is always at least one. -/
def pieces : List Char → List (List Char)
  | [] => [[]]
  | c :: cs =>
    if c = '\n' then [] :: pieces cs
    else
      match pieces cs with
      | [] => [[c]]
      | l :: ls => (c :: l) :: ls

/-- What stands before the content of a line: its number, and a mark on the line of the location. -/
def margin (marked : Bool) (number : Nat) : String :=
  if marked then s!"  > {number} | " else s!"    {number} | "

/-- Half of what 64 bits count. -/
def roomLimit : Nat := UInt64.size / 2

/-- The room for a text of `size` bytes behind which `more` bytes are written. It starts at the size
of the text, and where it has to grow it becomes at least twice as large. -/
def roomFor (size more : Nat) : Nat := max (2 * size) (size + more)

def tip : String := "^--- here"

def pointerLine (indent : Nat) : String := String.ofList (List.replicate indent ' ') ++ tip

/-- The line below the marked one: a text of `indent` spaces, and the tip behind it. -/
def pointer (indent : Nat) : Except IndentFault String :=
  if UInt64.size ≤ indent then .error .overflow
  else if roomLimit ≤ roomFor indent tip.utf8ByteSize then .error .tooLong
  else .ok (pointerLine indent)

/-- A line of the text behind its margin, which is too short for its double to matter. -/
def row (marked : Bool) (number : Nat) (content : String) : Except IndentFault String :=
  let line := margin marked number ++ content
  if roomLimit ≤ line.utf8ByteSize then .error .tooLong else .ok line

/-- What is shown of the line with this number and content. Nothing is shown of a line that is too
far from the one of the location. -/
def contextOf (place : LineOffset) (number : Nat) (content : String) :
    Except IndentFault (List String) := do
  if number < place.line - 2 ∨ place.line + 2 < number then
    return []
  else if number = place.line then
    let marked ← row true number content
    let below ← pointer ((margin true number).utf8ByteSize + place.byteOffset)
    return [marked, below]
  else
    let line ← row false number content
    return [line]

def contextLines (loc : Location) : Except IndentFault (List String) := do
  let place := loc.lineOffset
  let blocks ← ((pieces loc.text.toList).zipIdx 1).mapM fun (content, number) =>
    contextOf place number (String.ofList content)
  return blocks.flatten

end Location
end Peg
