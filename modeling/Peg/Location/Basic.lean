/-!
# Peg.Location.Basic

A byte offset into a text, and the line on which it lies.

Lines are counted from 1 and end at a newline character. Within a line the place is given in bytes,
not in columns: the width of tabs and of wide characters would make a column ambiguous. The offset
may lie inside a character or past the end of the text; only newlines that start before it count.
-/

namespace Peg

structure Location where
  text : String
  /-- Byte offset into `text`. -/
  offset : Nat
deriving DecidableEq

/-- A place in a text by lines. -/
structure LineOffset where
  /-- Line number, counted from 1. -/
  line : Nat
  /-- Number of bytes between the start of the line and the place. -/
  byteOffset : Nat
deriving DecidableEq

namespace Location

/-- Walks over the characters, the first of which starts at byte `i`, as long as they start before
`offset`; keeps the number of the current line and the byte at which it starts. -/
def lineWalk (offset : Nat) : List Char → (i line lineStart : Nat) → Nat × Nat
  | [], _, line, lineStart => (line, lineStart)
  | c :: cs, i, line, lineStart =>
    if offset ≤ i then (line, lineStart)
    else if c = '\n' then lineWalk offset cs (i + c.utf8Size) (line + 1) (i + 1)
    else lineWalk offset cs (i + c.utf8Size) line lineStart

def lineOffset (loc : Location) : LineOffset :=
  let (line, lineStart) := lineWalk loc.offset loc.text.toList 0 1 0
  ⟨line, loc.offset - lineStart⟩

def display (loc : Location) : String :=
  let place := loc.lineOffset
  s!"line {place.line}, byte offset {place.byteOffset} (position {loc.offset})"

end Location
end Peg
