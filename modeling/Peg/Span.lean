import Peg.Text

/-!
# Peg.Span

A stretch of a source text, given by the byte offsets of its ends. The ends are plain numbers: a
span may run backwards, leave its source or cut a character, and then it covers no text.
-/

namespace Peg

structure Span where
  source : String
  /-- Offset of the first byte covered. -/
  start : Nat
  /-- Offset just past the last byte covered. -/
  stop : Nat
deriving DecidableEq

namespace Span

/-- Number of bytes between the ends; none for a span that runs backwards. -/
def length? (s : Span) : Option Nat :=
  if s.start ≤ s.stop then some (s.stop - s.start) else none

/-- Says that a span running backwards has no length. -/
def reversedMessage : String := "attempt to subtract with overflow"

def isEmpty (s : Span) : Bool := s.start == s.stop

/-- The text covered; empty when the ends do not cut a slice out of the source. -/
def text (s : Span) : String := (Text.slice? s.source s.start s.stop).getD ""

end Span
end Peg
