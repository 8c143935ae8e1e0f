/-!
# Peg.CharClass

Classes of ASCII characters, as tests on the character under a cursor. At the end of the input there
is no character, and it belongs to no class.
-/

namespace Peg
namespace CharClass

/-- Space, tab, carriage return and line feed. -/
def isSpace : Option Char → Bool
  | some c => c == ' ' || c == '\t' || c == '\r' || c == '\n'
  | none => false

/-- The lower-case letters from `a` to `z`. -/
def isAlpha : Option Char → Bool
  | some c => 'a' ≤ c && c ≤ 'z'
  | none => false

/-- The decimal digits. -/
def isDigit : Option Char → Bool
  | some c => '0' ≤ c && c ≤ '9'
  | none => false

/-- Exactly this character. -/
def isChar (c : Char) : Option Char → Bool := (· == some c)

theorem isSpace_iff {c : Char} : isSpace (some c) = true ↔ c ∈ [' ', '\t', '\r', '\n'] := by
  simp [isSpace, or_assoc]

theorem isAlpha_iff {c : Char} : isAlpha (some c) = true ↔ 'a' ≤ c ∧ c ≤ 'z' := by
  simp [isAlpha]

end CharClass
end Peg
