import Peg.Text.Unshown

/-!
# Peg.Text.Quoted

A text between double quotes, on one line. A quote and a backslash get a backslash in front, and the
common control characters have letters of their own. All other characters that cannot be shown
standing alone are written by their number in base 16.
-/

namespace Peg.Text

/-- How a character is written inside a quoted text. -/
def escape (c : Char) : List Char :=
  if c = '"' then ['\\', '"']
  else if c = '\\' then ['\\', '\\']
  else if c = '\n' then ['\\', 'n']
  else if c = '\r' then ['\\', 'r']
  else if c = '\t' then ['\\', 't']
  else if c = '\x00' then ['\\', '0']
  else if isUnshown c then
    ['\\', 'u', '\x7b'] ++ Nat.toDigits 16 c.toNat ++ ['\x7d']
  else [c]

def quote (s : String) : String := String.ofList ('"' :: s.toList.flatMap escape ++ ['"'])

end Peg.Text
