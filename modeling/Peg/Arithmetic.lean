import Peg.Grammar.Eval
import Peg.Request

/-!
# Peg.Arithmetic

A grammar for sums, products and parentheses that computes the value of what it reads:

    number        := '-'? digit+
    terminal      := number | '(' plusMinus ')'
    timesDivision := terminal (ws ('*' | '/') ws terminal)*
    plusMinus     := timesDivision (ws ('+' | '-') ws timesDivision)*

where `ws` is any run of white space. Operators of one level are applied from left to right. The
numbers are of any type with the operations of `Ops`, for instance floating-point numbers.
-/

namespace Peg
namespace Arithmetic

/-- The operations on numbers that the grammar uses. -/
structure Ops (α : Type) where
  ofNat : Nat → α
  add : α → α → α
  sub : α → α → α
  mul : α → α → α
  div : α → α → α
  neg : α → α

def floatOps : Ops Float where
  ofNat := Float.ofNat
  add := (· + ·)
  sub := (· - ·)
  mul := (· * ·)
  div := (· / ·)
  neg := (- ·)

/-- The 64 bits of a number as 16 digits of base 16; all values that are no number read `nan`. -/
def bitsText (x : Float) : String :=
  if x.isNaN then "nan"
  else
    let digits := Nat.toDigits 16 x.toBits.toNat
    String.ofList (List.replicate (16 - digits.length) '0' ++ digits)

/-! ## Rules -/

def number : Rule := ⟨"number", 0⟩
def terminal : Rule := ⟨"terminal", 1⟩
def timesDivision : Rule := ⟨"times_division", 2⟩
def plusMinus : Rule := ⟨"plus_minus", 3⟩

section Bodies

variable {α : Type} (ops : Ops α)

/-- The number in a value; zero if there is none. -/
def numOf : Value α → α
  | .num n => n
  | _ => ops.ofNat 0

def digitOf (c : Char) : Nat := c.toNat - '0'.toNat

/-- The number that digits stand for, taken in from left to right. -/
def magnitude (digits : List Char) : α :=
  digits.foldl (fun total c => ops.add (ops.mul total (ops.ofNat 10)) (ops.ofNat (digitOf c)))
    (ops.ofNat 0)

/-- The value of a sign, if there is one, and digits. -/
def ofSignDigits : Value α → Value α
  | .pair sign digits =>
    let total := magnitude ops digits.chars
    match sign with
    | .some _ => .num (ops.neg total)
    | _ => .num total
  | v => v

/-- Applies one operator of a chain, given as a pair of the operator and its right operand. -/
def applyTail (byChar : Char → α → α → α) (total : α) : Value α → α
  | .pair (.char op) v => byChar op total (numOf ops v)
  | _ => total

/-- The value of an operand and the chain of operators behind it. -/
def ofChain (byChar : Char → α → α → α) : Value α → Value α
  | .pair head (.list tail) => .num (tail.foldl (applyTail ops byChar) (numOf ops head))
  | v => v

/-- A first operand, and any number of operators each with another operand. -/
def chain (op₁ op₂ : Char) (operand : Rule) (byChar : Char → α → α → α) : Grammar Empty Empty α :=
  let op := Grammar.spaceBefore (.alternative [.char op₁, .char op₂])
  .map (ofChain ops byChar)
    (.and (.rule operand) (.many0 (.and op (.spaceBefore (.rule operand)))))

def numberBody : Grammar Empty Empty α :=
  .map (ofSignDigits ops) (.and (.optional (.char '-')) (.many1 (.single CharClass.isDigit)))

def terminalBody : Grammar Empty Empty α :=
  .alternative
    [.rule number,
      .map (fun v => v.first.second) (.and (.and (.char '(') (.rule plusMinus)) (.char ')'))]

def timesDivisionBody : Grammar Empty Empty α :=
  chain ops '*' '/' terminal fun c => if c = '*' then ops.mul else ops.div

def plusMinusBody : Grammar Empty Empty α :=
  chain ops '+' '-' timesDivision fun c => if c = '+' then ops.add else ops.sub

/-- The rules with their bodies, in the order in which they are defined. -/
def definitions : List (Rule × Grammar Empty Empty α) :=
  [(number, numberBody ops), (terminal, terminalBody), (timesDivision, timesDivisionBody ops),
    (plusMinus, plusMinusBody ops)]

def body? (slot : Nat) : Option (Grammar Empty Empty α) := ((definitions ops)[slot]?).map Prod.snd

def env : Env Empty Empty Unit α := .ofBodies (body? ops)

/-- The parser of sums. -/
def parser : Parser Unit (Value α) := Grammar.parser (env ops) (.rule plusMinus)

/-- What defining the rules leaves in the log. -/
def definedRecords : List Record := (definitions ops).map fun d => .defined d.1.name

/-- Defines the rules and carries out a request with the parser of sums. -/
def run (req : Request) : Reply.Logged Unit (Value α) :=
  let r := req.run (parser ops) ()
  { r with log := definedRecords ops ++ r.log }

end Bodies
end Arithmetic
end Peg
