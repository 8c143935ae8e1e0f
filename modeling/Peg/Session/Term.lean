import Peg.Extension

/-!
# Peg.Session.Term

Grammars written out: tests and maps have names, rules are referred to by identifiers, and a limited
parser states its limit. `Term.build` makes a grammar of a term. It looks the identifiers up, and it
sets up a counter of its own for every limited parser in the term.
-/

namespace Peg

/-- A named test on the character under the cursor. -/
inductive CharTest where
  | space
  | alpha
  | digit
  | always
  | never
  | atEnd
  | oneOf (cs : List Char)
  | noneOf (cs : List Char)

def CharTest.holds : CharTest → Option Char → Bool
  | .space => CharClass.isSpace
  | .alpha => CharClass.isAlpha
  | .digit => CharClass.isDigit
  | .always => fun _ => true
  | .never => fun _ => false
  | .atEnd => Option.isNone
  | .oneOf cs => fun c => c.any cs.contains
  | .noneOf cs => fun c => !c.any cs.contains

/-- A named function on values. -/
inductive Mapper where
  | tag (t : String)
  | join
  | length
  | first
  | second
  | succ
  | drop

namespace Mapper

/-- The number of values in a list, or of bytes in a text. -/
def lengthOf : Value Nat → Value Nat
  | .list vs => .num vs.length
  | .text s => .num s.utf8ByteSize
  | v => v

/-- One more than a number, and one if there is no number. -/
def succOf : Value Nat → Value Nat
  | .num n | .some (.num n) => .num (n + 1)
  | _ => .num 1

def apply : Mapper → Value Nat → Value Nat
  | .tag t => .tagged t
  | .join => Value.join
  | .length => lengthOf
  | .first => Value.first
  | .second => Value.second
  | .succ => succOf
  | .drop => fun _ => .unit

end Mapper

inductive Term where
  | char (c : Char)
  | single (test : CharTest)
  | eof
  | word
  | whitespace
  | seq (ts : List Term)
  | alternative (ts : List Term)
  | and (a b : Term)
  | or (a b : Term)
  | optional (t : Term)
  | many0 (t : Term)
  | many1 (t : Term)
  | not (t : Term)
  | map (f : Mapper) (t : Term)
  | span (t : Term)
  | spaceBefore (t : Term)
  /-- The last of the terms in `otherwise`, if there are any, is in force. -/
  | lookahead (arms : List (GuardedArm Term (Option Mapper))) (otherwise : List Term)
  | rule (id : String)
  | leaf (k : Extension.Leaf)
  /-- Runs `t` at most `times` times. -/
  | limit (times : Nat) (t : Term)
  | probe (name : String) (t : Term)

namespace Term

open Extension (Leaf Wrap Counters)

abbrev Built := Grammar Leaf Wrap Nat

/-- Sets up counters; gives up at an identifier without a rule. -/
abbrev Build := StateT Counters Option

/-- A new counter that starts at `times`. -/
def freshCounter (times : Nat) : Build Nat := do
  let counters ← get
  set (counters ++ [times])
  return counters.length

def transformOf : Option Mapper → Value Nat → Value Nat
  | some f => f.apply
  | none => id

mutual

def build (rule? : String → Option Rule) : Term → Build Built
  | char c => return .char c
  | single test => return .single test.holds
  | eof => return .eof
  | word => return .word
  | whitespace => return .whitespace
  | seq ts => return .seq (← buildAll rule? ts)
  | alternative ts => return .alternative (← buildAll rule? ts)
  | and a b => return .and (← build rule? a) (← build rule? b)
  | or a b => return .or (← build rule? a) (← build rule? b)
  | optional t => return .optional (← build rule? t)
  | many0 t => return .many0 (← build rule? t)
  | many1 t => return .many1 (← build rule? t)
  | not t => return .not (← build rule? t)
  | map f t => return .map f.apply (← build rule? t)
  | span t => return .span (← build rule? t)
  | spaceBefore t => return .spaceBefore (← build rule? t)
  | lookahead arms otherwise => do
    let guarded := Lookahead.ofArms (← buildArms rule? arms)
    return .lookahead ((← buildAll rule? otherwise).foldl Lookahead.orElse guarded)
  | rule id => return .rule (← (rule? id : Option Rule))
  | leaf k => return .leaf k
  | limit times t => return .wrap (.limit (← freshCounter times)) (← build rule? t)
  | probe name t => return .wrap (.probe name) (← build rule? t)

def buildAll (rule? : String → Option Rule) : List Term → Build (List Built)
  | [] => return []
  | t :: ts => return (← build rule? t) :: (← buildAll rule? ts)

def buildArms (rule? : String → Option Rule) :
    List (GuardedArm Term (Option Mapper)) → Build (List (GuardedArm Built (Value Nat → Value Nat)))
  | [] => return []
  | ⟨look, consume, step, f⟩ :: arms => do
    let look ← build rule? look
    let step ← build rule? step
    return ⟨look, consume, step, transformOf f⟩ :: (← buildArms rule? arms)

end

end Term
end Peg
