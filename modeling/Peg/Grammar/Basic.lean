import Peg.CharClass
import Peg.Rule.Basic
import Peg.Value

/-!
# Peg.Grammar.Basic

Grammars as data. A grammar says which parsers are combined and how; `Peg.Grammar.Eval` runs it.

Rules occur in a grammar as references, so a grammar is a finite tree even if its rules are
recursive. Parsers from outside the library occur as keys: `κ` are the keys of parsers that stand
alone, `ω` those of parsers that run another grammar in their own way. A grammar of type
`Grammar Empty Empty α` is built from the library's parsers alone.
-/

namespace Peg

/-- An arm of a lookahead over grammars `γ`; `φ` says what is done with the values found. -/
structure GuardedArm (γ φ : Type) where
  look : γ
  /-- Whether the step goes on behind what the guard read. -/
  consume : Bool
  step : γ
  transform : φ

structure Lookahead (γ φ : Type) where
  arms : List (GuardedArm γ φ)
  /-- Run if no guard succeeds. -/
  otherwise : Option γ

namespace Lookahead

variable {γ φ : Type}

def ofArms (arms : List (GuardedArm γ φ)) : Lookahead γ φ := ⟨arms, none⟩

/-- Adds an arm behind the others. -/
def arm (l : Lookahead γ φ) (a : GuardedArm γ φ) : Lookahead γ φ := { l with arms := l.arms ++ [a] }

/-- Sets the grammar for the case that no guard succeeds; the last one set is in force. -/
def orElse (l : Lookahead γ φ) (g : γ) : Lookahead γ φ := { l with otherwise := some g }

end Lookahead

inductive Grammar (κ ω α : Type) where
  /-- One character that passes a test. -/
  | single (test : Option Char → Bool)
  | eof
  | seq (gs : List (Grammar κ ω α))
  | alternative (gs : List (Grammar κ ω α))
  | and (a b : Grammar κ ω α)
  | or (a b : Grammar κ ω α)
  | optional (g : Grammar κ ω α)
  | many0 (g : Grammar κ ω α)
  | many1 (g : Grammar κ ω α)
  | not (g : Grammar κ ω α)
  | map (f : Value α → Value α) (g : Grammar κ ω α)
  | span (g : Grammar κ ω α)
  /-- A committed choice; an arm's transform is applied to what its guard and step have found. -/
  | lookahead (l : Lookahead (Grammar κ ω α) (Value α → Value α))
  | rule (r : Rule)
  /-- A parser from outside the library. -/
  | leaf (k : κ)
  /-- A parser from outside the library that runs `g`. -/
  | wrap (w : ω) (g : Grammar κ ω α)

namespace Grammar

variable {κ ω α : Type}

def char (c : Char) : Grammar κ ω α := single (CharClass.isChar c)

def whitespace : Grammar κ ω α := single CharClass.isSpace

/-- The longest run of lower-case letters, at least one, as a text. -/
def word : Grammar κ ω α := map Value.join (many1 (single CharClass.isAlpha))

/-- Skips white space in front of `g`. -/
def spaceBefore (g : Grammar κ ω α) : Grammar κ ω α := map Value.second (and (many0 whitespace) g)

end Grammar
end Peg
