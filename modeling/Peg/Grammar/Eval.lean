import Peg.Grammar.Basic
import Peg.Parser.Choice
import Peg.Parser.Drive
import Peg.Parser.Lookahead
import Peg.Parser.Repeat

/-!
# Peg.Grammar.Eval

The parser of a grammar. `eval env fuel g` runs `g` with at most `fuel` nested steps and as many rounds
in each repetition; without fuel there is no run. A run does not depend on the fuel that was spare,
so `Runs env g c s r` says that `r` is the run of `g` from the cursor `c` and the state `s`.

A grammar need not have a run: a rule may invoke itself before it has read anything, and a
repetition may go round forever.
-/

namespace Peg

/-- The parsers from outside the library. -/
structure Foreign (κ ω σ α : Type) where
  leaf : κ → Parser σ (Value α)
  wrap : ω → Parser σ (Value α) → Parser σ (Value α)

/-- What a grammar means beyond itself: the bodies in the slots of rules, and foreign parsers. -/
structure Env (κ ω σ α : Type) extends Foreign κ ω σ α where
  body? : Nat → Option (Grammar κ ω α)

/-- Only the bodies of rules matter to grammars built from the library's parsers alone. -/
def Env.ofBodies {α : Type} (body? : Nat → Option (Grammar Empty Empty α)) :
    Env Empty Empty Unit α where
  leaf := nofun
  wrap := nofun
  body? := body?

namespace Grammar

variable {κ ω σ α : Type}

/-- The arm that `a` stands for, if `run` runs grammars. -/
def armOf (run : Grammar κ ω α → Parser σ (Value α))
    (a : GuardedArm (Grammar κ ω α) (Value α → Value α)) :
    Parser.Arm σ (Value α) (Value α) (Value α) where
  look := run a.look
  consume := a.consume
  step := run a.step
  transform v w := a.transform (.guarded v w)

def eval (env : Env κ ω σ α) : Nat → Grammar κ ω α → Parser σ (Value α)
  | 0, _, _ => Parsing.unfinished
  | fuel + 1, g, c =>
    match g with
    | single test => Parser.map .char (Parser.single test) c
    | eof => Parser.map (fun _ => .unit) Parser.eof c
    | seq gs => Parser.map .list (Parser.seq (gs.map (eval env fuel))) c
    | alternative gs => Parser.alternative (gs.map (eval env fuel)) c
    | and a b =>
      Parser.map (fun v => .pair v.1 v.2) (Parser.and (eval env fuel a) (eval env fuel b)) c
    | or a b => Parser.or (eval env fuel a) (eval env fuel b) c
    | optional g => Parser.map Value.ofOption (Parser.optional (eval env fuel g)) c
    | many0 g => Parser.map .list (Parser.many0 fuel (eval env fuel g)) c
    | many1 g => Parser.map .list (Parser.many1 fuel (eval env fuel g)) c
    | not g => Parser.map (fun _ => .unit) (Parser.not (eval env fuel g)) c
    | map f g => Parser.map f (eval env fuel g) c
    | span g => Parser.map (fun v => .spanned v.1 v.2) (Parser.withSpan (eval env fuel g)) c
    | lookahead l =>
      Parser.lookahead (l.otherwise.map (eval env fuel)) (l.arms.map (armOf (eval env fuel))) c
    | rule r => Parser.invoke r ((env.body? r.slot).map (eval env fuel)) c
    | leaf k => env.leaf k c
    | wrap w g => env.wrap w (eval env fuel g) c

def Runs (env : Env κ ω σ α) (g : Grammar κ ω α) (c : Cursor) (s : σ) (r : Run σ (Answer (Value α))) :
    Prop :=
  ∃ fuel, eval env fuel g c s = some r

/-- More nested steps and rounds than any machine carries out. -/
def ampleFuel : Nat := Nat.pow 2 62

/-- The parser of a grammar, as it is used in programs. -/
def parser (env : Env κ ω σ α) (g : Grammar κ ω α) : Parser σ (Value α) := eval env ampleFuel g

end Grammar
end Peg
