import Peg.Grammar.Basic
import Peg.Log
import Peg.Parser.Basic

/-!
# Peg.Proofs.Plan.Basic

What a grammar does at a cursor, one layer deep and without bounds.

* `plan g c`: which grammars `g` runs from which cursors, in which order, and what it makes of their
  answers.
* `Performs body? p o log`: with the table of rules `body?`, carrying out the plan `p` comes to the
  answer or the abort `o` and writes `log`.

A plan does not look into the grammars that it runs, so it is finite even for recursive rules. What
is left of a list of parts, or of a repetition, counts as a grammar of its own.
-/

namespace Peg

/-- A value in front of the values of a list. -/
def Value.cons {α : Type} (v : Value α) : Value α → Value α
  | .list vs => .list (v :: vs)
  | w => w

namespace Grammar

inductive Plan (α : Type) where
  | done (a : Answer (Value α))
  /-- Invokes a rule, and answers as its body does. -/
  | enter (r : Rule) (c : Cursor)
  /-- Runs `g` from `c`, and goes on with its answer. -/
  | call (g : Grammar Empty Empty α) (c : Cursor) (next : Answer (Value α) → Plan α)

variable {α : Type}

def plan : Grammar Empty Empty α → Cursor → Plan α
  | .single test, c =>
    match c.peek with
    | some ch =>
      if test (some ch) then .done (.ok (.char ch) c.next)
      else .done (.fail (.ofCursor .predicate c))
    | none => .done (.fail (.ofCursor .predicate c))
  | .eof, c =>
    match c.peek with
    | none => .done (.ok .unit c)
    | some _ => .done (.fail (.ofCursor .endOfInput c))
  | .seq [], c => .done (.ok (.list []) c)
  | .seq (g :: gs), c => .call g c fun
    | .ok v d => .call (.seq gs) d fun a => .done (a.map (.cons v))
    | .fail e => .done (.fail e)
  | .alternative [], c => .done (.fail (.ofCursor .noAlternative c))
  | .alternative (g :: gs), c => .call g c fun
    | .ok v d => .done (.ok v d)
    | .fail _ => .call (.alternative gs) c .done
  | .and a b, c => .call a c fun
    | .ok v d => .call b d fun x => .done (x.map (.pair v))
    | .fail e => .done (.fail e)
  | .or a b, c => .call a c fun
    | .ok v d => .done (.ok v d)
    | .fail _ => .call b c fun
      | .ok v d => .done (.ok v d)
      | .fail _ => .done (.fail (.ofCursor .noAlternative c))
  | .optional g, c => .call g c fun
    | .ok v d => .done (.ok (.some v) d)
    | .fail _ => .done (.ok .none c)
  | .many0 g, c => .call g c fun
    | .ok v d => .call (.many0 g) d fun a => .done (a.map (.cons v))
    | .fail _ => .done (.ok (.list []) c)
  | .many1 g, c => .call g c fun
    | .ok v d => .call (.many0 g) d fun a => .done (a.map (.cons v))
    | .fail _ => .done (.fail (.ofCursor .atLeastOne c))
  | .not g, c => .call g c fun
    | .ok _ _ => .done (.fail (.ofCursor .unexpectedMatch c))
    | .fail _ => .done (.ok .unit c)
  | .map f g, c => .call g c fun a => .done (a.map f)
  | .span g, c => .call g c fun
    | .ok v d => .done (.ok (.spanned v ⟨c.source, c.offset, d.offset⟩) d)
    | .fail e => .done (.fail e)
  | .lookahead ⟨[], none⟩, c => .done (.fail (.ofCursor .noAlternative c))
  | .lookahead ⟨[], some g⟩, c => .call g c .done
  | .lookahead ⟨arm :: arms, ow⟩, c => .call arm.look c fun
    | .ok v d => .call arm.step (if arm.consume then d else c) fun a =>
      .done (a.map fun w => arm.transform (.guarded v w))
    | .fail _ => .call (.lookahead ⟨arms, ow⟩) c .done
  | .rule r, c => .enter r c

inductive Performs (body? : Nat → Option (Grammar Empty Empty α)) :
    Plan α → Except Rule (Answer (Value α)) → Log → Prop
  | done {a : Answer (Value α)} : Performs body? (.done a) (.ok a) .empty
  | undefined {r : Rule} {c : Cursor} :
      body? r.slot = none → Performs body? (.enter r c) (.error r) .empty
  | enter {r : Rule} {c : Cursor} {b : Grammar Empty Empty α}
      {o : Except Rule (Answer (Value α))} {log : Log} :
      body? r.slot = some b → Performs body? (plan b c) o log →
      Performs body? (.enter r c) o (.single (.entering r.name c.offset) ++ log)
  /-- Nothing goes on behind an abort. -/
  | stop {g : Grammar Empty Empty α} {c : Cursor} {next : Answer (Value α) → Plan α} {r : Rule}
      {log : Log} :
      Performs body? (plan g c) (.error r) log → Performs body? (.call g c next) (.error r) log
  | step {g : Grammar Empty Empty α} {c : Cursor} {next : Answer (Value α) → Plan α}
      {a : Answer (Value α)} {o : Except Rule (Answer (Value α))} {log log' : Log} :
      Performs body? (plan g c) (.ok a) log → Performs body? (next a) o log' →
      Performs body? (.call g c next) o (log ++ log')

end Grammar
end Peg
