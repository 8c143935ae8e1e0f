import Peg.Grammar.Fuel
import Peg.Proofs.Plan.Basic

/-!
# Peg.Proofs.Plan.Layer

The parser of a grammar taken apart by one layer.

* `Plan.run env run p`: the plan `p` as a computation, when `run` runs the grammars in it.
* `eval_flat`: the parser of a grammar with a fixed number of parts carries out the plan.
* `eval_seq_cons`, `eval_alternative_cons`, `eval_lookahead_cons`: the same for a first part and what
  is left, and `map_list_many0_succ`, `map_list_many1_succ` for a first round and the rounds after it.
-/

namespace Peg

/-- It is enough to compare what follows a success with what follows a failure. -/
theorem Parsing.bind_answer_congr {σ β γ : Type} {x : Parsing σ (Answer β)}
    {f f' : Answer β → Parsing σ γ} (hok : ∀ v d, f (.ok v d) = f' (.ok v d))
    (hfail : ∀ e, f (.fail e) = f' (.fail e)) : x >>= f = x >>= f' := by
  congr
  funext a
  cases a with
  | ok v d => exact hok v d
  | fail e => exact hfail e

theorem Parsing.map_answer_congr {σ β γ : Type} {x : Parsing σ (Answer β)} {f f' : Answer β → γ}
    (hok : ∀ v d, f (.ok v d) = f' (.ok v d)) (hfail : ∀ e, f (.fail e) = f' (.fail e)) :
    f <$> x = f' <$> x := by
  congr
  funext a
  cases a with
  | ok v d => exact hok v d
  | fail e => exact hfail e

namespace Grammar

open Parsing (bind_answer_congr map_answer_congr)

variable {α : Type} {env : Env Empty Empty Unit α} {n : Nat} {g : Grammar Empty Empty α}
  {c : Cursor}

def Plan.run (env : Env Empty Empty Unit α) (run : Grammar Empty Empty α → Parser Unit (Value α)) :
    Plan α → Parsing Unit (Answer (Value α))
  | .done a => pure a
  | .enter r c => Parser.invoke r ((env.body? r.slot).map run) c
  | .call g c next => do
    let a ← run g c
    (next a).run env run

/-- The grammar is no repetition and has no list of parts. -/
def Flat : Grammar Empty Empty α → Prop
  | .seq (_ :: _) | .alternative (_ :: _) | .lookahead ⟨_ :: _, _⟩ | .many0 _ | .many1 _ => False
  | _ => True

theorem eval_flat (hg : g.Flat) : eval env (n + 1) g c = (plan g c).run env (eval env n) := by
  cases g with
  | single test =>
    simp only [eval, plan, Parser.map, Parser.single]
    cases c.peek with
    | none => rfl
    | some ch =>
      dsimp only
      split
      · rfl
      · rfl
  | eof =>
    simp only [eval, plan, Parser.map, Parser.eof]
    cases c.peek with
    | none => rfl
    | some ch => rfl
  | and a b =>
    simp only [eval, plan, Parser.map, Parser.and, Parser.andThen, Plan.run, map_bind]
    refine bind_answer_congr (fun v d => ?_) fun e => rfl
    simp only [Plan.run, Functor.map_map, bind_pure_comp]
    exact map_answer_congr (fun _ _ => rfl) fun _ => rfl
  | or a b =>
    simp only [eval, plan, Parser.or, Plan.run]
    refine bind_answer_congr (fun v d => rfl) fun e => ?_
    simp only [Plan.run]
    exact bind_answer_congr (fun _ _ => rfl) fun _ => rfl
  | optional g =>
    simp only [eval, plan, Parser.map, Parser.optional, Plan.run, map_bind]
    exact bind_answer_congr (fun _ _ => rfl) fun _ => rfl
  | not g =>
    simp only [eval, plan, Parser.map, Parser.not, Plan.run, map_bind]
    exact bind_answer_congr (fun _ _ => rfl) fun _ => rfl
  | map f g => simp only [eval, plan, Parser.map, Plan.run, bind_pure_comp]
  | span g =>
    simp only [eval, plan, Parser.map, Parser.withSpan, Plan.run, map_bind]
    exact bind_answer_congr (fun _ _ => rfl) fun _ => rfl
  | rule r => rfl
  | seq gs =>
    cases gs with
    | nil => rfl
    | cons g gs => exact hg.elim
  | alternative gs =>
    cases gs with
    | nil => rfl
    | cons g gs => exact hg.elim
  | lookahead l =>
    obtain ⟨arms, ow⟩ := l
    cases arms with
    | cons arm arms => exact hg.elim
    | nil =>
      cases ow with
      | none => rfl
      | some g => exact (bind_pure _).symm
  | many0 g => exact hg.elim
  | many1 g => exact hg.elim
  | leaf k => exact k.elim
  | wrap w g => exact w.elim

section Lists

variable {κ ω σ : Type} {env : Env κ ω σ α} {g : Grammar κ ω α}

theorem eval_seq_cons {gs : List (Grammar κ ω α)} :
    eval env (n + 1) (.seq (g :: gs)) c = (do
      match ← eval env n g c with
      | .ok v d => Answer.map (.cons v) <$> eval env (n + 1) (.seq gs) d
      | .fail e => pure (.fail e)) := by
  simp only [eval, List.map_cons, Parser.map, Parser.seq, Parser.andThen, map_bind]
  refine bind_answer_congr (fun v d => ?_) fun e => rfl
  simp only [Functor.map_map]
  exact map_answer_congr (fun _ _ => rfl) fun _ => rfl

theorem eval_alternative_cons {gs : List (Grammar κ ω α)} :
    eval env (n + 1) (.alternative (g :: gs)) c = (do
      match ← eval env n g c with
      | .ok v d => pure (.ok v d)
      | .fail _ => eval env (n + 1) (.alternative gs) c) :=
  bind_answer_congr (fun _ _ => rfl) fun _ => rfl

theorem eval_lookahead_cons {arm : GuardedArm (Grammar κ ω α) (Value α → Value α)}
    {arms : List (GuardedArm (Grammar κ ω α) (Value α → Value α))}
    {ow : Option (Grammar κ ω α)} :
    eval env (n + 1) (.lookahead ⟨arm :: arms, ow⟩) c = (do
      match ← eval env n arm.look c with
      | .ok v d =>
        Answer.map (fun w => arm.transform (.guarded v w)) <$>
          eval env n arm.step (if arm.consume then d else c)
      | .fail _ => eval env (n + 1) (.lookahead ⟨arms, ow⟩) c) :=
  bind_answer_congr (fun _ _ => rfl) fun _ => rfl

end Lists

section Rounds

variable {m : Nat} {p : Parser Unit (Value α)}

theorem map_list_many0_succ :
    (p.many0 (m + 1)).map Value.list c = (do
      match ← p c with
      | .ok v d => Answer.map (.cons v) <$> (p.many0 m).map Value.list d
      | .fail _ => pure (.ok (.list []) c)) := by
  simp only [Parser.map, Parser.many0, Parser.greedy, map_bind]
  refine bind_answer_congr (fun v d => ?_) fun e => rfl
  simp only [Functor.map_map]
  rfl

/-- Behind a first round the least number of rounds has been reached. -/
theorem map_list_many1_succ :
    (p.many1 (m + 1)).map Value.list c = (do
      match ← p c with
      | .ok v d => Answer.map (.cons v) <$> (p.many0 m).map Value.list d
      | .fail _ => pure (.fail (.ofCursor .atLeastOne c))) := by
  simp only [Parser.map, Parser.many1, Parser.many0, Parser.greedy, map_bind, bind_assoc]
  refine bind_answer_congr (fun v d => ?_) fun e => rfl
  simp only [Functor.map_map, bind_map_left, List.isEmpty_cons, Bool.false_eq_true, if_false,
    map_pure, bind_pure_comp]
  rfl

end Rounds
end Grammar
end Peg
