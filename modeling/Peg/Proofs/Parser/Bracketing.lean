import Peg.Proofs.Plan.Layer

/-!
# Peg.Proofs.Parser.Bracketing

Parsers put together two at a time, however they are bracketed.

* `Bracketing γ`: a binary tree with things of type `γ` at its leaves; `leaves` lists them from left
  to right, and `fold f` puts them together by `f`.
* `fold_or`: at least two parsers under `or` are the choice of them all.
* `map_flatten_fold_pair`: parsers in sequence, two at a time, are the sequence of them all. The pairs
  that they nest hold the values of the leaves in order (`flatten`).

Both come from the way in which parsers are put behind each other (`orElse_assoc`, `andThen_assoc`).
Nothing is assumed of the parsers at the leaves. They may write records, use the state, abort or
not end, so each of them is run as often, and in the same order, on both sides.
-/

namespace Peg

inductive Bracketing (γ : Type) where
  | leaf (x : γ)
  | node (a b : Bracketing γ)

namespace Bracketing

variable {γ δ α : Type}

def leaves : Bracketing γ → List γ
  | leaf x => [x]
  | node a b => a.leaves ++ b.leaves

def map (f : γ → δ) : Bracketing γ → Bracketing δ
  | leaf x => leaf (f x)
  | node a b => node (a.map f) (b.map f)

def fold (f : γ → γ → γ) : Bracketing γ → γ
  | leaf x => x
  | node a b => f (a.fold f) (b.fold f)

/-- The values at the places of the leaves, in a value that is a pair at the place of each node. -/
def flatten : Bracketing γ → Value α → List (Value α)
  | node a b, .pair v w => a.flatten v ++ b.flatten w
  | _, v => [v]

theorem leaves_map (f : γ → δ) (t : Bracketing γ) : (t.map f).leaves = t.leaves.map f := by
  induction t with
  | leaf x => rfl
  | node a b iha ihb => rw [map, leaves, iha, ihb, leaves, List.map_append]

theorem flatten_map (f : γ → δ) (t : Bracketing γ) :
    ((t.map f).flatten : Value α → List (Value α)) = t.flatten := by
  induction t with
  | leaf x => rfl
  | node a b iha ihb =>
    funext v
    cases v with
    | pair v w => rw [map, flatten, iha, ihb, flatten]
    | _ => rfl

theorem fold_map {F : γ → δ} {f : γ → γ → γ} {g : δ → δ → δ}
    (h : ∀ x y, F (f x y) = g (F x) (F y)) (t : Bracketing γ) :
    F (t.fold f) = (t.map F).fold g := by
  induction t with
  | leaf x => rfl
  | node a b iha ihb => rw [fold, h, iha, ihb, map, fold]

end Bracketing

namespace Parser

open Parsing (bind_answer_congr map_answer_congr)

variable {σ β γ δ α : Type}

/-! ## Choice -/

/-- Runs `q` where `p` fails, from the same cursor. -/
def orElse (p q : Parser σ β) : Parser σ β := fun c => do
  match ← p c with
  | .ok v d => pure (.ok v d)
  | .fail _ => q c

theorem orElse_assoc (p q r : Parser σ β) :
    (p.orElse q).orElse r = p.orElse (q.orElse r) := by
  funext c
  simp only [orElse, bind_assoc]
  exact bind_answer_congr (fun v d => pure_bind _ _) fun _ => rfl

theorem refuse_orElse (cause : Cause) (q : Parser σ β) : (refuse cause).orElse q = q :=
  funext fun _ => pure_bind _ _

theorem or_eq_orElse (p q : Parser σ β) : p.or q = p.orElse (q.orElse (alternative [])) := rfl

/-- By induction on the tree, for whatever is tried behind it. Where the parts of a node have failed,
the error that the node would report is dropped. -/
theorem fold_or_orElse (t : Bracketing (Parser σ β)) (ps : List (Parser σ β)) :
    (t.fold or).orElse (alternative ps) = alternative (t.leaves ++ ps) := by
  induction t generalizing ps with
  | leaf p => rfl
  | node a b iha ihb =>
    calc
      ((a.fold or).or (b.fold or)).orElse (alternative ps)
        = (a.fold or).orElse ((b.fold or).orElse ((alternative []).orElse (alternative ps))) := by
          rw [or_eq_orElse, orElse_assoc, orElse_assoc]
      _ = (a.fold or).orElse (alternative (b.leaves ++ ps)) := by
          rw [alternative, refuse_orElse, ihb]
      _ = alternative (a.leaves ++ b.leaves ++ ps) := by rw [iha, List.append_assoc]

theorem fold_or {t : Bracketing (Parser σ β)} (ht : 2 ≤ t.leaves.length) :
    t.fold or = alternative t.leaves := by
  cases t with
  | leaf p => exact absurd ht (by simp [Bracketing.leaves])
  | node a b =>
    rw [Bracketing.fold, or_eq_orElse, fold_or_orElse, fold_or_orElse, Bracketing.leaves,
      List.append_nil]

/-! ## Sequence -/

theorem succeed_andThen (v : β) (f : β → Parser σ γ) : (succeed v).andThen f = f v :=
  funext fun _ => pure_bind _ _

theorem andThen_succeed (p : Parser σ β) : p.andThen succeed = p := by
  funext c
  refine Eq.trans ?_ (bind_pure (p c))
  exact bind_answer_congr (fun _ _ => rfl) fun _ => rfl

theorem andThen_assoc (p : Parser σ β) (f : β → Parser σ γ) (g : γ → Parser σ δ) :
    (p.andThen f).andThen g = p.andThen fun v => (f v).andThen g := by
  funext c
  simp only [andThen, bind_assoc]
  exact bind_answer_congr (fun _ _ => rfl) fun _ => pure_bind _ _

theorem map_eq_andThen (f : β → γ) (p : Parser σ β) :
    p.map f = p.andThen fun v => succeed (f v) := by
  funext c
  simp only [map, andThen, map_eq_pure_bind]
  exact bind_answer_congr (fun _ _ => rfl) fun _ => rfl

theorem seq_append (ps qs : List (Parser σ β)) :
    seq (ps ++ qs) = (seq ps).andThen fun vs => (seq qs).map (vs ++ ·) := by
  induction ps with
  | nil =>
    simp only [List.nil_append, seq, succeed_andThen, map_eq_andThen]
    exact (andThen_succeed (seq qs)).symm
  | cons p ps ih =>
    simp only [List.cons_append, seq, ih, map_eq_andThen, andThen_assoc, succeed_andThen]

/-- Two parsers in sequence, with a pair as their value. -/
def pair (p q : Parser σ (Value α)) : Parser σ (Value α) := (p.and q).map fun v => .pair v.1 v.2

/-- By induction on the tree; the values of a node are those of its first part, and behind them those
of its second. -/
theorem map_flatten_fold_pair (t : Bracketing (Parser σ (Value α))) :
    (t.fold pair).map t.flatten = seq t.leaves := by
  induction t with
  | leaf p =>
    simp only [Bracketing.leaves, Bracketing.fold, Bracketing.flatten, seq, map_eq_andThen,
      succeed_andThen]
  | node a b iha ihb =>
    rw [Bracketing.leaves, seq_append, ← iha, ← ihb]
    simp only [Bracketing.fold, Bracketing.flatten, pair, and, map_eq_andThen, andThen_assoc,
      succeed_andThen]

end Parser
end Peg
