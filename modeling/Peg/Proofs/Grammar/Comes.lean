import Peg.Proofs.Plan.Layer

/-!
# Peg.Proofs.Grammar.Comes

What grammars come to, records and fuel left aside. Parsers from outside the library are allowed, as
long as they have no state.

* `Parsing.EndsIn x o`: the computation `x` ends with a result, or is aborted at a rule.
* `Comes env g c o`: so does `g`, run from `c`, with some fuel. There is one such outcome at most
  (`Comes.unique`).
* `Onward env g b join stop c o`: the outcome `o` of running `g` from `c` and then `b` behind it.

The laws `comes_and`, `comes_many0` and `comes_many1` say what a grammar comes to by what its first
part does; for a repetition this is its first round.
-/

namespace Peg
namespace Parsing

variable {α β : Type} {x : Parsing Unit α}

def EndsIn (x : Parsing Unit α) (o : Except Rule α) : Prop := ∃ log, x () = some ⟨o, log, ()⟩

theorem endsIn_pure {a : α} {o : Except Rule α} : EndsIn (pure a) o ↔ o = .ok a := by
  simp [EndsIn, pure_apply, eq_comm]

theorem not_endsIn_unfinished {o : Except Rule α} : ¬ EndsIn unfinished o := by
  simp [EndsIn, unfinished_apply]

theorem endsIn_bind {f : α → Parsing Unit β} {o : Except Rule β} :
    EndsIn (x >>= f) o ↔
      (∃ r, EndsIn x (.error r) ∧ o = .error r) ∨ ∃ a, EndsIn x (.ok a) ∧ EndsIn (f a) o := by
  constructor
  · rintro ⟨log, h⟩
    rcases bind_eq_some_iff.1 h with ⟨r, log', s, hx, he⟩ | ⟨a, log', s, q, hx, hq, he⟩
    · cases he
      exact .inl ⟨r, ⟨log, hx⟩, rfl⟩
    · obtain ⟨result, log'', s'⟩ := q
      cases he
      exact .inr ⟨a, ⟨log', hx⟩, ⟨log'', hq⟩⟩
  · rintro (⟨r, ⟨log, hx⟩, rfl⟩ | ⟨a, ⟨log, hx⟩, ⟨log', hq⟩⟩)
    · exact ⟨log, bind_eq_some_iff.2 (.inl ⟨r, log, (), hx, rfl⟩)⟩
    · exact ⟨log ++ log', bind_eq_some_iff.2 (.inr ⟨a, log, (), _, hx, hq, rfl⟩)⟩

theorem endsIn_map {f : α → β} {o : Except Rule β} :
    EndsIn (f <$> x) o ↔ ∃ o', EndsIn x o' ∧ o = o'.map f := by
  rw [map_eq_pure_bind, endsIn_bind]
  constructor
  · rintro (⟨r, hx, rfl⟩ | ⟨a, hx, ho⟩)
    · exact ⟨.error r, hx, rfl⟩
    · exact ⟨.ok a, hx, endsIn_pure.1 ho⟩
  · rintro ⟨r | a, hx, rfl⟩
    · exact .inl ⟨r, hx, rfl⟩
    · exact .inr ⟨a, hx, endsIn_pure.2 rfl⟩

theorem EndsIn.extends {y : Parsing Unit α} {o : Except Rule α} (h : EndsIn x o)
    (hxy : Extends x y) : EndsIn y o := by
  obtain ⟨log, hx⟩ := h
  exact ⟨log, hxy _ _ hx⟩

/-- What two runs have from some fuel on they have together. -/
theorem eventually_and {P Q : Nat → Prop} (hp : ∃ n, ∀ m, n ≤ m → P m)
    (hq : ∃ n, ∀ m, n ≤ m → Q m) : ∃ n, ∀ m, n ≤ m → P m ∧ Q m := by
  obtain ⟨n, hn⟩ := hp
  obtain ⟨n', hn'⟩ := hq
  refine ⟨max n n', fun m hm => ⟨hn m ?_, hn' m ?_⟩⟩
  · exact Nat.le_trans (Nat.le_max_left n n') hm
  · exact Nat.le_trans (Nat.le_max_right n n') hm

end Parsing

namespace Grammar

open Parsing (EndsIn Extends eventually_and endsIn_pure endsIn_bind endsIn_map not_endsIn_unfinished)

variable {κ ω α : Type} {env : Env κ ω Unit α} {g b whole : Grammar κ ω α} {c : Cursor}
  {o o' : Except Rule (Answer (Value α))}

def Comes (env : Env κ ω Unit α) (g : Grammar κ ω α) (c : Cursor)
    (o : Except Rule (Answer (Value α))) : Prop :=
  ∃ n, EndsIn (eval env n g c) o

theorem comes_iff_runs : Comes env g c o ↔ ∃ log, Runs env g c () ⟨o, log, ()⟩ := by
  constructor
  · rintro ⟨n, log, h⟩
    exact ⟨log, n, h⟩
  · rintro ⟨log, n, h⟩
    exact ⟨n, log, h⟩

theorem Comes.unique (hf : env.toForeign.Monotone) (h : Comes env g c o)
    (h' : Comes env g c o') : o = o' := by
  obtain ⟨log, hr⟩ := comes_iff_runs.1 h
  obtain ⟨log', hr'⟩ := comes_iff_runs.1 h'
  cases Runs.unique hf hr hr'
  rfl

theorem Comes.eventually (hf : env.toForeign.Monotone) (h : Comes env g c o) :
    ∃ n, ∀ m, n ≤ m → EndsIn (eval env m g c) o := by
  obtain ⟨n, hn⟩ := h
  exact ⟨n, fun m hnm => hn.extends (eval_extends hf hnm g c)⟩

theorem comes_map {f : Value α → Value α} :
    Comes env (.map f g) c o ↔ ∃ o', Comes env g c o' ∧ o = o'.map (Answer.map f) := by
  constructor
  · rintro ⟨n, hn⟩
    cases n with
    | zero => exact absurd hn not_endsIn_unfinished
    | succ n =>
      obtain ⟨o', ho', rfl⟩ := endsIn_map.1 hn
      exact ⟨o', ⟨n, ho'⟩, rfl⟩
  · rintro ⟨o', ⟨n, hn⟩, rfl⟩
    exact ⟨n + 1, endsIn_map.2 ⟨o', hn, rfl⟩⟩

/-! ## A first part, and what follows it -/

/-- Runs `g` from `c`. Behind a success it goes on with `b`, and joins the two values; a failure is
turned into the answer. -/
def onward (run : Grammar κ ω α → Parser Unit (Value α)) (g b : Grammar κ ω α)
    (join : Value α → Value α → Value α) (stop : ParseError → Answer (Value α)) (c : Cursor) :
    Parsing Unit (Answer (Value α)) := do
  match ← run g c with
  | .ok v d => Answer.map (join v) <$> run b d
  | .fail e => pure (stop e)

inductive Onward (env : Env κ ω Unit α) (g b : Grammar κ ω α)
    (join : Value α → Value α → Value α) (stop : ParseError → Answer (Value α)) (c : Cursor) :
    Except Rule (Answer (Value α)) → Prop
  | abort {r : Rule} : Comes env g c (.error r) → Onward env g b join stop c (.error r)
  | fail {e : ParseError} :
      Comes env g c (.ok (.fail e)) → Onward env g b join stop c (.ok (stop e))
  | next {v : Value α} {d : Cursor} {o : Except Rule (Answer (Value α))} :
      Comes env g c (.ok (.ok v d)) → Comes env b d o →
      Onward env g b join stop c (o.map (Answer.map (join v)))

section Onward

variable {join : Value α → Value α → Value α} {stop : ParseError → Answer (Value α)}

theorem onward_ok {a : Answer (Value α)} :
    Onward env g b join stop c (.ok a) ↔
      (∃ e, Comes env g c (.ok (.fail e)) ∧ a = stop e) ∨
        ∃ v d a', Comes env g c (.ok (.ok v d)) ∧ Comes env b d (.ok a') ∧
          a = a'.map (join v) := by
  constructor
  · generalize ho : Except.ok a = o
    intro h
    cases h with
    | abort => cases ho
    | fail hg =>
      cases ho
      exact .inl ⟨_, hg, rfl⟩
    | @next v d o' hg hb =>
      cases o' with
      | error r => cases ho
      | ok a' =>
        cases ho
        exact .inr ⟨v, d, a', hg, hb, rfl⟩
  · rintro (⟨e, hg, rfl⟩ | ⟨v, d, a', hg, hb, rfl⟩)
    · exact .fail hg
    · exact .next hg hb

theorem onward_error {r : Rule} :
    Onward env g b join stop c (.error r) ↔
      Comes env g c (.error r) ∨
        ∃ v d, Comes env g c (.ok (.ok v d)) ∧ Comes env b d (.error r) := by
  constructor
  · generalize ho : Except.error r = o
    intro h
    cases h with
    | abort hg =>
      cases ho
      exact .inl hg
    | fail => cases ho
    | @next v d o' hg hb =>
      cases o' with
      | ok a' => cases ho
      | error r' =>
        cases ho
        exact .inr ⟨v, d, hg, hb⟩
  · rintro (hg | ⟨v, d, hg, hb⟩)
    · exact .abort hg
    · exact .next hg hb

theorem Onward.of_endsIn {n : Nat} (h : EndsIn (onward (eval env n) g b join stop c) o) :
    Onward env g b join stop c o := by
  rcases endsIn_bind.1 h with ⟨r, hr, rfl⟩ | ⟨v | e, ha, ho⟩
  · exact .abort ⟨n, hr⟩
  · obtain ⟨o', ho', rfl⟩ := endsIn_map.1 ho
    exact .next ⟨n, ha⟩ ⟨n, ho'⟩
  · cases endsIn_pure.1 ho
    exact .fail ⟨n, ha⟩

theorem Onward.endsIn (hf : env.toForeign.Monotone) (h : Onward env g b join stop c o) :
    ∃ n, EndsIn (onward (eval env n) g b join stop c) o := by
  cases h with
  | abort hg =>
    obtain ⟨n, hn⟩ := hg
    exact ⟨n, endsIn_bind.2 (.inl ⟨_, hn, rfl⟩)⟩
  | fail hg =>
    obtain ⟨n, hn⟩ := hg
    exact ⟨n, endsIn_bind.2 (.inr ⟨_, hn, endsIn_pure.2 rfl⟩)⟩
  | next hg hb =>
    obtain ⟨n, hn⟩ := eventually_and (hg.eventually hf) (hb.eventually hf)
    obtain ⟨hg', hb'⟩ := hn n (Nat.le_refl n)
    exact ⟨n, endsIn_bind.2 (.inr ⟨_, hg', endsIn_map.2 ⟨_, hb', rfl⟩⟩)⟩

theorem comes_onward (hf : env.toForeign.Monotone)
    (hdown : ∀ n, ∃ m, Extends (eval env n whole c) (onward (eval env m) g b join stop c))
    (hup : ∀ n, ∃ m, Extends (onward (eval env n) g b join stop c) (eval env m whole c)) :
    Comes env whole c o ↔ Onward env g b join stop c o := by
  constructor
  · rintro ⟨n, hn⟩
    obtain ⟨m, hm⟩ := hdown n
    exact .of_endsIn (hn.extends hm)
  · intro h
    obtain ⟨n, hn⟩ := h.endsIn hf
    obtain ⟨m, hm⟩ := hup n
    exact ⟨m, hn.extends hm⟩

theorem comes_and (hf : env.toForeign.Monotone) :
    Comes env (.and g b) c o ↔ Onward env g b .pair .fail c o := by
  have heq : ∀ n, eval env (n + 1) (.and g b) c = onward (eval env n) g b .pair .fail c := by
    intro n
    simp only [eval, Parser.map, Parser.and, Parser.andThen, onward, map_bind]
    refine Parsing.bind_answer_congr (fun v d => ?_) fun e => rfl
    simp only [Functor.map_map]
    exact Parsing.map_answer_congr (fun _ _ => rfl) fun _ => rfl
  refine comes_onward hf (fun n => ?_) fun n => ⟨n + 1, by rw [heq n]; exact .refl _⟩
  cases n with
  | zero => exact ⟨0, .unfinished _⟩
  | succ n => exact ⟨n, by rw [heq n]; exact .refl _⟩

theorem comes_and_ok (hf : env.toForeign.Monotone) {w : Value α} {d : Cursor} :
    Comes env (.and g b) c (.ok (.ok w d)) ↔
      ∃ u mid v, Comes env g c (.ok (.ok u mid)) ∧ Comes env b mid (.ok (.ok v d)) ∧
        w = .pair u v := by
  rw [comes_and hf, onward_ok]
  constructor
  · rintro (⟨e, -, heq⟩ | ⟨u, mid, _ | _, hu, hb, heq⟩)
    · cases heq
    · cases heq
      exact ⟨u, mid, _, hu, hb, rfl⟩
    · cases heq
  · rintro ⟨u, mid, v, hu, hv, rfl⟩
    exact .inr ⟨u, mid, _, hu, hv, rfl⟩

/-- A grammar that runs `g` once, and behind a success goes on as a repetition of `g` does. -/
theorem comes_repetition (hf : env.toForeign.Monotone)
    (heq : ∀ n, eval env (n + 2) whole c = (do
      match ← eval env (n + 1) g c with
      | .ok v d => Answer.map (.cons v) <$> ((eval env (n + 1) g).many0 n).map Value.list d
      | .fail e => pure (stop e))) :
    Comes env whole c o ↔ Onward env g (.many0 g) .cons stop c o := by
  refine comes_onward hf (fun n => ⟨n + 2, ?_⟩) fun n => ⟨n + 2, ?_⟩
  · refine (eval_extends hf (Nat.le_add_right n 2) whole c).trans ?_
    rw [heq n]
    refine (eval_extends hf (Nat.le_succ (n + 1)) g c).bind fun a => ?_
    cases a with
    | ok v d =>
      have hless := (Parser.Extends.refl (eval env (n + 1) g)).many0 (Nat.le_succ n)
      exact (hless.map Value.list d).map _
    | fail e => exact .refl _
  · rw [heq n]
    refine (eval_extends hf (Nat.le_succ n) g c).bind fun a => ?_
    cases a with
    | ok v d =>
      have hround := (eval_extends hf (Nat.le_succ n) g).many0 (Nat.le_refl n)
      have hloop := (eval_extends hf (Nat.le_succ n) (.many0 g) d).trans (hround.map Value.list d)
      exact hloop.map _
    | fail e => exact .refl _

theorem comes_many0 (hf : env.toForeign.Monotone) :
    Comes env (.many0 g) c o ↔ Onward env g (.many0 g) .cons (fun _ => .ok (.list []) c) c o :=
  comes_repetition hf fun _ => map_list_many0_succ

theorem comes_many1 (hf : env.toForeign.Monotone) :
    Comes env (.many1 g) c o ↔
      Onward env g (.many0 g) .cons (fun _ => .fail (.ofCursor .atLeastOne c)) c o :=
  comes_repetition hf fun _ => map_list_many1_succ

end Onward
end Grammar
end Peg
