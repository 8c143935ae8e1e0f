import Peg.Proofs.Plan.Layer

/-!
# Peg.Proofs.Plan.Adequacy

Running a grammar is carrying out its plan.

* `Follows body? x p`: every run of the computation `x` is one that carries out the plan `p`.
* `follows_eval`: the parser of a grammar follows its plan, with any fuel.
* `Performs.run`: what a plan comes to, it comes to within some fuel.
* `runs_iff_performs`: so the runs of a grammar can be taken apart, and induction made over them,
  without fuel and without rounds.
-/

namespace Peg
namespace Grammar

variable {α : Type} {body? : Nat → Option (Grammar Empty Empty α)}

def Follows (body? : Nat → Option (Grammar Empty Empty α)) (x : Parsing Unit (Answer (Value α)))
    (p : Plan α) : Prop :=
  ∀ r, x () = some r → Performs body? p r.result r.log

namespace Follows

variable {x : Parsing Unit (Answer (Value α))} {g : Grammar Empty Empty α} {c : Cursor}
  {next : Answer (Value α) → Plan α}

theorem done (a : Answer (Value α)) : Follows body? (pure a) (.done a) := by
  intro r hr
  cases hr
  exact .done

theorem unfinished (p : Plan α) : Follows body? Parsing.unfinished p := by
  intro r hr
  cases hr

theorem call {f : Answer (Value α) → Parsing Unit (Answer (Value α))}
    (hx : Follows body? x (plan g c)) (hf : ∀ a, Follows body? (f a) (next a)) :
    Follows body? (x >>= f) (.call g c next) := by
  intro r hr
  rcases Parsing.bind_eq_some_iff.1 hr with ⟨rule, log, s, h, rfl⟩ | ⟨a, log, s, r', h, h', rfl⟩
  · exact .stop (hx _ h)
  · exact .step (hx _ h) (hf a _ h')

theorem callMap {f : Value α → Value α} (hx : Follows body? x (plan g c)) :
    Follows body? (Answer.map f <$> x) (.call g c fun a => .done (a.map f)) := by
  rw [map_eq_pure_bind]
  exact hx.call fun a => done _

theorem callLast (hx : Follows body? x (plan g c)) : Follows body? x (.call g c .done) := by
  rw [← bind_pure x]
  exact hx.call done

theorem enter {r : Rule} {run : Grammar Empty Empty α → Parser Unit (Value α)}
    (hrun : ∀ b, Follows body? (run b c) (plan b c)) :
    Follows body? (Parser.invoke r ((body? r.slot).map run) c) (.enter r c) := by
  intro q hq
  cases hb : body? r.slot with
  | none =>
    rw [hb] at hq
    cases hq
    exact .undefined hb
  | some b =>
    rw [hb] at hq
    rcases Parsing.bind_eq_some_iff.1 hq with ⟨_, _, _, h, _⟩ | ⟨_, log, s, q', h, h', rfl⟩
    · cases h
    · cases h
      exact .enter hb (hrun b _ h')

theorem run {run : Grammar Empty Empty α → Parser Unit (Value α)}
    (hrun : ∀ g c, Follows body? (run g c) (plan g c)) (p : Plan α) :
    Follows body? (p.run (.ofBodies body?) run) p := by
  induction p with
  | done a => exact done a
  | enter r c => exact enter fun b => hrun b c
  | call g c next ih => exact (hrun g c).call ih

section Rounds

variable {q : Parser Unit (Value α)} (hq : ∀ c, Follows body? (q c) (plan g c))

include hq

/-- By induction on the bound: behind a round stands a repetition with one round less. -/
theorem many0 (m : Nat) (c : Cursor) :
    Follows body? ((q.many0 m).map Value.list c) (plan (.many0 g) c) := by
  induction m generalizing c with
  | zero => exact unfinished _
  | succ m ih =>
    rw [map_list_many0_succ]
    refine (hq c).call fun a => ?_
    cases a with
    | ok v d => exact (ih d).callMap
    | fail e => exact done _

theorem many1 (m : Nat) (c : Cursor) :
    Follows body? ((q.many1 m).map Value.list c) (plan (.many1 g) c) := by
  cases m with
  | zero => exact unfinished _
  | succ m =>
    rw [map_list_many1_succ]
    refine (hq c).call fun a => ?_
    cases a with
    | ok v d => exact (many0 hq m d).callMap
    | fail e => exact done _

end Rounds

section Lists

variable {n : Nat} (h : ∀ g c, Follows body? (eval (.ofBodies body?) n g c) (plan g c))

include h

theorem seq (gs : List (Grammar Empty Empty α)) (c : Cursor) :
    Follows body? (eval (.ofBodies body?) (n + 1) (.seq gs) c) (plan (.seq gs) c) := by
  induction gs generalizing c with
  | nil => exact done _
  | cons g gs ih =>
    rw [eval_seq_cons]
    refine (h g c).call fun a => ?_
    cases a with
    | ok v d => exact (ih d).callMap
    | fail e => exact done _

theorem alternative (gs : List (Grammar Empty Empty α)) (c : Cursor) :
    Follows body? (eval (.ofBodies body?) (n + 1) (.alternative gs) c)
      (plan (.alternative gs) c) := by
  induction gs with
  | nil => exact done _
  | cons g gs ih =>
    rw [eval_alternative_cons]
    refine (h g c).call fun a => ?_
    cases a with
    | ok v d => exact done _
    | fail e => exact ih.callLast

theorem lookahead (ow : Option (Grammar Empty Empty α))
    (arms : List (GuardedArm (Grammar Empty Empty α) (Value α → Value α))) (c : Cursor) :
    Follows body? (eval (.ofBodies body?) (n + 1) (.lookahead ⟨arms, ow⟩) c)
      (plan (.lookahead ⟨arms, ow⟩) c) := by
  induction arms with
  | nil =>
    have hflat : (Grammar.lookahead ⟨[], ow⟩ : Grammar Empty Empty α).Flat := trivial
    rw [eval_flat hflat]
    exact run h _
  | cons arm arms ih =>
    rw [eval_lookahead_cons]
    refine (h arm.look c).call fun a => ?_
    cases a with
    | ok v d => exact (h arm.step _).callMap
    | fail e => exact ih.callLast

end Lists
end Follows

theorem follows_eval (n : Nat) (g : Grammar Empty Empty α) (c : Cursor) :
    Follows body? (eval (.ofBodies body?) n g c) (plan g c) := by
  induction n generalizing g c with
  | zero => exact .unfinished _
  | succ n ih =>
    by_cases hg : g.Flat
    · rw [eval_flat hg]
      exact .run ih _
    · cases g with
      | seq gs => exact .seq ih gs c
      | alternative gs => exact .alternative ih gs c
      | lookahead l => exact .lookahead ih l.otherwise l.arms c
      | many0 g => exact .many0 (ih g) n c
      | many1 g => exact .many1 (ih g) n c
      | _ => exact absurd trivial hg

/-! ## Enough fuel -/

section Fuel

variable {env : Env Empty Empty Unit α} {g : Grammar Empty Empty α} {c : Cursor}

namespace Plan

variable {run run' : Grammar Empty Empty α → Parser Unit (Value α)}
  {x : Parsing Unit (Answer (Value α))}

theorem run_callMap {f : Value α → Value α} (h : Parsing.Extends (run g c) x) :
    Parsing.Extends ((Plan.call g c fun a => .done (a.map f)).run env run) (Answer.map f <$> x) := by
  rw [map_eq_pure_bind]
  exact h.bind fun _ => .refl _

theorem run_callLast (h : Parsing.Extends (run g c) x) :
    Parsing.Extends ((Plan.call g c .done).run env run) x := by
  rw [← bind_pure x]
  exact h.bind fun _ => .refl _

theorem run_extends (h : ∀ g, Parser.Extends (run g) (run' g)) (p : Plan α) :
    Parsing.Extends (p.run env run) (p.run env run') := by
  induction p with
  | done a => exact .refl _
  | enter r c => exact Parser.Extends.invoke r _ h c
  | call g c next ih => exact (h g c).bind ih

end Plan

/-- One step of fuel more is enough for the layer on top. -/
theorem eval_extends_plan (n : Nat) (g : Grammar Empty Empty α) (c : Cursor) :
    Parsing.Extends ((plan g c).run env (eval env n)) (eval env (n + 1) g c) := by
  have hstep : ∀ g, Parser.Extends (eval env n g) (eval env (n + 1) g) :=
    eval_extends (Foreign.monotone_of_isEmpty _) (Nat.le_succ n)
  -- the round behind the first one has one step of fuel less, and one round less
  have hround : ∀ g d m, n = m + 1 →
      Parsing.Extends (eval env n (.many0 g) d)
        (((eval env n g).many0 m).map Value.list d) := by
    rintro g d m rfl
    have hless : Parser.Extends (eval env m g) (eval env (m + 1) g) :=
      eval_extends (Foreign.monotone_of_isEmpty _) (Nat.le_succ m) g
    exact (hless.many0 (Nat.le_refl m)).map _ d
  by_cases hg : g.Flat
  · rw [eval_flat hg]
    exact .refl _
  · cases g with
    | seq gs =>
      cases gs with
      | nil => exact absurd trivial hg
      | cons g gs =>
        rw [eval_seq_cons]
        refine (Parsing.Extends.refl _).bind fun a => ?_
        cases a with
        | ok v d => exact Plan.run_callMap (hstep (.seq gs) d)
        | fail e => exact .refl _
    | alternative gs =>
      cases gs with
      | nil => exact absurd trivial hg
      | cons g gs =>
        rw [eval_alternative_cons]
        refine (Parsing.Extends.refl _).bind fun a => ?_
        cases a with
        | ok v d => exact .refl _
        | fail e => exact Plan.run_callLast (hstep (.alternative gs) c)
    | lookahead l =>
      obtain ⟨arms, ow⟩ := l
      cases arms with
      | nil => exact absurd trivial hg
      | cons arm arms =>
        rw [eval_lookahead_cons]
        refine (Parsing.Extends.refl _).bind fun a => ?_
        cases a with
        | ok v d => exact Plan.run_callMap (.refl _)
        | fail e => exact Plan.run_callLast (hstep (.lookahead ⟨arms, ow⟩) c)
    | many0 g =>
      cases n with
      | zero => exact .unfinished _
      | succ m =>
        change Parsing.Extends _ (((eval env (m + 1) g).many0 (m + 1)).map Value.list c)
        rw [map_list_many0_succ]
        refine (Parsing.Extends.refl _).bind fun a => ?_
        cases a with
        | ok v d => exact Plan.run_callMap (hround g d m rfl)
        | fail e => exact .refl _
    | many1 g =>
      cases n with
      | zero => exact .unfinished _
      | succ m =>
        change Parsing.Extends _ (((eval env (m + 1) g).many1 (m + 1)).map Value.list c)
        rw [map_list_many1_succ]
        refine (Parsing.Extends.refl _).bind fun a => ?_
        cases a with
        | ok v d => exact Plan.run_callMap (hround g d m rfl)
        | fail e => exact .refl _
    | _ => exact absurd trivial hg

/-- By induction on how the plan is carried out; a call and what follows it share the larger of
their fuels. -/
theorem Performs.run {p : Plan α} {o : Except Rule (Answer (Value α))} {log : Log}
    (h : Performs body? p o log) :
    ∃ n, p.run (.ofBodies body?) (eval (.ofBodies body?) n) () = some ⟨o, log, ()⟩ := by
  have hmono : ∀ {n m : Nat}, n ≤ m → ∀ g, Parser.Extends (eval (.ofBodies body?) n g)
      (eval (.ofBodies body?) m g) :=
    fun hnm => eval_extends (Foreign.monotone_of_isEmpty _) hnm
  induction h with
  | done => exact ⟨0, rfl⟩
  | @undefined r c hb =>
    refine ⟨0, ?_⟩
    change Parser.invoke r ((body? r.slot).map _) c () = _
    rw [hb]
    rfl
  | @enter r c b o log hb _ ih =>
    obtain ⟨n, hn⟩ := ih
    refine ⟨n + 1, ?_⟩
    change Parser.invoke r ((body? r.slot).map _) c () = _
    rw [hb]
    have hbody := eval_extends_plan n b c () _ hn
    exact Parsing.bind_eq_some_iff.2 (.inr ⟨(), _, (), _, rfl, hbody, rfl⟩)
  | stop _ ih =>
    obtain ⟨n, hn⟩ := ih
    have hcall := eval_extends_plan n _ _ () _ hn
    exact ⟨n + 1, Parsing.bind_eq_some_iff.2 (.inl ⟨_, _, (), hcall, rfl⟩)⟩
  | @step g c next a o log log' _ _ ih ih' =>
    obtain ⟨n, hn⟩ := ih
    obtain ⟨m, hm⟩ := ih'
    have hcall := hmono (Nat.le_max_left (n + 1) m) g c () _ (eval_extends_plan n g c () _ hn)
    have hnext := Plan.run_extends (hmono (Nat.le_max_right (n + 1) m)) (next a) () _ hm
    exact ⟨max (n + 1) m, Parsing.bind_eq_some_iff.2 (.inr ⟨a, log, (), _, hcall, hnext, rfl⟩)⟩

end Fuel

theorem runs_iff_performs {g : Grammar Empty Empty α} {c : Cursor}
    {r : Run Unit (Answer (Value α))} :
    Runs (.ofBodies body?) g c () r ↔ Performs body? (plan g c) r.result r.log := by
  constructor
  · rintro ⟨n, h⟩
    exact follows_eval n g c r h
  · intro h
    obtain ⟨n, hn⟩ := h.run
    exact ⟨n + 1, eval_extends_plan n g c () r hn⟩

end Grammar
end Peg
