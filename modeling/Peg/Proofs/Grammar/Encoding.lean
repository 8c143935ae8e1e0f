import Peg.Proofs.Grammar.Branches
import Peg.Proofs.Grammar.Confined

/-!
# Peg.Proofs.Grammar.Encoding

Lookaheads in terms of sequence, ordered choice and negative tests.

* `guardOf a`: the guard of the arm `a` in front of its step. A guard that is not to be consumed is
  tested twice negatively, which reads nothing.
* `encode o arms`: the nested choice of the arms, with `o` behind them. An ordered choice goes on when
  a step has failed, so the arms behind are put under the test that the guard fails.
* `StandsFor env ow o`: `o` is the fallback `ow`; if there is none, `o` always fails.
* `Chosen env o c arms v v' d`: the arm that is taken at `c` makes the lookahead succeed with `v` and
  the choice with `v'`, both at `d`.
* `encode_equivalent`: lookahead and choice succeed at the same places, by the same arms.

Their failures differ: the choice reports where it was started, the lookahead what its step did.
-/

namespace Peg
namespace Grammar

variable {κ ω α : Type} {env : Env κ ω Unit α} {o : Grammar κ ω α} {ow : Option (Grammar κ ω α)}
  {a : GuardedArm (Grammar κ ω α) (Value α → Value α)}
  {arms : List (GuardedArm (Grammar κ ω α) (Value α → Value α))} {c d : Cursor}
  {v v' : Value α}

def guardOf (a : GuardedArm (Grammar κ ω α) (Value α → Value α)) : Grammar κ ω α :=
  if a.consume then a.look else .not (.not a.look)

def encode (o : Grammar κ ω α) :
    List (GuardedArm (Grammar κ ω α) (Value α → Value α)) → Grammar κ ω α
  | [] => o
  | a :: arms => .or (.and (guardOf a) a.step) (.and (.not a.look) (encode o arms))

inductive StandsFor (env : Env κ ω Unit α) : Option (Grammar κ ω α) → Grammar κ ω α → Prop
  | given {o : Grammar κ ω α} : StandsFor env (some o) o
  | absent {o : Grammar κ ω α} : (∀ c, Fails env o c) → StandsFor env none o

/-- An arm that is taken leaves its step's value `w` in both results. -/
inductive Chosen (env : Env κ ω Unit α) (o : Grammar κ ω α) (c : Cursor) :
    List (GuardedArm (Grammar κ ω α) (Value α → Value α)) → Value α → Value α → Cursor → Prop
  | taken {a : GuardedArm (Grammar κ ω α) (Value α → Value α)}
      {arms : List (GuardedArm (Grammar κ ω α) (Value α → Value α))} {l w : Value α}
      {mid d : Cursor} :
      Comes env a.look c (.ok (.ok l mid)) →
      Comes env a.step (if a.consume then mid else c) (.ok (.ok w d)) →
      Chosen env o c (a :: arms) (a.transform (.guarded l w))
        (.pair (if a.consume then l else .unit) w) d
  | later {a : GuardedArm (Grammar κ ω α) (Value α → Value α)}
      {arms : List (GuardedArm (Grammar κ ω α) (Value α → Value α))} {v v' : Value α}
      {d : Cursor} :
      Fails env a.look c → Chosen env o c arms v v' d → Chosen env o c (a :: arms) v (.pair .unit v') d
  | fallback {v : Value α} {d : Cursor} :
      Comes env o c (.ok (.ok v d)) → Chosen env o c [] v v d

/-! ## One arm -/

theorem comes_guardOf_ok (hf : env.toForeign.Monotone) :
    Comes env (guardOf a) c (.ok (.ok v d)) ↔
      ∃ l mid, Comes env a.look c (.ok (.ok l mid)) ∧ v = (if a.consume then l else .unit) ∧
        d = if a.consume then mid else c := by
  unfold guardOf
  cases a.consume with
  | true =>
    constructor
    · exact fun h => ⟨v, d, h, rfl, rfl⟩
    · rintro ⟨l, mid, h, rfl, rfl⟩
      exact h
  | false =>
    simp only [Bool.false_eq_true, if_false, comes_not_ok hf, fails_not hf]
    constructor
    · rintro ⟨⟨l, mid, h⟩, rfl, rfl⟩
      exact ⟨l, mid, h, rfl, rfl⟩
    · rintro ⟨l, mid, h, rfl, rfl⟩
      exact ⟨⟨l, mid, h⟩, rfl, rfl⟩

theorem fails_guardOf (hf : env.toForeign.Monotone) (h : Fails env a.look c) :
    Fails env (guardOf a) c := by
  unfold guardOf
  cases a.consume with
  | true => exact h
  | false => exact (fails_not hf).2 ⟨_, _, (comes_not_ok hf).2 ⟨h, rfl, rfl⟩⟩

theorem comes_lookahead_cons_ok (hf : env.toForeign.Monotone) :
    Comes env (.lookahead ⟨a :: arms, ow⟩) c (.ok (.ok v d)) ↔
      (∃ l mid w, Comes env a.look c (.ok (.ok l mid)) ∧
          Comes env a.step (if a.consume then mid else c) (.ok (.ok w d)) ∧
          v = a.transform (.guarded l w)) ∨
        Fails env a.look c ∧ Comes env (.lookahead ⟨arms, ow⟩) c (.ok (.ok v d)) := by
  rw [comes_lookahead_cons hf, branch_ok]
  refine or_congr_left ⟨?_, ?_⟩
  · rintro ⟨l, mid, hl, _ | ⟨w, _⟩ | _, hw, heq⟩
    · cases heq
    · cases heq
      exact ⟨l, mid, w, hl, hw, rfl⟩
    · cases heq
  · rintro ⟨l, mid, w, hl, hw, rfl⟩
    exact ⟨l, mid, hl, _, hw, rfl⟩

/-- The guard fails where its negation succeeds, so the second alternative is reached. -/
theorem comes_encode_cons_ok (hf : env.toForeign.Monotone) :
    Comes env (encode o (a :: arms)) c (.ok (.ok v' d)) ↔
      (∃ l mid w, Comes env a.look c (.ok (.ok l mid)) ∧
          Comes env a.step (if a.consume then mid else c) (.ok (.ok w d)) ∧
          v' = .pair (if a.consume then l else .unit) w) ∨
        ∃ u, Fails env a.look c ∧ Comes env (encode o arms) c (.ok (.ok u d)) ∧
          v' = .pair .unit u := by
  rw [encode, comes_or_ok hf, comes_and_ok hf, comes_and_ok hf]
  constructor
  · rintro (⟨u, start, w, hu, hw, rfl⟩ | ⟨-, u, start, w, hu, hw, rfl⟩)
    · obtain ⟨l, mid, hl, rfl, rfl⟩ := (comes_guardOf_ok hf).1 hu
      exact .inl ⟨l, mid, w, hl, hw, rfl⟩
    · obtain ⟨hl, rfl, rfl⟩ := (comes_not_ok hf).1 hu
      exact .inr ⟨w, hl, hw, rfl⟩
  · rintro (⟨l, mid, w, hl, hw, rfl⟩ | ⟨u, hl, hu, rfl⟩)
    · exact .inl ⟨_, _, w, (comes_guardOf_ok hf).2 ⟨l, mid, hl, rfl, rfl⟩, hw, rfl⟩
    · obtain ⟨e, he⟩ := fails_guardOf hf hl
      have hfirst : Fails env (.and (guardOf a) a.step) c := ⟨_, (comes_and hf).2 (.fail he)⟩
      exact .inr ⟨hfirst, _, c, u, (comes_not_ok hf).2 ⟨hl, rfl, rfl⟩, hu, rfl⟩

/-! ## All arms -/

theorem StandsFor.otherwise_ok (hf : env.toForeign.Monotone) (ho : StandsFor env ow o) :
    Otherwise env c ow (.ok (.ok v d)) ↔ Comes env o c (.ok (.ok v d)) := by
  cases ho with
  | given => exact Iff.rfl
  | absent ho =>
    constructor
    · intro h
      cases h
    · intro h
      obtain ⟨e, he⟩ := ho c
      cases h.unique hf he

theorem comes_lookahead_iff_chosen (hf : env.toForeign.Monotone) (ho : StandsFor env ow o) :
    Comes env (.lookahead ⟨arms, ow⟩) c (.ok (.ok v d)) ↔ ∃ v', Chosen env o c arms v v' d := by
  induction arms generalizing v with
  | nil =>
    rw [comes_lookahead_nil hf, ho.otherwise_ok hf]
    constructor
    · exact fun h => ⟨v, .fallback h⟩
    · rintro ⟨v', h⟩
      cases h with
      | fallback h => exact h
  | cons a arms ih =>
    rw [comes_lookahead_cons_ok hf]
    constructor
    · rintro (⟨l, mid, w, hl, hw, rfl⟩ | ⟨hl, h⟩)
      · exact ⟨_, .taken hl hw⟩
      · obtain ⟨v', hv⟩ := ih.1 h
        exact ⟨_, .later hl hv⟩
    · rintro ⟨v', h⟩
      cases h with
      | taken hl hw => exact .inl ⟨_, _, _, hl, hw, rfl⟩
      | later hl h => exact .inr ⟨hl, ih.2 ⟨_, h⟩⟩

theorem comes_encode_iff_chosen (hf : env.toForeign.Monotone) :
    Comes env (encode o arms) c (.ok (.ok v' d)) ↔ ∃ v, Chosen env o c arms v v' d := by
  induction arms generalizing v' with
  | nil =>
    constructor
    · exact fun h => ⟨v', .fallback h⟩
    · rintro ⟨v, h⟩
      cases h with
      | fallback h => exact h
  | cons a arms ih =>
    rw [comes_encode_cons_ok hf]
    constructor
    · rintro (⟨l, mid, w, hl, hw, rfl⟩ | ⟨u, hl, hu, rfl⟩)
      · exact ⟨_, .taken hl hw⟩
      · obtain ⟨v, hv⟩ := ih.1 hu
        exact ⟨v, .later hl hv⟩
    · rintro ⟨v, h⟩
      cases h with
      | taken hl hw => exact .inl ⟨_, _, _, hl, hw, rfl⟩
      | later hl h => exact .inr ⟨_, hl, ih.2 ⟨_, h⟩, rfl⟩

theorem encode_equivalent (hf : env.toForeign.Monotone) (ho : StandsFor env ow o)
    (arms : List (GuardedArm (Grammar κ ω α) (Value α → Value α))) (c : Cursor) :
    ((∃ v d, Comes env (.lookahead ⟨arms, ow⟩) c (.ok (.ok v d))) ↔
        ∃ v' d, Comes env (encode o arms) c (.ok (.ok v' d))) ∧
      ∀ v d v' d', Comes env (.lookahead ⟨arms, ow⟩) c (.ok (.ok v d)) →
        Comes env (encode o arms) c (.ok (.ok v' d')) → d = d' ∧ Chosen env o c arms v v' d := by
  refine ⟨⟨?_, ?_⟩, ?_⟩
  · rintro ⟨v, d, h⟩
    obtain ⟨v', hv⟩ := (comes_lookahead_iff_chosen hf ho).1 h
    exact ⟨v', d, (comes_encode_iff_chosen hf).2 ⟨v, hv⟩⟩
  · rintro ⟨v', d, h⟩
    obtain ⟨v, hv⟩ := (comes_encode_iff_chosen hf).1 h
    exact ⟨v, d, (comes_lookahead_iff_chosen hf ho).2 ⟨v', hv⟩⟩
  · intro v d v' d' h h'
    obtain ⟨u, hu⟩ := (comes_lookahead_iff_chosen hf ho).1 h
    cases ((comes_encode_iff_chosen hf).2 ⟨v, hu⟩).unique hf h'
    exact ⟨rfl, hu⟩

/-- The first guard reads a character before it refuses. The second looks at the letter that its step
takes. -/
def tildeArms : List (GuardedArm (Grammar Unit Empty Nat) (Value Nat → Value Nat)) :=
  [⟨.and (.leaf ()) (.char 'x'), true, .eof, id⟩,
    ⟨.char 'ñ', false, .and (.char 'ñ') (.char 'a'), Value.second⟩]

theorem encode_equivalent_tilde :
    skipEnv.toForeign.Monotone ∧ StandsFor skipEnv none (.alternative []) ∧
      Comes skipEnv (.lookahead ⟨tildeArms, none⟩) (.start "ñab")
        (.ok (.ok (.pair (.char 'ñ') (.char 'a')) ⟨"ñab", 3⟩)) ∧
      Chosen skipEnv (.alternative []) (.start "ñab") tildeArms (.pair (.char 'ñ') (.char 'a'))
        (.pair .unit (.pair .unit (.pair (.char 'ñ') (.char 'a')))) ⟨"ñab", 3⟩ ∧
      ¬ ∃ v' d, Comes skipEnv (encode (.alternative []) tildeArms) ⟨"ñab", 2⟩ (.ok (.ok v' d)) := by
  have hf : skipEnv.toForeign.Monotone := Foreign.monotone_of_isEmpty _
  have ho : StandsFor skipEnv none (.alternative []) := .absent fun c => ⟨_, 1, _, rfl⟩
  have hequiv := encode_equivalent hf ho tildeArms
  have hl : Comes skipEnv (.lookahead ⟨tildeArms, none⟩) (.start "ñab")
      (.ok (.ok (.pair (.char 'ñ') (.char 'a')) ⟨"ñab", 3⟩)) := ⟨4, _, rfl⟩
  have he : Comes skipEnv (encode (.alternative []) tildeArms) (.start "ñab")
      (.ok (.ok (.pair .unit (.pair .unit (.pair (.char 'ñ') (.char 'a')))) ⟨"ñab", 3⟩)) :=
    ⟨7, _, rfl⟩
  refine ⟨hf, ho, hl, ((hequiv _).2 _ _ _ _ hl he).2, fun h => ?_⟩
  obtain ⟨v, d, h⟩ := (hequiv ⟨"ñab", 2⟩).1.2 h
  have hfail : Comes skipEnv (.lookahead ⟨tildeArms, none⟩) ⟨"ñab", 2⟩ (.ok (.fail _)) := ⟨4, _, rfl⟩
  cases h.unique hf hfail

end Grammar
end Peg
