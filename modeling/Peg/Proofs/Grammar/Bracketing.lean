import Peg.Proofs.Grammar.Unbounded
import Peg.Proofs.Parser.Bracketing

/-!
# Peg.Proofs.Grammar.Bracketing

Choices and sequences of grammars, put together two at a time.

* `Tries env c gs s r`: from the state `s`, the grammars `gs` are tried at `c` one after the other up
  to the first that does not fail, and that comes to the run `r`.
* `InTurn env gs c s r`: the grammars `gs` are run each where the one before has stopped, up to the
  first that does not succeed.
* `choice_bracketing`, `sequence_bracketing`: a tree of `or` does the one with its leaves, as their
  `alternative` does, and a tree of `and` does the other, as their `seq` does.

A part of the tree has an error or a pair of its own, which the list has not. The errors are dropped
on the way up, and the pairs are what flattening takes away.
-/

namespace Peg

/-- The same run, with `f` applied to the value if there is one. -/
def Run.onValues {σ β γ : Type} (f : β → γ) (r : Run σ (Answer β)) : Run σ (Answer γ) :=
  ⟨r.result.map (Answer.map f), r.log, r.state⟩

theorem Parser.map_eq_some_iff {σ β γ : Type} {f : β → γ} {p : Parser σ β} {c : Cursor} {s : σ}
    {r : Run σ (Answer γ)} : p.map f c s = some r ↔ ∃ r', p c s = some r' ∧ r = r'.onValues f := by
  rw [Parser.map, Parsing.map_apply, Option.map_eq_some_iff]
  exact exists_congr fun r' => and_congr_right fun _ => eq_comm

namespace Grammar

open Parsing (bind_eq_some_iff)

variable {κ ω σ α β : Type} {env : Env κ ω σ α} {gs : List (Grammar κ ω α)} {c : Cursor} {s : σ}

/-! ## Grammars one after the other -/

inductive Tries (env : Env κ ω σ α) (c : Cursor) :
    List (Grammar κ ω α) → σ → Run σ (Answer (Value α)) → Prop
  | exhausted {s : σ} : Tries env c [] s ⟨.ok (.fail (.ofCursor .noAlternative c)), .empty, s⟩
  | aborted {g : Grammar κ ω α} {gs : List (Grammar κ ω α)} {s s' : σ} {rule : Rule} {log : Log} :
      Runs env g c s ⟨.error rule, log, s'⟩ → Tries env c (g :: gs) s ⟨.error rule, log, s'⟩
  | taken {g : Grammar κ ω α} {gs : List (Grammar κ ω α)} {s s' : σ} {v : Value α} {d : Cursor}
      {log : Log} :
      Runs env g c s ⟨.ok (.ok v d), log, s'⟩ → Tries env c (g :: gs) s ⟨.ok (.ok v d), log, s'⟩
  | next {g : Grammar κ ω α} {gs : List (Grammar κ ω α)} {s s' : σ} {e : ParseError} {log : Log}
      {r : Run σ (Answer (Value α))} :
      Runs env g c s ⟨.ok (.fail e), log, s'⟩ → Tries env c gs s' r →
      Tries env c (g :: gs) s (r.behind log)

inductive InTurn (env : Env κ ω σ α) :
    List (Grammar κ ω α) → Cursor → σ → Run σ (Answer (List (Value α))) → Prop
  | finished {c : Cursor} {s : σ} : InTurn env [] c s ⟨.ok (.ok [] c), .empty, s⟩
  | aborted {g : Grammar κ ω α} {gs : List (Grammar κ ω α)} {c : Cursor} {s s' : σ} {rule : Rule}
      {log : Log} :
      Runs env g c s ⟨.error rule, log, s'⟩ → InTurn env (g :: gs) c s ⟨.error rule, log, s'⟩
  | failed {g : Grammar κ ω α} {gs : List (Grammar κ ω α)} {c : Cursor} {s s' : σ}
      {e : ParseError} {log : Log} :
      Runs env g c s ⟨.ok (.fail e), log, s'⟩ →
      InTurn env (g :: gs) c s ⟨.ok (.fail e), log, s'⟩
  | next {g : Grammar κ ω α} {gs : List (Grammar κ ω α)} {c d : Cursor} {s s' : σ} {v : Value α}
      {log : Log} {r : Run σ (Answer (List (Value α)))} :
      Runs env g c s ⟨.ok (.ok v d), log, s'⟩ → InTurn env gs d s' r →
      InTurn env (g :: gs) c s ((r.onValues (v :: ·)).behind log)

section

variable (hf : env.toForeign.Monotone)

include hf

/-- A sequence that begins with the grammar `g`: its run was aborted, or what follows it has a run. -/
theorem bind_unbounded_iff {f : Answer (Value α) → Parsing σ β} {g : Grammar κ ω α} {r : Run σ β} :
    (unbounded env g c >>= f) s = some r ↔
      (∃ rule log s', Runs env g c s ⟨.error rule, log, s'⟩ ∧ r = ⟨.error rule, log, s'⟩) ∨
      ∃ a log s' r', Runs env g c s ⟨.ok a, log, s'⟩ ∧ f a s' = some r' ∧ r = r'.behind log := by
  simp only [bind_eq_some_iff, runs_iff_unbounded hf]

theorem alternative_eq_some_iff {r : Run σ (Answer (Value α))} :
    Parser.alternative (gs.map (unbounded env)) c s = some r ↔ Tries env c gs s r := by
  induction gs generalizing s r with
  | nil =>
    constructor
    · intro h
      cases h
      exact .exhausted
    · rintro ⟨⟩
      rfl
  | cons g gs ih =>
    rw [List.map_cons, Parser.alternative, bind_unbounded_iff hf]
    constructor
    · rintro (⟨rule, log, s', h, rfl⟩ | ⟨v | e, log, s', r', h, h', rfl⟩)
      · exact .aborted h
      · cases h'
        rw [Run.behind, Log.append_empty]
        exact .taken h
      · exact .next h (ih.1 h')
    · intro h
      cases h with
      | aborted h => exact .inl ⟨_, _, _, h, rfl⟩
      | taken h =>
        refine .inr ⟨_, _, _, _, h, rfl, ?_⟩
        rw [Run.behind, Log.append_empty]
      | next h h' => exact .inr ⟨_, _, _, _, h, ih.2 h', rfl⟩

theorem seq_eq_some_iff {r : Run σ (Answer (List (Value α)))} :
    Parser.seq (gs.map (unbounded env)) c s = some r ↔ InTurn env gs c s r := by
  induction gs generalizing c s r with
  | nil =>
    constructor
    · intro h
      cases h
      exact .finished
    · rintro ⟨⟩
      rfl
  | cons g gs ih =>
    rw [List.map_cons, Parser.seq, Parser.andThen, bind_unbounded_iff hf]
    constructor
    · rintro (⟨rule, log, s', h, rfl⟩ | ⟨⟨v, d⟩ | e, log, s', r', h, h', rfl⟩)
      · exact .aborted h
      · obtain ⟨r'', h'', rfl⟩ := Parser.map_eq_some_iff.1 h'
        exact .next h (ih.1 h'')
      · cases h'
        rw [Run.behind, Log.append_empty]
        exact .failed h
    · intro h
      cases h with
      | aborted h => exact .inl ⟨_, _, _, h, rfl⟩
      | failed h =>
        refine .inr ⟨_, _, _, _, h, rfl, ?_⟩
        rw [Run.behind, Log.append_empty]
      | next h h' =>
        exact .inr ⟨_, _, _, _, h, Parser.map_eq_some_iff.2 ⟨_, ih.2 h', rfl⟩, rfl⟩

theorem unbounded_fold_or {t : Bracketing (Grammar κ ω α)} (ht : 2 ≤ t.leaves.length) :
    unbounded env (t.fold .or) = Parser.alternative (t.leaves.map (unbounded env)) := by
  rw [Bracketing.fold_map (fun _ _ => unbounded_or hf), Parser.fold_or, Bracketing.leaves_map]
  rwa [Bracketing.leaves_map, List.length_map]

theorem map_flatten_unbounded_fold_and (t : Bracketing (Grammar κ ω α)) :
    (unbounded env (t.fold .and)).map t.flatten = Parser.seq (t.leaves.map (unbounded env)) := by
  rw [Bracketing.fold_map (g := Parser.pair) (fun _ _ => unbounded_and hf),
    ← Bracketing.flatten_map (unbounded env), Parser.map_flatten_fold_pair, Bracketing.leaves_map]

/-! ## Trees -/

theorem choice_bracketing :
    (∀ t : Bracketing (Parser σ β), 2 ≤ t.leaves.length →
      t.fold Parser.or = Parser.alternative t.leaves) ∧
    ∀ t : Bracketing (Grammar κ ω α), 2 ≤ t.leaves.length → ∀ c s r,
      (Runs env (t.fold .or) c s r ↔ Tries env c t.leaves s r) ∧
      (Runs env (.alternative t.leaves) c s r ↔ Tries env c t.leaves s r) := by
  refine ⟨fun t ht => Parser.fold_or ht, fun t ht c s r => ⟨?_, ?_⟩⟩
  · rw [runs_iff_unbounded hf, unbounded_fold_or hf ht, alternative_eq_some_iff hf]
  · rw [runs_iff_unbounded hf, unbounded_alternative hf, alternative_eq_some_iff hf]

end

/-- The parsers of `Extension`, and one rule with a body. -/
def extended : Env Extension.Leaf Extension.Wrap Extension.Counters Nat :=
  { Extension.all with body? := fun slot => if slot = 0 then some .eof else none }

/-- The attempt in the middle is counted, though it fails. -/
def threeTries : Bracketing (Grammar Extension.Leaf Extension.Wrap Nat) :=
  .node (.leaf (.wrap (.probe "x") (.char 'x')))
    (.node (.leaf (.wrap (.limit 0) (.char 'y'))) (.leaf (.wrap (.probe "é") (.char 'é'))))

theorem choice_bracketing_threeTries :
    extended.toForeign.Monotone ∧ 2 ≤ threeTries.leaves.length ∧
      (∃ log, Runs extended (threeTries.fold .or) (.start "éy") [1]
          ⟨.ok (.ok (.char 'é') ⟨"éy", 2⟩), log, [0]⟩ ∧
        log.toList = [.probed "x" 0, .probeFail "x" 0 0, .probed "é" 0, .probeOk "é" 0 2]) ∧
      (∃ log, Runs extended (threeTries.fold .or) ⟨"éy", 2⟩ [1]
          ⟨.ok (.ok (.char 'y') ⟨"éy", 3⟩), log, [0]⟩ ∧
        log.toList = [.probed "x" 2, .probeFail "x" 2 2]) ∧
      ∃ log, Runs extended (threeTries.fold .or) ⟨"éy", 2⟩ [0]
          ⟨.ok (.fail ⟨.noAlternative, ⟨"éy", 2⟩⟩), log, [0]⟩ ∧
        log.toList = [.probed "x" 2, .probeFail "x" 2 2, .probed "é" 2, .probeFail "é" 2 2] := by
  have hf : extended.toForeign.Monotone := Extension.all_monotone
  have ht : 2 ≤ threeTries.leaves.length := by decide
  have hequiv := (choice_bracketing hf (β := Value Nat)).2 threeTries ht
  have htree : ∀ {c s r}, Runs extended (.alternative threeTries.leaves) c s r →
      Runs extended (threeTries.fold .or) c s r :=
    fun h => (hequiv _ _ _).1.2 ((hequiv _ _ _).2.1 h)
  exact ⟨hf, ht, ⟨_, htree ⟨3, rfl⟩, rfl⟩, ⟨_, htree ⟨3, rfl⟩, rfl⟩, ⟨_, htree ⟨3, rfl⟩, rfl⟩⟩

section

variable (hf : env.toForeign.Monotone)

include hf

theorem sequence_bracketing :
    (∀ t : Bracketing (Parser σ (Value α)),
      (t.fold Parser.pair).map t.flatten = Parser.seq t.leaves) ∧
    ∀ (t : Bracketing (Grammar κ ω α)) c s,
      (∀ r, InTurn env t.leaves c s r ↔
        ∃ r', Runs env (t.fold .and) c s r' ∧ r = r'.onValues t.flatten) ∧
      ∀ r, Runs env (.seq t.leaves) c s r ↔
        ∃ r', InTurn env t.leaves c s r' ∧ r = r'.onValues .list := by
  refine ⟨Parser.map_flatten_fold_pair, fun t c s => ⟨fun r => ?_, fun r => ?_⟩⟩
  · simp only [← seq_eq_some_iff hf, ← map_flatten_unbounded_fold_and hf, Parser.map_eq_some_iff,
      runs_iff_unbounded hf]
  · simp only [runs_iff_unbounded hf, unbounded_seq hf, Parser.map_eq_some_iff, seq_eq_some_iff hf]

end

/-- The part in the middle can be run as often as the counter says. -/
def threeParts (last : Rule) : Bracketing (Grammar Extension.Leaf Extension.Wrap Nat) :=
  .node (.node (.leaf (.wrap (.probe "é") (.char 'é'))) (.leaf (.wrap (.limit 0) (.char 'y'))))
    (.leaf (.rule last))

theorem sequence_bracketing_threeParts :
    extended.toForeign.Monotone ∧
      (∃ log, Runs extended (.seq (threeParts ⟨"end", 0⟩).leaves) (.start "éy") [1]
          ⟨.ok (.ok (.list [.char 'é', .char 'y', .unit]) ⟨"éy", 3⟩), log, [0]⟩ ∧
        log.toList = [.probed "é" 0, .probeOk "é" 0 2, .entering "end" 3]) ∧
      (∃ log, Runs extended (.seq (threeParts ⟨"end", 0⟩).leaves) (.start "éy") [0]
          ⟨.ok (.fail ⟨.other "limit reached", ⟨"éy", 2⟩⟩), log, [0]⟩ ∧
        log.toList = [.probed "é" 0, .probeOk "é" 0 2]) ∧
      ∃ log, Runs extended (.seq (threeParts ⟨"missing", 1⟩).leaves) (.start "éy") [1]
          ⟨.error ⟨"missing", 1⟩, log, [0]⟩ ∧
        log.toList = [.probed "é" 0, .probeOk "é" 0 2] := by
  have hf : extended.toForeign.Monotone := Extension.all_monotone
  have hlist : ∀ {last c s r r'}, Runs extended ((threeParts last).fold .and) c s r →
      r' = (r.onValues (threeParts last).flatten).onValues .list →
      Runs extended (.seq (threeParts last).leaves) c s r' := by
    intro last c s r r' h hr
    obtain ⟨hturn, hseq⟩ := (sequence_bracketing hf).2 (threeParts last) c s
    exact (hseq r').2 ⟨_, (hturn _).2 ⟨r, h, rfl⟩, hr⟩
  exact ⟨hf, ⟨_, hlist ⟨5, rfl⟩ rfl, rfl⟩, ⟨_, hlist ⟨5, rfl⟩ rfl, rfl⟩, ⟨_, hlist ⟨5, rfl⟩ rfl, rfl⟩⟩

end Grammar
end Peg
