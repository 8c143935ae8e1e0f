import Mathlib.Logic.Relation
import Peg.Proofs.Grammar.Throughout
import Peg.Proofs.Plan.Visits
import Peg.Proofs.Semantics.Inversion

/-!
# Peg.Proofs.Semantics.Blame

Which parser an error comes from.

* `ownCause g`: why `g` fails if it fails of itself; each kind of grammar has at most one cause.
* `PassesOn body? (g, c) (k, d)`: started at `c`, the grammar `g` comes to run `k` at `d`, and if
  `k` fails it makes that error its own.
* `fails_blame`: an error comes up a chain of such steps, from a grammar that fails of itself at the
  place that the error names.

No other error of a part goes up. What choices and repetitions recover from is gone, and where one of
them fails in the end it does so in its own name and at its own start.
-/

namespace Peg
namespace Grammar

variable {α : Type} {body? : Nat → Option (Grammar Empty Empty α)}

def ownCause {κ ω : Type} : Grammar κ ω α → Option Cause
  | .single _ => some .predicate
  | .eof => some .endOfInput
  | .alternative _ | .or _ _ => some .noAlternative
  | .lookahead l => if l.otherwise.isNone then some .noAlternative else none
  | .many1 _ => some .atLeastOne
  | .not _ => some .unexpectedMatch
  | _ => none

inductive PassesOn (body? : Nat → Option (Grammar Empty Empty α)) :
    Grammar Empty Empty α × Cursor → Grammar Empty Empty α × Cursor → Prop
  | seqFirst {g : Grammar Empty Empty α} {gs : List (Grammar Empty Empty α)} {c : Cursor} :
      PassesOn body? (.seq (g :: gs), c) (g, c)
  | seqLater {g k : Grammar Empty Empty α} {gs : List (Grammar Empty Empty α)} {v : Value α}
      {c d d' : Cursor} :
      Answers body? g c (.ok v d) → PassesOn body? (.seq gs, d) (k, d') →
      PassesOn body? (.seq (g :: gs), c) (k, d')
  | andFirst {a b : Grammar Empty Empty α} {c : Cursor} : PassesOn body? (.and a b, c) (a, c)
  | andSecond {a b : Grammar Empty Empty α} {v : Value α} {c d : Cursor} :
      Answers body? a c (.ok v d) → PassesOn body? (.and a b, c) (b, d)
  | map {f : Value α → Value α} {g : Grammar Empty Empty α} {c : Cursor} :
      PassesOn body? (.map f g, c) (g, c)
  | span {g : Grammar Empty Empty α} {c : Cursor} : PassesOn body? (.span g, c) (g, c)
  | otherwise {g : Grammar Empty Empty α} {c : Cursor} :
      PassesOn body? (.lookahead ⟨[], some g⟩, c) (g, c)
  | armStep {a : GuardedArm (Grammar Empty Empty α) (Value α → Value α)}
      {arms : List (GuardedArm (Grammar Empty Empty α) (Value α → Value α))}
      {ow : Option (Grammar Empty Empty α)} {v : Value α} {c d : Cursor} :
      Answers body? a.look c (.ok v d) →
      PassesOn body? (.lookahead ⟨a :: arms, ow⟩, c) (a.step, if a.consume then d else c)
  /-- What a guard fails with is passed over. -/
  | armNext {a : GuardedArm (Grammar Empty Empty α) (Value α → Value α)}
      {arms : List (GuardedArm (Grammar Empty Empty α) (Value α → Value α))}
      {ow : Option (Grammar Empty Empty α)} {k : Grammar Empty Empty α} {e : ParseError}
      {c d : Cursor} :
      Answers body? a.look c (.fail e) → PassesOn body? (.lookahead ⟨arms, ow⟩, c) (k, d) →
      PassesOn body? (.lookahead ⟨a :: arms, ow⟩, c) (k, d)
  | rule {r : Rule} {b : Grammar Empty Empty α} {c : Cursor} :
      body? r.slot = some b → PassesOn body? (.rule r, c) (b, c)

namespace PassesOn

variable {e : ParseError}

/-- The error is passed on as it is. -/
theorem fails {x y : Grammar Empty Empty α × Cursor} (h : PassesOn body? x y)
    (he : Answers body? y.1 y.2 (.fail e)) : Answers body? x.1 x.2 (.fail e) := by
  simp only [answers_iff_performs] at he ⊢
  induction h with
  | seqFirst | andFirst | map | span | otherwise =>
    obtain ⟨log, he⟩ := he
    exact ⟨_, .step he .done⟩
  | seqLater h _ ih | armNext h _ ih =>
    obtain ⟨log, h⟩ := answers_iff_performs.1 h
    obtain ⟨log', he⟩ := ih he
    exact ⟨_, .step h (.step he .done)⟩
  | andSecond h | armStep h =>
    obtain ⟨log, h⟩ := answers_iff_performs.1 h
    obtain ⟨log', he⟩ := he
    exact ⟨_, .step h (.step he .done)⟩
  | rule hb =>
    obtain ⟨log, he⟩ := he
    exact ⟨_, .enter hb he⟩

theorem used {x y : Grammar Empty Empty α × Cursor} (h : PassesOn body? x y) :
    y.1 ∈ x.1.children ∨ ∃ r, x.1 = .rule r ∧ body? r.slot = some y.1 := by
  induction h with
  | seqLater _ _ ih =>
    rcases ih with hm | ⟨r, hr, -⟩
    · exact .inl (List.mem_cons_of_mem _ hm)
    · cases hr
  | armNext _ _ ih =>
    rcases ih with hm | ⟨r, hr, -⟩
    · refine .inl ?_
      simp only [children, List.flatMap_cons, List.append_assoc]
      exact List.mem_append_right _ hm
    · cases hr
  | rule hb => exact .inr ⟨_, rfl, hb⟩
  | _ => exact .inl (by simp [children])

theorem uses {x y : Grammar Empty Empty α × Cursor}
    (h : Relation.ReflTransGen (PassesOn body?) x y) : Uses body? x.1 y.1 := by
  induction h with
  | refl => exact .self
  | tail _ hstep ih =>
    rcases hstep.used with hm | ⟨r, hr, hb⟩
    · exact ih.part hm
    · rw [hr] at ih
      exact ih.body hb

end PassesOn

theorem Outcome.map_eq_fail {f : Value α → Value α} {o : Outcome α} {cause : Cause}
    {rest : List Char} (h : o.map f = .fail cause rest) : o = .fail cause rest := by
  cases o with
  | ok v left => cases h
  | fail cause' left => exact h

section Blame

variable {source : String} {cause : Cause} {cs rest : List Char} {g : Grammar Empty Empty α}

/-- An error that is passed on comes from a grammar that fails of itself in front of `rest`. -/
def Blamed (body? : Nat → Option (Grammar Empty Empty α)) (source : String) (cause : Cause)
    (rest : List Char) (x : Grammar Empty Empty α × Cursor) : Prop :=
  ∃ h, Relation.ReflTransGen (PassesOn body?) x (h, .before source rest) ∧
    h.ownCause = some cause ∧ Derives body? (Span.between source) h rest (.fail cause rest)

/-- What an error can come from: the grammar itself, or what it passes on. -/
def BlamedBelow (body? : Nat → Option (Grammar Empty Empty α)) (source : String) (cause : Cause)
    (rest : List Char) (g : Grammar Empty Empty α) (cs : List Char) : Prop :=
  (g.ownCause = some cause ∧ rest = cs) ∨
    ∃ y, PassesOn body? (g, .before source cs) y ∧ Blamed body? source cause rest y

theorem BlamedBelow.blamed (h : BlamedBelow body? source cause rest g cs)
    (hd : Derives body? (Span.between source) g cs (.fail cause rest)) :
    Blamed body? source cause rest (g, .before source cs) := by
  rcases h with ⟨hown, rfl⟩ | ⟨y, hy, h, hchain, hown, hfail⟩
  · exact ⟨g, .refl, hown, hd⟩
  · exact ⟨h, .head hy hchain, hown, hfail⟩

theorem BlamedBelow.passed {k : Grammar Empty Empty α} {mid : List Char}
    (hk : BlamedBelow body? source cause rest k mid)
    (hd : Derives body? (Span.between source) k mid (.fail cause rest))
    (hpass : PassesOn body? (g, .before source cs) (k, .before source mid)) :
    BlamedBelow body? source cause rest g cs :=
  .inr ⟨_, hpass, hk.blamed hd⟩

/-- By induction on the derivation. Where a list of parts, or of arms, is taken apart, the rest of it
is no part of the grammar, and what it passes on the whole list passes on. -/
theorem Derives.blamedBelow {o : Outcome α} (h : Derives body? (Span.between source) g cs o)
    (hcs : cs <:+ source.toList) (ho : o = .fail cause rest) :
    BlamedBelow body? source cause rest g cs := by
  induction h with
  | singleMiss _ | singleEnd | eofMiss | alternativeNil | orFail _ _ _ _ | many1Fail _ _
  | notFail _ _ | noArm =>
    cases ho
    exact .inl ⟨rfl, rfl⟩
  | alternativeNext _ h _ _ =>
    subst ho
    obtain ⟨rfl, rfl⟩ := h.alternative_fail
    exact .inl ⟨rfl, rfl⟩
  | seqFail h ih =>
    cases ho
    exact (ih hcs rfl).passed h .seqFirst
  | seqLater hg _ _ ih =>
    cases ho
    rcases ih (hg.rest_suffix.trans hcs) rfl with ⟨hown, -⟩ | ⟨y, hy, hblamed⟩
    · cases hown
    · exact .inr ⟨y, .seqLater (hg.answers hcs) hy, hblamed⟩
  | andFail h ih =>
    cases ho
    exact (ih hcs rfl).passed h .andFirst
  | andNext ha h _ ih =>
    obtain rfl := Outcome.map_eq_fail ho
    have hmid := ha.rest_suffix.trans hcs
    exact (ih hmid rfl).passed h (.andSecond (ha.answers hcs))
  | map h ih =>
    obtain rfl := Outcome.map_eq_fail ho
    exact (ih hcs rfl).passed h .map
  | spanFail h ih =>
    cases ho
    exact (ih hcs rfl).passed h .span
  | otherwise h ih =>
    subst ho
    exact (ih hcs rfl).passed h .otherwise
  | @armStep a arms ow v cs mid o hlook h _ ih =>
    obtain rfl := Outcome.map_eq_fail ho
    have hstart := armStart_suffix a.consume hcs hlook.rest_suffix
    refine (ih hstart rfl).passed h ?_
    rw [apply_ite (Cursor.before source)]
    exact .armStep (hlook.answers hcs)
  | armNext hlook h _ ih =>
    subst ho
    rcases ih hcs rfl with ⟨hown, rfl⟩ | ⟨y, hy, hblamed⟩
    · exact .inl ⟨hown, rfl⟩
    · exact .inr ⟨y, .armNext (hlook.answers hcs) hy, hblamed⟩
  | rule hb h ih =>
    subst ho
    exact (ih hcs rfl).passed h (.rule hb)
  | _ => cases ho

end Blame

/-- An error comes from a grammar that is in use, that fails with it at the place that it names, and
that says what grammars of its kind say. And what is passed on is passed on as it is. -/
theorem fails_blame (body? : Nat → Option (Grammar Empty Empty α)) (g : Grammar Empty Empty α)
    {c : Cursor} (hc : c.Valid) :
    (∀ e, Answers body? g c (.fail e) →
      e.location.text = c.source ∧
      ∃ h, Uses body? g h ∧ Relation.ReflTransGen (PassesOn body?) (g, c) (h, e.cursor) ∧
        h.ownCause.map Cause.text = some e.message ∧ Answers body? h e.cursor (.fail e) ∧
        ∀ v d, ¬ Answers body? h e.cursor (.ok v d)) ∧
    ∀ k d e, PassesOn body? (g, c) (k, d) → Answers body? k d (.fail e) →
      Answers body? g c (.fail e) := by
  refine ⟨fun e he => ?_, fun k d e hpass he => hpass.fails he⟩
  have hcs := hc.remaining_suffix
  obtain ⟨o, ho, ha⟩ := (answers_iff hc).1 he
  cases o with
  | ok v rest => cases ha
  | fail cause rest =>
    cases ha
    obtain ⟨h, hchain, hown, hd⟩ := (ho.blamedBelow hcs rfl).blamed ho
    rw [← hc.eq_before] at hchain
    have hfail := hd.answers (ho.rest_suffix.trans hcs)
    refine ⟨rfl, h, PassesOn.uses hchain, hchain, congrArg _ hown, hfail, fun v d hok => ?_⟩
    cases hfail.unique hok

/-- Letters, or more of the same in parentheses. -/
def groupBody : Nat → Option (Grammar Empty Empty Unit)
  | 0 => some (.lookahead
      ⟨[⟨.char '(', true, .and (.many0 (.rule ⟨"group", 0⟩)) (.char ')'), id⟩], some .word⟩)
  | _ => none

/-- At the digit a word and a parenthesis fail, one after the other. The error is the one of the
parenthesis, since the repetition has dropped that of the word. -/
theorem fails_blame_group :
    (⟨"é (a1", 2⟩ : Cursor).Valid ∧
      Answers groupBody (.spaceBefore (.rule ⟨"group", 0⟩)) ⟨"é (a1", 2⟩
        (.fail ⟨.predicate, "é (a1", 5⟩) ∧
      ∃ h, Uses groupBody (.spaceBefore (.rule ⟨"group", 0⟩)) h ∧
        h.ownCause.map Cause.text = some "expected predicate-matched character" ∧
        Answers groupBody h ⟨"é (a1", 5⟩ (.fail ⟨.predicate, "é (a1", 5⟩) := by
  have hc : (⟨"é (a1", 2⟩ : Cursor).Valid := by decide
  have he : Answers groupBody (.spaceBefore (.rule ⟨"group", 0⟩)) ⟨"é (a1", 2⟩
      (.fail ⟨.predicate, "é (a1", 5⟩) := ⟨_, 12, rfl⟩
  obtain ⟨hblame, -⟩ := fails_blame groupBody (.spaceBefore (.rule ⟨"group", 0⟩)) hc
  obtain ⟨-, h, hu, -, hmessage, hfail, -⟩ := hblame _ he
  exact ⟨hc, he, h, hu, hmessage, hfail⟩

end Grammar
end Peg
