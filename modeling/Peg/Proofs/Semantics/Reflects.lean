import Peg.Grammar.Eval
import Peg.Proofs.Cursor.Suffix
import Peg.Proofs.Parser.Returns
import Peg.Proofs.Semantics.Derives

/-!
# Peg.Proofs.Semantics.Reflects

Whatever the parser of a grammar returns, the grammar derives.

* `Outcome.answer s o`: the outcome `o` as an answer with cursors in the source `s`.
* `Reflects body? s g p`: every answer of `p` in `s` is an outcome that `g` derives.
* `reflects_eval`: the parser of a grammar reflects it, with any fuel.
-/

namespace Peg

/-- The stretch of `s` between two of its ends. -/
def Span.between (s : String) (cs rest : List Char) : Span :=
  ⟨s, (Cursor.before s cs).offset, (Cursor.before s rest).offset⟩

namespace Grammar

open Parsing (Returns)
open Peg.Parser

def Outcome.answer {α : Type} (s : String) : Outcome α → Answer (Value α)
  | ok v rest => .ok v (.before s rest)
  | fail cause rest => .fail (.ofCursor cause (.before s rest))

theorem Outcome.answer_map {α : Type} (s : String) (f : Value α → Value α) (o : Outcome α) :
    (o.map f).answer s = (o.answer s).map f := by
  cases o <;> rfl

variable {α : Type} {body? : Nat → Option (Grammar Empty Empty α)} {s : String}

def Reflects (body? : Nat → Option (Grammar Empty Empty α)) (s : String)
    (g : Grammar Empty Empty α) (p : Parser Unit (Value α)) : Prop :=
  ∀ cs, cs <:+ s.toList → ∀ a, Returns (p (.before s cs)) a →
    ∃ o, Derives body? (Span.between s) g cs o ∧ o.answer s = a

namespace Reflects

variable {g : Grammar Empty Empty α} {p : Parser Unit (Value α)} {cs : List Char}

theorem ok (h : Reflects body? s g p) (hcs : cs <:+ s.toList) {v : Value α} {d : Cursor}
    (hr : Returns (p (.before s cs)) (.ok v d)) :
    ∃ rest, rest <:+ s.toList ∧ d = .before s rest ∧
      Derives body? (Span.between s) g cs (.ok v rest) := by
  obtain ⟨o, ho, ha⟩ := h cs hcs _ hr
  cases o with
  | ok v' rest =>
    cases ha
    exact ⟨rest, ho.rest_suffix.trans hcs, rfl, ho⟩
  | fail cause rest => cases ha

theorem fail (h : Reflects body? s g p) (hcs : cs <:+ s.toList) {e : ParseError}
    (hr : Returns (p (.before s cs)) (.fail e)) :
    ∃ cause rest, e = .ofCursor cause (.before s rest) ∧
      Derives body? (Span.between s) g cs (.fail cause rest) := by
  obtain ⟨o, ho, ha⟩ := h cs hcs _ hr
  cases o with
  | ok v rest => cases ha
  | fail cause rest =>
    cases ha
    exact ⟨cause, rest, rfl, ho⟩

theorem single (test : Option Char → Bool) :
    Reflects body? s (.single test) ((Parser.single test).map .char) := by
  intro cs hcs a hr
  obtain ⟨b, hb, rfl⟩ := returns_map.1 hr
  have hp := Cursor.peek_before hcs
  rcases returns_single.1 hb with ⟨ch, hpeek, ht, rfl⟩ | ⟨hmiss, rfl⟩
  · cases cs with
    | nil => rw [hp] at hpeek; cases hpeek
    | cons ch' cs =>
      rw [hp] at hpeek
      cases hpeek
      rw [Cursor.next_before hcs]
      exact ⟨_, .single ht, rfl⟩
  · cases cs with
    | nil => exact ⟨_, .singleEnd, rfl⟩
    | cons ch cs => exact ⟨_, .singleMiss (hmiss ch hp), rfl⟩

theorem eof : Reflects body? s .eof (Parser.eof.map fun _ => .unit) := by
  intro cs hcs a hr
  obtain ⟨b, hb, rfl⟩ := returns_map.1 hr
  rw [returns_eof, Cursor.peek_before hcs] at hb
  rcases hb with ⟨he, rfl⟩ | ⟨⟨ch, he⟩, rfl⟩
  · obtain rfl := List.head?_eq_none_iff.1 he
    exact ⟨_, .eof, rfl⟩
  · obtain ⟨cs, rfl⟩ := List.head?_eq_some_iff.1 he
    exact ⟨_, .eofMiss, rfl⟩

theorem map (f : Value α → Value α) (h : Reflects body? s g p) :
    Reflects body? s (.map f g) (p.map f) := by
  intro cs hcs a hr
  obtain ⟨b, hb, rfl⟩ := returns_map.1 hr
  obtain ⟨o, ho, rfl⟩ := h cs hcs b hb
  exact ⟨_, .map ho, Outcome.answer_map s f o⟩

theorem and {a b : Grammar Empty Empty α} {p q : Parser Unit (Value α)}
    (hp : Reflects body? s a p) (hq : Reflects body? s b q) :
    Reflects body? s (.and a b) ((p.and q).map fun v => .pair v.1 v.2) := by
  intro cs hcs x hr
  obtain ⟨y, hy, rfl⟩ := returns_map.1 hr
  rcases returns_and.1 hy with ⟨v, mid, hv, hw⟩ | ⟨e, he, rfl⟩
  · obtain ⟨m, hm, rfl, hd⟩ := hp.ok hcs hv
    obtain ⟨z, hz, rfl⟩ := returns_map.1 hw
    obtain ⟨o, ho, rfl⟩ := hq m hm z hz
    refine ⟨_, .andNext hd ho, ?_⟩
    cases o <;> rfl
  · obtain ⟨cause, rest, rfl, hd⟩ := hp.fail hcs he
    exact ⟨_, .andFail hd, rfl⟩

theorem or {a b : Grammar Empty Empty α} {p q : Parser Unit (Value α)}
    (hp : Reflects body? s a p) (hq : Reflects body? s b q) :
    Reflects body? s (.or a b) (p.or q) := by
  intro cs hcs x hr
  rcases returns_or.1 hr with ⟨v, d, hv, rfl⟩ | ⟨e, he, ⟨v, d, hv, rfl⟩ | ⟨e', he', rfl⟩⟩
  · obtain ⟨rest, -, rfl, hd⟩ := hp.ok hcs hv
    exact ⟨_, .orLeft hd, rfl⟩
  · obtain ⟨cause, left, rfl, hd⟩ := hp.fail hcs he
    obtain ⟨rest, -, rfl, hd'⟩ := hq.ok hcs hv
    exact ⟨_, .orRight hd hd', rfl⟩
  · obtain ⟨cause, left, rfl, hd⟩ := hp.fail hcs he
    obtain ⟨cause', right, rfl, hd'⟩ := hq.fail hcs he'
    exact ⟨_, .orFail hd hd', rfl⟩

theorem optional (h : Reflects body? s g p) :
    Reflects body? s (.optional g) (p.optional.map Value.ofOption) := by
  intro cs hcs a hr
  obtain ⟨b, hb, rfl⟩ := returns_map.1 hr
  rcases returns_optional.1 hb with ⟨v, d, hv, rfl⟩ | ⟨e, he, rfl⟩
  · obtain ⟨rest, -, rfl, hd⟩ := h.ok hcs hv
    exact ⟨_, .optionalSome hd, rfl⟩
  · obtain ⟨cause, rest, rfl, hd⟩ := h.fail hcs he
    exact ⟨_, .optionalNone hd, rfl⟩

theorem not (h : Reflects body? s g p) :
    Reflects body? s (.not g) (p.not.map fun _ => .unit) := by
  intro cs hcs a hr
  obtain ⟨b, hb, rfl⟩ := returns_map.1 hr
  rcases returns_not.1 hb with ⟨v, d, hv, rfl⟩ | ⟨e, he, rfl⟩
  · obtain ⟨rest, -, rfl, hd⟩ := h.ok hcs hv
    exact ⟨_, .notFail hd, rfl⟩
  · obtain ⟨cause, rest, rfl, hd⟩ := h.fail hcs he
    exact ⟨_, .not hd, rfl⟩

theorem span (h : Reflects body? s g p) :
    Reflects body? s (.span g) (p.withSpan.map fun v => .spanned v.1 v.2) := by
  intro cs hcs a hr
  obtain ⟨b, hb, rfl⟩ := returns_map.1 hr
  rcases returns_withSpan.1 hb with ⟨v, d, hv, rfl⟩ | ⟨e, he, rfl⟩
  · obtain ⟨rest, -, rfl, hd⟩ := h.ok hcs hv
    exact ⟨_, .span hd, rfl⟩
  · obtain ⟨cause, rest, rfl, hd⟩ := h.fail hcs he
    exact ⟨_, .spanFail hd, rfl⟩

/-- By induction on the bound: a round that succeeds is followed by a repetition with one round
less. -/
theorem greedy (h : Reflects body? s g p) {n : Nat} {vs : List (Value α)} {d : Cursor}
    (hcs : cs <:+ s.toList) (hr : Returns (Parser.greedy p n (.before s cs)) (vs, d)) :
    ∃ rest, d = .before s rest ∧
      Derives body? (Span.between s) (.many0 g) cs (.ok (.list vs) rest) := by
  induction n generalizing cs vs with
  | zero => exact absurd hr Parsing.returns_unfinished
  | succ n ih =>
    rcases returns_greedy_succ.1 hr with ⟨v, mid, ws, hv, hws, rfl⟩ | ⟨e, he, rfl, rfl⟩
    · obtain ⟨m, hm, rfl, hd⟩ := h.ok hcs hv
      obtain ⟨rest, rfl, hd'⟩ := ih hm hws
      exact ⟨rest, rfl, .many0More hd hd'⟩
    · obtain ⟨cause, left, rfl, hd⟩ := h.fail hcs he
      exact ⟨cs, rfl, .many0Stop hd⟩

theorem many0 (h : Reflects body? s g p) (n : Nat) :
    Reflects body? s (.many0 g) ((p.many0 n).map .list) := by
  intro cs hcs a hr
  obtain ⟨b, hb, rfl⟩ := returns_map.1 hr
  obtain ⟨vs, d, hg, rfl⟩ := returns_many0.1 hb
  obtain ⟨rest, rfl, hd⟩ := h.greedy hcs hg
  exact ⟨_, hd, rfl⟩

theorem many1 (h : Reflects body? s g p) (n : Nat) :
    Reflects body? s (.many1 g) ((p.many1 n).map .list) := by
  intro cs hcs a hr
  obtain ⟨b, hb, rfl⟩ := returns_map.1 hr
  rcases returns_many1.1 hb with ⟨v, vs, d, hg, rfl⟩ | ⟨d, hg, rfl⟩
  · obtain ⟨rest, rfl, hd⟩ := h.greedy hcs hg
    cases hd with
    | many0More hd hd' => exact ⟨_, .many1 hd hd', rfl⟩
  · obtain ⟨rest, -, hd⟩ := h.greedy hcs hg
    cases hd with
    | many0Stop hd => exact ⟨_, .many1Fail hd, rfl⟩

section Lists

variable {run : Grammar Empty Empty α → Parser Unit (Value α)}

theorem seq (h : ∀ g, Reflects body? s g (run g)) (gs : List (Grammar Empty Empty α)) :
    Reflects body? s (.seq gs) ((Parser.seq (gs.map run)).map .list) := by
  induction gs with
  | nil =>
    intro cs hcs a hr
    obtain ⟨b, hb, rfl⟩ := returns_map.1 hr
    obtain rfl := returns_seq_nil.1 hb
    exact ⟨_, .seqNil, rfl⟩
  | cons g gs ih =>
    intro cs hcs a hr
    obtain ⟨b, hb, rfl⟩ := returns_map.1 hr
    rcases returns_seq_cons.1 hb with ⟨v, mid, hv, hvs⟩ | ⟨e, he, rfl⟩
    · obtain ⟨m, hm, rfl, hd⟩ := (h g).ok hcs hv
      obtain ⟨b', hb', rfl⟩ := returns_map.1 hvs
      have htail : Returns ((Parser.seq (gs.map run)).map Value.list (.before s m))
          (b'.map .list) := returns_map.2 ⟨b', hb', rfl⟩
      cases b' with
      | ok ws d =>
        obtain ⟨rest, -, rfl, hd'⟩ := ih.ok hm htail
        exact ⟨_, .seqCons hd hd', rfl⟩
      | fail e =>
        obtain ⟨cause, rest, rfl, hd'⟩ := ih.fail hm htail
        exact ⟨_, .seqLater hd hd', rfl⟩
    · obtain ⟨cause, rest, rfl, hd⟩ := (h g).fail hcs he
      exact ⟨_, .seqFail hd, rfl⟩

theorem alternative (h : ∀ g, Reflects body? s g (run g)) (gs : List (Grammar Empty Empty α)) :
    Reflects body? s (.alternative gs) (Parser.alternative (gs.map run)) := by
  induction gs with
  | nil =>
    intro cs hcs a hr
    obtain rfl := returns_refuse.1 hr
    exact ⟨_, .alternativeNil, rfl⟩
  | cons g gs ih =>
    intro cs hcs a hr
    rcases returns_alternative_cons.1 hr with ⟨v, d, hv, rfl⟩ | ⟨e, he, hr⟩
    · obtain ⟨rest, -, rfl, hd⟩ := (h g).ok hcs hv
      exact ⟨_, .alternativeHit hd, rfl⟩
    · obtain ⟨cause, rest, rfl, hd⟩ := (h g).fail hcs he
      obtain ⟨o, ho, rfl⟩ := ih cs hcs a hr
      exact ⟨_, .alternativeNext hd ho, rfl⟩

theorem lookahead (h : ∀ g, Reflects body? s g (run g)) (ow : Option (Grammar Empty Empty α))
    (arms : List (GuardedArm (Grammar Empty Empty α) (Value α → Value α))) :
    Reflects body? s (.lookahead ⟨arms, ow⟩)
      (Parser.lookahead (ow.map run) (arms.map (armOf run))) := by
  induction arms with
  | nil =>
    intro cs hcs a hr
    cases ow with
    | none =>
      obtain rfl := returns_refuse.1 hr
      exact ⟨_, .noArm, rfl⟩
    | some g =>
      obtain ⟨o, ho, rfl⟩ := h g cs hcs a hr
      exact ⟨_, .otherwise ho, rfl⟩
  | cons arm arms ih =>
    intro cs hcs a hr
    rcases returns_lookahead_cons.1 hr with ⟨v, d, hv, hstep⟩ | ⟨e, he, hr⟩
    · obtain ⟨m, hm, rfl, hd⟩ := (h arm.look).ok hcs hv
      obtain ⟨b, hb, rfl⟩ := returns_map.1 hstep
      have hstart : (if arm.consume then Cursor.before s m else .before s cs) =
          .before s (if arm.consume then m else cs) := by
        split <;> rfl
      have hsuffix : (if arm.consume then m else cs) <:+ s.toList := by
        split
        · exact hm
        · exact hcs
      change Returns (run arm.step (if arm.consume then _ else _)) b at hb
      rw [hstart] at hb
      obtain ⟨o, ho, rfl⟩ := h arm.step _ hsuffix b hb
      exact ⟨_, .armStep hd ho, Outcome.answer_map s _ o⟩
    · obtain ⟨cause, rest, rfl, hd⟩ := (h arm.look).fail hcs he
      obtain ⟨o, ho, rfl⟩ := ih cs hcs a hr
      exact ⟨_, .armNext hd ho, rfl⟩

theorem rule (h : ∀ g, Reflects body? s g (run g)) (r : Rule) :
    Reflects body? s (.rule r) (invoke r ((body? r.slot).map run)) := by
  intro cs hcs a hr
  obtain ⟨p, hp, hr⟩ := returns_invoke.1 hr
  obtain ⟨b, hb, rfl⟩ := Option.map_eq_some_iff.1 hp
  obtain ⟨o, ho, rfl⟩ := h b cs hcs a hr
  exact ⟨_, .rule hb ho, rfl⟩

end Lists
end Reflects

theorem reflects_eval (n : Nat) (g : Grammar Empty Empty α) :
    Reflects body? s g (eval (.ofBodies body?) n g) := by
  induction n generalizing g with
  | zero => exact fun cs hcs a hr => absurd hr Parsing.returns_unfinished
  | succ n ih =>
    cases g with
    | single test => exact .single test
    | eof => exact .eof
    | seq gs => exact .seq ih gs
    | alternative gs => exact .alternative ih gs
    | and a b => exact (ih a).and (ih b)
    | or a b => exact (ih a).or (ih b)
    | optional g => exact (ih g).optional
    | many0 g => exact (ih g).many0 n
    | many1 g => exact (ih g).many1 n
    | not g => exact (ih g).not
    | map f g => exact (ih g).map f
    | span g => exact (ih g).span
    | lookahead l => exact .lookahead ih l.otherwise l.arms
    | rule r => exact .rule ih r
    | leaf k => exact k.elim
    | wrap w g => exact w.elim

end Grammar
end Peg
