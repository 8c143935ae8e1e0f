import Peg.Proofs.Cursor.Reaches
import Peg.Proofs.Grammar.Comes
import Peg.Proofs.Grammar.Confined
import Peg.Proofs.Parser.Returns
import Peg.Proofs.Shift.Text

/-!
# Peg.Proofs.Grammar.Rounds

Greedy repetition takes the one maximal run of its part.

* `Rounds env g c vs d`: from `c` to `d` the grammar `g` succeeds again and again, with the values
  `vs`.
* `MaximalRun env g c vs d`: and at `d` it fails. No other rounds from `c` go further
  (`Rounds.maximal`).
* `Loop env g c o`: a repetition comes to `o` by its rounds and the attempt behind them
  (`comes_many0_iff_loop`).
* `Advances env g`: the successes of `g` leave less to be read.
* `Rounds.length_le`, `exists_rounds`: then there are at most as many rounds as characters left, and
  they come to a place where `g` has no further success.
* `repetition_greedy`: the laws of both repetitions together.
-/

namespace Peg

theorem Cursor.Reaches.remaining_length_lt {c d : Cursor} (hc : c.Valid) (h : c.Reaches d)
    (hlt : c.offset < d.offset) : d.remaining.length < c.remaining.length := by
  obtain ⟨pre, hpre⟩ := hc.splits
  obtain ⟨pre', hpre'⟩ := h.valid.splits
  have hoff : pre.utf8ByteSize < pre'.utf8ByteSize := by rwa [← hpre.2, ← hpre'.2]
  have hsource : pre ++ c.remaining = pre' ++ d.remaining := by rw [← hpre.1, ← hpre'.1, h.source]
  obtain ⟨m, hm, hrest⟩ := Text.append_eq_append_of_le hsource (Nat.le_of_lt hoff)
  have hne : m.length ≠ 0 := by
    intro h0
    have hempty : m = "" := String.length_eq_zero_iff.1 h0
    rw [hm, hempty, String.append_empty] at hoff
    exact Nat.lt_irrefl _ hoff
  rw [hrest, String.length_append]
  omega

/-- The first component of a pair in front of the list that is the second. -/
def Value.prepend {α : Type} : Value α → Value α
  | .pair v w => v.cons w
  | w => w

namespace Grammar

open Parsing (EndsIn endsIn_pure endsIn_bind endsIn_map not_endsIn_unfinished)

variable {κ ω α : Type} {env : Env κ ω Unit α} {g : Grammar κ ω α} {c d d' : Cursor}
  {v : Value α} {vs vs' : List (Value α)} {o : Except Rule (Answer (Value α))}

inductive Rounds (env : Env κ ω Unit α) (g : Grammar κ ω α) :
    Cursor → List (Value α) → Cursor → Prop
  | none {c : Cursor} : Rounds env g c [] c
  | more {c mid d : Cursor} {v : Value α} {vs : List (Value α)} :
      Comes env g c (.ok (.ok v mid)) → Rounds env g mid vs d → Rounds env g c (v :: vs) d

def MaximalRun (env : Env κ ω Unit α) (g : Grammar κ ω α) (c : Cursor) (vs : List (Value α))
    (d : Cursor) : Prop :=
  Rounds env g c vs d ∧ ∃ e, Comes env g d (.ok (.fail e))

/-- The rounds of two runs are the same as far as both go. -/
theorem Rounds.maximal (hf : env.toForeign.Monotone) (h : MaximalRun env g c vs d)
    (h' : Rounds env g c vs' d') : ∃ ws, vs = vs' ++ ws ∧ Rounds env g d' ws d := by
  obtain ⟨hr, e, he⟩ := h
  induction h' generalizing vs with
  | none => exact ⟨vs, rfl, hr⟩
  | more hv _ ih =>
    cases hr with
    | none => cases hv.unique hf he
    | more hv' hr =>
      cases hv'.unique hf hv
      obtain ⟨ws, rfl, hws⟩ := ih hr
      exact ⟨ws, rfl, hws⟩

theorem MaximalRun.unique (hf : env.toForeign.Monotone) (h : MaximalRun env g c vs d)
    (h' : MaximalRun env g c vs' d') : vs = vs' ∧ d = d' := by
  obtain ⟨ws, rfl, hws⟩ := Rounds.maximal hf h h'.1
  obtain ⟨-, e, he⟩ := h'
  cases hws with
  | none => exact ⟨List.append_nil _, rfl⟩
  | more hv _ => cases hv.unique hf he

/-! ## The loop -/

/-- A repetition ends with its last attempt: a failure of it is dropped, an abort is not. -/
inductive Loop (env : Env κ ω Unit α) (g : Grammar κ ω α) (c : Cursor) :
    Except Rule (Answer (Value α)) → Prop
  | fail {vs : List (Value α)} {d : Cursor} {e : ParseError} :
      Rounds env g c vs d → Comes env g d (.ok (.fail e)) → Loop env g c (.ok (.ok (.list vs) d))
  | abort {vs : List (Value α)} {d : Cursor} {r : Rule} :
      Rounds env g c vs d → Comes env g d (.error r) → Loop env g c (.error r)

theorem Loop.more {mid : Cursor} (hv : Comes env g c (.ok (.ok v mid))) (h : Loop env g mid o) :
    Loop env g c (o.map (Answer.map (.cons v))) := by
  cases h with
  | fail hr he => exact .fail (.more hv hr) he
  | abort hr ha => exact .abort (.more hv hr) ha

/-- By induction on the number of rounds that are allowed. -/
theorem Loop.of_endsIn {n m : Nat}
    (h : EndsIn (((eval env n g).many0 m).map Value.list c) o) : Loop env g c o := by
  induction m generalizing c o with
  | zero => exact absurd h not_endsIn_unfinished
  | succ m ih =>
    rw [map_list_many0_succ] at h
    rcases endsIn_bind.1 h with ⟨r, hr, rfl⟩ | ⟨v | e, ha, ho⟩
    · exact .abort .none ⟨n, hr⟩
    · obtain ⟨o', ho', rfl⟩ := endsIn_map.1 ho
      exact (ih ho').more ⟨n, ha⟩
    · cases endsIn_pure.1 ho
      exact .fail .none ⟨n, ha⟩

theorem comes_many0_iff_loop (hf : env.toForeign.Monotone) :
    Comes env (.many0 g) c o ↔ Loop env g c o := by
  constructor
  · rintro ⟨n, hn⟩
    cases n with
    | zero => exact absurd hn not_endsIn_unfinished
    | succ n => exact .of_endsIn hn
  · intro h
    cases h with
    | fail hr he =>
      induction hr with
      | none => exact (comes_many0 hf).2 (.fail he)
      | more hv _ ih => exact (comes_many0 hf).2 (.next hv (ih he))
    | abort hr ha =>
      induction hr with
      | none => exact (comes_many0 hf).2 (.abort ha)
      | more hv _ ih => exact (comes_many0 hf).2 (.next hv (ih ha))

theorem comes_many0_ok (hf : env.toForeign.Monotone) {a : Answer (Value α)} :
    Comes env (.many0 g) c (.ok a) ↔ ∃ vs d, MaximalRun env g c vs d ∧ a = .ok (.list vs) d := by
  rw [comes_many0_iff_loop hf]
  constructor
  · rintro (@⟨vs, d, e, hr, he⟩ | _)
    exact ⟨vs, d, ⟨hr, e, he⟩, rfl⟩
  · rintro ⟨vs, d, ⟨hr, e, he⟩, rfl⟩
    exact .fail hr he

theorem comes_many0_error (hf : env.toForeign.Monotone) {r : Rule} :
    Comes env (.many0 g) c (.error r) ↔
      ∃ vs d, Rounds env g c vs d ∧ Comes env g d (.error r) := by
  rw [comes_many0_iff_loop hf]
  constructor
  · rintro (_ | @⟨vs, d, r, hr, ha⟩)
    exact ⟨vs, d, hr, ha⟩
  · rintro ⟨vs, d, hr, ha⟩
    exact .abort hr ha

theorem comes_many1_ok (hf : env.toForeign.Monotone) {a : Answer (Value α)} :
    Comes env (.many1 g) c (.ok a) ↔
      ∃ vs d, MaximalRun env g c vs d ∧
        a = if vs.isEmpty then .fail (.ofCursor .atLeastOne c) else .ok (.list vs) d := by
  rw [comes_many1 hf, onward_ok]
  constructor
  · rintro (⟨e, he, rfl⟩ | ⟨v, mid, a', hv, ha', rfl⟩)
    · exact ⟨[], c, ⟨.none, e, he⟩, rfl⟩
    · obtain ⟨vs, d, ⟨hr, hfail⟩, rfl⟩ := (comes_many0_ok hf).1 ha'
      exact ⟨v :: vs, d, ⟨.more hv hr, hfail⟩, rfl⟩
  · rintro ⟨vs, d, ⟨hr, e, he⟩, rfl⟩
    cases hr with
    | none => exact .inl ⟨e, he, rfl⟩
    | @more _ mid _ v vs hv hr =>
      have hrest : Comes env (.many0 g) mid (.ok (.ok (.list vs) d)) :=
        (comes_many0_ok hf).2 ⟨vs, d, ⟨hr, e, he⟩, rfl⟩
      exact .inr ⟨v, mid, _, hv, hrest, rfl⟩

theorem comes_many1_error (hf : env.toForeign.Monotone) {r : Rule} :
    Comes env (.many1 g) c (.error r) ↔ Comes env (.many0 g) c (.error r) := by
  rw [comes_many1 hf, comes_many0 hf, onward_error, onward_error]

/-- Where the first attempt does not fail, `g` and a repetition behind it do the same. -/
theorem comes_many1_iff_and (hf : env.toForeign.Monotone)
    (hfirst : ∀ e, ¬ Comes env g c (.ok (.fail e))) :
    Comes env (.many1 g) c o ↔ Comes env (.map Value.prepend (.and g (.many0 g))) c o := by
  rw [comes_many1 hf, comes_map]
  constructor
  · intro h
    cases h with
    | abort ha => exact ⟨_, (comes_and hf).2 (.abort ha), rfl⟩
    | fail he => exact absurd he (hfirst _)
    | @next v d o hv ho =>
      refine ⟨_, (comes_and hf).2 (.next hv ho), ?_⟩
      rcases o with r | ⟨w, e⟩ | e
      · rfl
      · rfl
      · rfl
  · rintro ⟨o', ho', rfl⟩
    cases (comes_and hf).1 ho' with
    | abort ha => exact .abort ha
    | fail he => exact absurd he (hfirst _)
    | @next v d o hv ho =>
      rcases o with r | ⟨w, e⟩ | e
      · exact .next hv ho
      · exact .next hv ho
      · exact .next hv ho

/-! ## Progress -/

def Advances (env : Env κ ω Unit α) (g : Grammar κ ω α) : Prop :=
  ∀ c v d, c.Valid → Comes env g c (.ok (.ok v d)) → c.Reaches d ∧ c.offset < d.offset

/-- Each round takes one of the characters that are left, at least. -/
theorem Rounds.length_le (hg : Advances env g) (hc : c.Valid) (h : Rounds env g c vs d) :
    c.Reaches d ∧ vs.length + d.remaining.length ≤ c.remaining.length := by
  induction h with
  | none => exact ⟨.refl hc, by simp⟩
  | @more c mid d v vs hv _ ih =>
    obtain ⟨hmid, hlt⟩ := hg c v mid hc hv
    obtain ⟨hd, hle⟩ := ih hmid.valid
    have hless := hmid.remaining_length_lt hc hlt
    refine ⟨hmid.trans hd, ?_⟩
    rw [List.length_cons]
    omega

/-- By induction on the number of characters that are left. -/
theorem exists_rounds (hg : Advances env g) (hc : c.Valid) :
    ∃ vs d, Rounds env g c vs d ∧ ∀ v e, ¬ Comes env g d (.ok (.ok v e)) := by
  induction hn : c.remaining.length using Nat.strongRecOn generalizing c with
  | ind n ih =>
    by_cases hv : ∃ v mid, Comes env g c (.ok (.ok v mid))
    · obtain ⟨v, mid, hv⟩ := hv
      obtain ⟨hmid, hlt⟩ := hg c v mid hc hv
      have hless : mid.remaining.length < n := hn ▸ hmid.remaining_length_lt hc hlt
      obtain ⟨vs, d, hr, hstop⟩ := ih _ hless hmid.valid rfl
      exact ⟨v :: vs, d, .more hv hr, hstop⟩
    · exact ⟨[], c, .none, fun v e h => hv ⟨v, e, h⟩⟩

theorem advances_single (test : Option Char → Bool) : Advances env (.single test) := by
  rintro c v d hc ⟨n, h⟩
  cases n with
  | zero => exact absurd h not_endsIn_unfinished
  | succ n =>
    obtain ⟨x, hx, hv⟩ := Parser.returns_map.1 h
    rcases Parser.returns_single.1 hx with ⟨ch, hch, -, rfl⟩ | ⟨-, rfl⟩
    · cases hv
      refine ⟨.next hc, ?_⟩
      rw [Cursor.next, hch]
      exact Nat.lt_add_of_pos_right ch.utf8Size_pos
    · cases hv

theorem Advances.behind (hf : env.toForeign.Monotone) {a b : Grammar κ ω α}
    (ha : ∀ c v d, c.Valid → Comes env a c (.ok (.ok v d)) → c.Reaches d) (hb : Advances env b) :
    Advances env (.and a b) := by
  intro c v d hc h
  obtain ⟨x, mid, y, hx, hy, -⟩ := (comes_and_ok hf).1 h
  have hmid := ha c x mid hc hx
  obtain ⟨hd, hlt⟩ := hb mid y d hmid.valid hy
  exact ⟨hmid.trans hd, Nat.lt_of_le_of_lt hmid.le hlt⟩

/-- Behind all rounds the repetition ends as the attempt does. -/
theorem Rounds.comes_many0 (hf : env.toForeign.Monotone) (h : Rounds env g c vs d)
    (hstop : ∀ v e, ¬ Comes env g d (.ok (.ok v e))) (ho : Comes env g d o) :
    Comes env (.many0 g) c (o.map fun _ => .ok (.list vs) d) := by
  rcases o with r | v | e
  · exact (comes_many0_error hf).2 ⟨vs, d, h, ho⟩
  · exact absurd ho (hstop _ _)
  · exact (comes_many0_ok hf).2 ⟨vs, d, ⟨h, e, ho⟩, rfl⟩

/-! ## Both repetitions -/

structure Greedy (env : Env κ ω Unit α) (g : Grammar κ ω α) (c : Cursor) : Prop where
  many0 : ∀ a, Comes env (.many0 g) c (.ok a) ↔
    ∃ vs d, MaximalRun env g c vs d ∧ a = .ok (.list vs) d
  many1 : ∀ a, Comes env (.many1 g) c (.ok a) ↔
    ∃ vs d, MaximalRun env g c vs d ∧
      a = if vs.isEmpty then .fail (.ofCursor .atLeastOne c) else .ok (.list vs) d
  /-- Only a round can abort a repetition. -/
  abort : ∀ r, (Comes env (.many0 g) c (.error r) ↔
      ∃ vs d, Rounds env g c vs d ∧ Comes env g d (.error r)) ∧
    (Comes env (.many1 g) c (.error r) ↔ Comes env (.many0 g) c (.error r))
  maximal : ∀ vs d vs' d', MaximalRun env g c vs d → Rounds env g c vs' d' → vs' <+: vs
  unique : ∀ vs d vs' d', MaximalRun env g c vs d → MaximalRun env g c vs' d' → vs = vs' ∧ d = d'
  /-- One round, and any number behind it. -/
  first : (∀ e, ¬ Comes env g c (.ok (.fail e))) → ∀ o, Comes env (.many1 g) c o ↔
    Comes env (.map Value.prepend (.and g (.many0 g))) c o
  again : ∀ vs d, Comes env (.many0 g) c (.ok (.ok (.list vs) d)) →
    Comes env (.many0 g) d (.ok (.ok (.list []) d))
  bounded : Advances env g → c.Valid → ∀ vs d, Rounds env g c vs d →
    c.Reaches d ∧ vs.length ≤ c.remaining.length
  /-- If rounds advance, one of them is the last, and the repetition ends when the attempt behind it
  does. -/
  ends : Advances env g → c.Valid → ∃ vs d, Rounds env g c vs d ∧
    (∀ v e, ¬ Comes env g d (.ok (.ok v e))) ∧
      ∀ o, Comes env g d o → Comes env (.many0 g) c (o.map fun _ => .ok (.list vs) d)

theorem repetition_greedy (hf : env.toForeign.Monotone) (g : Grammar κ ω α) (c : Cursor) :
    Greedy env g c where
  many0 _ := comes_many0_ok hf
  many1 _ := comes_many1_ok hf
  abort _ := ⟨comes_many0_error hf, comes_many1_error hf⟩
  maximal vs d vs' d' h h' := by
    obtain ⟨ws, rfl, -⟩ := Rounds.maximal hf h h'
    exact List.prefix_append vs' ws
  unique _ _ _ _ h h' := h.unique hf h'
  first hfirst _ := comes_many1_iff_and hf hfirst
  again vs d h := by
    obtain ⟨vs', d', ⟨-, hfail⟩, heq⟩ := (comes_many0_ok hf).1 h
    cases heq
    exact (comes_many0_ok hf).2 ⟨[], d, ⟨.none, hfail⟩, rfl⟩
  bounded hg hc vs d hr := by
    obtain ⟨hd, hle⟩ := hr.length_le hg hc
    exact ⟨hd, Nat.le_of_add_right_le hle⟩
  ends hg hc := by
    obtain ⟨vs, d, hr, hstop⟩ := exists_rounds hg hc
    exact ⟨vs, d, hr, hstop, fun o ho => hr.comes_many0 hf hstop ho⟩

/-- Any character, taken by the foreign parser, and a letter behind it. -/
def anyThenB : Grammar Unit Empty Nat := .and (.leaf ()) (.char 'b')

theorem advances_anyThenB : Advances skipEnv anyThenB := by
  refine .behind (Foreign.monotone_of_isEmpty _) ?_ (advances_single _)
  rintro c v d hc ⟨n, log, h⟩
  cases n with
  | zero => cases h
  | succ n =>
    cases h
    exact .next hc

/-- The attempt behind the second round reads a character before it fails. -/
theorem repetition_greedy_anyThenB :
    skipEnv.toForeign.Monotone ∧ Advances skipEnv anyThenB ∧ (Cursor.start "ñbaba!").Valid ∧
      Comes skipEnv (.many0 anyThenB) (.start "ñbaba!")
        (.ok (.ok (.list [.pair .unit (.char 'b'), .pair .unit (.char 'b')]) ⟨"ñbaba!", 5⟩)) ∧
      Comes skipEnv (.many0 anyThenB) ⟨"ñbaba!", 5⟩ (.ok (.ok (.list []) ⟨"ñbaba!", 5⟩)) ∧
      (Cursor.start "ñbaba!").Reaches ⟨"ñbaba!", 5⟩ ∧
      ∃ vs d, Rounds skipEnv anyThenB (.start "ñbaba!") vs d ∧
        ∀ v e, ¬ Comes skipEnv anyThenB d (.ok (.ok v e)) := by
  have hf : skipEnv.toForeign.Monotone := Foreign.monotone_of_isEmpty _
  have hc : (Cursor.start "ñbaba!").Valid := Cursor.valid_start _
  have hg : Greedy skipEnv anyThenB (.start "ñbaba!") := repetition_greedy hf _ _
  have hrun : MaximalRun skipEnv anyThenB (.start "ñbaba!") _ ⟨"ñbaba!", 5⟩ :=
    ⟨.more ⟨3, _, rfl⟩ (.more ⟨3, _, rfl⟩ .none), _, ⟨3, _, rfl⟩⟩
  have hmany := (hg.many0 _).2 ⟨_, _, hrun, rfl⟩
  have hreaches := (hg.bounded advances_anyThenB hc _ _ hrun.1).1
  obtain ⟨vs, d, hr, hstop, -⟩ := hg.ends advances_anyThenB hc
  exact ⟨hf, advances_anyThenB, hc, hmany, hg.again _ _ hmany, hreaches, vs, d, hr, hstop⟩

end Grammar
end Peg
