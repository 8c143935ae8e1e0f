import Peg.Proofs.Plan.Adequacy

/-!
# Peg.Proofs.Plan.Course

The course that a run takes: every grammar that it runs and every rule that it invokes, in order and
with how it ended.

* `Course`: a part of a course, with its own parts inside it.
* `Plan.Proceeds body? p o ts`: carrying out `p` comes to `o`, and `ts` is what is run on the way.
* `Course.invocationsAll`: the invocations of rules with a body, in the order in which they begin.
* `Course.Occurs t ts`: `t` is one of `ts`, or inside one of them at any depth.

A course says nothing of records. It keeps what was run in vain beside what was not: a part that has
failed has its place in it like any other. A plan has one course (`Proceeds.unique`), and the log is
made of the invocations in it (`performs_iff_proceeds`).
-/

namespace Peg
namespace Grammar

inductive Course (α : Type) where
  /-- A grammar was run from a cursor. -/
  | part (g : Grammar Empty Empty α) (c : Cursor) (o : Except Rule (Answer (Value α)))
      (inner : List (Course α))
  /-- A rule was invoked at a cursor, and its body run. -/
  | invocation (r : Rule) (c : Cursor) (o : Except Rule (Answer (Value α)))
      (inner : List (Course α))

variable {α : Type} {body? : Nat → Option (Grammar Empty Empty α)}

namespace Course

mutual

def invocations : Course α → List (Rule × Cursor)
  | part _ _ _ inner => invocationsAll inner
  | invocation r c _ inner => (r, c) :: invocationsAll inner

def invocationsAll : List (Course α) → List (Rule × Cursor)
  | [] => []
  | t :: ts => t.invocations ++ invocationsAll ts

end

/-- The records of the invocations. -/
def entries (ts : List (Course α)) : List Record :=
  (invocationsAll ts).map fun (r, c) => .entering r.name c.offset

theorem entries_nil : entries ([] : List (Course α)) = [] := by
  rw [entries, invocationsAll, List.map_nil]

theorem entries_part (g : Grammar Empty Empty α) (c : Cursor) (o : Except Rule (Answer (Value α)))
    (inner ts : List (Course α)) : entries (.part g c o inner :: ts) = entries inner ++ entries ts := by
  simp only [entries, invocationsAll, invocations, List.map_append]

theorem entries_invocation (r : Rule) (c : Cursor) (o : Except Rule (Answer (Value α)))
    (inner ts : List (Course α)) :
    entries (.invocation r c o inner :: ts) =
      .entering r.name c.offset :: (entries inner ++ entries ts) := by
  simp only [entries, invocationsAll, invocations, List.map_append, List.map_cons, List.cons_append]

inductive Occurs (t : Course α) : List (Course α) → Prop
  | here {ts : List (Course α)} : Occurs t (t :: ts)
  | later {u : Course α} {ts : List (Course α)} : Occurs t ts → Occurs t (u :: ts)
  | part {g : Grammar Empty Empty α} {c : Cursor} {o : Except Rule (Answer (Value α))}
      {inner ts : List (Course α)} : Occurs t inner → Occurs t (.part g c o inner :: ts)
  | invocation {r : Rule} {c : Cursor} {o : Except Rule (Answer (Value α))}
      {inner ts : List (Course α)} : Occurs t inner → Occurs t (.invocation r c o inner :: ts)

/-- What a part has left in the log stands there in one piece. -/
theorem Occurs.entries_infix {g : Grammar Empty Empty α} {c : Cursor}
    {o : Except Rule (Answer (Value α))} {inner ts : List (Course α)}
    (h : Occurs (.part g c o inner) ts) : entries inner <:+: entries ts := by
  induction h with
  | @here ts =>
    rw [entries_part]
    exact (List.prefix_append (entries inner) (entries ts)).isInfix
  | @later u ts _ ih =>
    refine ih.trans ?_
    cases u with
    | part h d o' inner' =>
      rw [entries_part]
      exact (List.suffix_append (entries inner') (entries ts)).isInfix
    | invocation r d o' inner' =>
      rw [entries_invocation, ← List.cons_append]
      exact (List.suffix_append _ (entries ts)).isInfix
  | @part h d o' inner' ts _ ih =>
    rw [entries_part]
    exact ih.trans (List.prefix_append (entries inner') (entries ts)).isInfix
  | @invocation r d o' inner' ts _ ih =>
    rw [entries_invocation]
    have hbody : entries inner' <:+: entries inner' ++ entries ts :=
      (List.prefix_append (entries inner') (entries ts)).isInfix
    exact (ih.trans hbody).trans (List.suffix_cons _ _).isInfix

end Course

/-! ## The course of a plan -/

open Course (entries Occurs)

inductive Plan.Proceeds (body? : Nat → Option (Grammar Empty Empty α)) :
    Plan α → Except Rule (Answer (Value α)) → List (Course α) → Prop
  | done {a : Answer (Value α)} : Proceeds body? (.done a) (.ok a) []
  | undefined {r : Rule} {c : Cursor} :
      body? r.slot = none → Proceeds body? (.enter r c) (.error r) []
  | enter {r : Rule} {c : Cursor} {b : Grammar Empty Empty α}
      {o : Except Rule (Answer (Value α))} {inner : List (Course α)} :
      body? r.slot = some b → Proceeds body? (plan b c) o inner →
      Proceeds body? (.enter r c) o [.invocation r c o inner]
  | stop {g : Grammar Empty Empty α} {c : Cursor} {next : Answer (Value α) → Plan α} {r : Rule}
      {inner : List (Course α)} :
      Proceeds body? (plan g c) (.error r) inner →
      Proceeds body? (.call g c next) (.error r) [.part g c (.error r) inner]
  | step {g : Grammar Empty Empty α} {c : Cursor} {next : Answer (Value α) → Plan α}
      {a : Answer (Value α)} {o : Except Rule (Answer (Value α))} {inner ts : List (Course α)} :
      Proceeds body? (plan g c) (.ok a) inner → Proceeds body? (next a) o ts →
      Proceeds body? (.call g c next) o (.part g c (.ok a) inner :: ts)

variable {p : Plan α} {o o' : Except Rule (Answer (Value α))} {ts ts' : List (Course α)} {log : Log}

theorem Plan.Proceeds.unique (h : p.Proceeds body? o ts) (h' : p.Proceeds body? o' ts') :
    o' = o ∧ ts' = ts := by
  induction h generalizing o' ts' with
  | done =>
    cases h'
    exact ⟨rfl, rfl⟩
  | undefined hb =>
    cases h' with
    | undefined => exact ⟨rfl, rfl⟩
    | enter hb' => rw [hb] at hb'; cases hb'
  | enter hb _ ih =>
    cases h' with
    | undefined hb' => rw [hb] at hb'; cases hb'
    | enter hb' h' =>
      rw [hb] at hb'
      cases hb'
      obtain ⟨rfl, rfl⟩ := ih h'
      exact ⟨rfl, rfl⟩
  | stop _ ih =>
    cases h' with
    | stop h' =>
      obtain ⟨he, rfl⟩ := ih h'
      cases he
      exact ⟨rfl, rfl⟩
    | step h' => cases (ih h').1
  | step _ _ ih ih₂ =>
    cases h' with
    | stop h' => cases (ih h').1
    | step h' h₂' =>
      obtain ⟨he, rfl⟩ := ih h'
      cases he
      obtain ⟨rfl, rfl⟩ := ih₂ h₂'
      exact ⟨rfl, rfl⟩

/-- The parts of a course, at any depth, are themselves carried out as their plans say. -/
theorem Plan.Proceeds.occurs {g : Grammar Empty Empty α} {c : Cursor} {inner : List (Course α)}
    (h : p.Proceeds body? o ts) (ht : Occurs (.part g c o' inner) ts) :
    (plan g c).Proceeds body? o' inner := by
  induction h with
  | done => cases ht
  | undefined => cases ht
  | enter _ _ ih =>
    cases ht with
    | later ht => cases ht
    | invocation ht => exact ih ht
  | stop h ih =>
    cases ht with
    | here => exact h
    | later ht => cases ht
    | part ht => exact ih ht
  | step h _ ih ih₂ =>
    cases ht with
    | here => exact h
    | later ht => exact ih₂ ht
    | part ht => exact ih ht

/-! ## Courses and logs -/

theorem Performs.proceeds (h : Performs body? p o log) :
    ∃ ts, p.Proceeds body? o ts ∧ log.toList = entries ts := by
  induction h with
  | done => exact ⟨_, .done, Course.entries_nil.symm⟩
  | undefined hb => exact ⟨_, .undefined hb, Course.entries_nil.symm⟩
  | enter hb _ ih =>
    obtain ⟨inner, h, hlog⟩ := ih
    refine ⟨_, .enter hb h, ?_⟩
    rw [Log.toList_append, Log.toList_single, hlog, Course.entries_invocation, Course.entries_nil,
      List.append_nil, List.singleton_append]
  | stop _ ih =>
    obtain ⟨inner, h, hlog⟩ := ih
    refine ⟨_, .stop h, ?_⟩
    rw [hlog, Course.entries_part, Course.entries_nil, List.append_nil]
  | step _ _ ih ih₂ =>
    obtain ⟨inner, h, hlog⟩ := ih
    obtain ⟨ts, h₂, hlog₂⟩ := ih₂
    refine ⟨_, .step h h₂, ?_⟩
    rw [Log.toList_append, hlog, hlog₂, Course.entries_part]

theorem Plan.Proceeds.exists_performs (h : p.Proceeds body? o ts) :
    ∃ log, Performs body? p o log := by
  induction h with
  | done => exact ⟨_, .done⟩
  | undefined hb => exact ⟨_, .undefined hb⟩
  | enter hb _ ih =>
    obtain ⟨log, h⟩ := ih
    exact ⟨_, .enter hb h⟩
  | stop _ ih =>
    obtain ⟨log, h⟩ := ih
    exact ⟨_, .stop h⟩
  | step _ _ ih ih₂ =>
    obtain ⟨log, h⟩ := ih
    obtain ⟨log₂, h₂⟩ := ih₂
    exact ⟨_, .step h h₂⟩

theorem Plan.Proceeds.performs (h : p.Proceeds body? o ts) :
    ∃ log, Performs body? p o log ∧ log.toList = entries ts := by
  obtain ⟨log, hlog⟩ := h.exists_performs
  obtain ⟨ts', hts, he⟩ := hlog.proceeds
  obtain ⟨-, rfl⟩ := h.unique hts
  exact ⟨log, hlog, he⟩

theorem performs_iff_proceeds :
    Performs body? p o log ↔ ∃ ts, p.Proceeds body? o ts ∧ log.toList = entries ts := by
  refine ⟨Performs.proceeds, ?_⟩
  rintro ⟨ts, h, hlog⟩
  obtain ⟨log', h', hlog'⟩ := h.performs
  rwa [Log.ext (hlog.trans hlog'.symm)]

end Grammar
end Peg
