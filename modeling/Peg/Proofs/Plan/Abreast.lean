import Mathlib.Data.Option.Defs
import Peg.Proofs.Plan.Adequacy

/-!
# Peg.Proofs.Plan.Abreast

Two runs side by side, one of which may take steps that the other does not take.

* `Pairing`: what goes together on the two sides, and which records either log may have for itself.
* `Plan.Beside C p p'`: the two plans go on call by call, and end in answers that go together.
* `Plan.Within C body? p q`: the plan `p` comes down to the plan `q`. It may enter rules on the way
  whose records its log has for itself, and change values as long as they go together with the same.
* `Pairing.Abreast`: after steps that one side takes for itself, two grammars go on call by call.
* `Pairing.Simulation`, `Simulation.runs`: if all grammars that go together are abreast, so are
  their runs. Both end or none does.

Unlike in `Peg.Proofs.Plan.Matches` the cursors on both sides are the same.
-/

namespace Peg
namespace Grammar

structure Pairing (α β : Type) where
  grammar : Grammar Empty Empty α → Grammar Empty Empty β → Prop
  /-- Rules that are entered at the same time. -/
  rule : Rule → Rule → Prop
  value : Value α → Value β → Prop
  record : Record → Record → Prop
  /-- Records that only the first log has. -/
  first : Record → Prop
  /-- Records that only the second log has. -/
  second : Record → Prop

variable {α β : Type} {body? : Nat → Option (Grammar Empty Empty α)}
  {body?' : Nat → Option (Grammar Empty Empty β)} {C : Pairing α β}
  {g a b : Grammar Empty Empty α} {g' a' b' : Grammar Empty Empty β} {c : Cursor}

namespace Pairing

def symm (C : Pairing α β) : Pairing β α where
  grammar := flip C.grammar
  rule := flip C.rule
  value := flip C.value
  record := flip C.record
  first := C.second
  second := C.first

inductive Answers (C : Pairing α β) : Answer (Value α) → Answer (Value β) → Prop
  | ok {v : Value α} {v' : Value β} {d : Cursor} : C.value v v' → Answers C (.ok v d) (.ok v' d)
  | fail {e : ParseError} : Answers C (.fail e) (.fail e)

inductive Results (C : Pairing α β) :
    Except Rule (Answer (Value α)) → Except Rule (Answer (Value β)) → Prop
  | answer {x : Answer (Value α)} {x' : Answer (Value β)} :
      C.Answers x x' → Results C (.ok x) (.ok x')
  | aborted {r : Rule} : Results C (.error r) (.error r)

inductive Records (C : Pairing α β) : List Record → List Record → Prop
  | nil : Records C [] []
  | both {e e' : Record} {l l' : List Record} :
      C.record e e' → Records C l l' → Records C (e :: l) (e' :: l')
  | first {e : Record} {l l' : List Record} : C.first e → Records C l l' → Records C (e :: l) l'
  | second {e' : Record} {l l' : List Record} :
      C.second e' → Records C l l' → Records C l (e' :: l')

def Logs (C : Pairing α β) (log log' : Log) : Prop := C.Records log.toList log'.toList

def Runs (C : Pairing α β) (r : Run Unit (Answer (Value α))) (r' : Run Unit (Answer (Value β))) :
    Prop :=
  C.Results r.result r'.result ∧ C.Logs r.log r'.log

theorem Answers.symm {x : Answer (Value α)} {x' : Answer (Value β)} (h : C.Answers x x') :
    C.symm.Answers x' x := by
  cases h with
  | ok hv => exact .ok hv
  | fail => exact .fail

theorem Records.append {l₁ l₂ l₁' l₂' : List Record} (h₁ : C.Records l₁ l₁')
    (h₂ : C.Records l₂ l₂') : C.Records (l₁ ++ l₂) (l₁' ++ l₂') := by
  induction h₁ with
  | nil => exact h₂
  | both he _ ih => exact .both he ih
  | first he _ ih => exact .first he ih
  | second he _ ih => exact .second he ih

/-- Where the records of the first log decide those of the second. -/
theorem Records.eq_filterMap {f : Record → Option Record}
    (hboth : ∀ e e', C.record e e' → f e = some e') (hfirst : ∀ e, C.first e → f e = none)
    (hsecond : ∀ e, ¬ C.second e) {l l' : List Record} (h : C.Records l l') :
    l' = l.filterMap f := by
  induction h with
  | nil => rfl
  | both he _ ih => rw [List.filterMap_cons_some (hboth _ _ he), ih]
  | first he _ ih => rw [List.filterMap_cons_none (hfirst _ he), ih]
  | second he _ _ => exact absurd he (hsecond _)

theorem Logs.append {l₁ l₂ l₁' l₂' : Log} (h₁ : C.Logs l₁ l₁') (h₂ : C.Logs l₂ l₂') :
    C.Logs (l₁ ++ l₂) (l₁' ++ l₂') := by
  rw [Logs, Log.toList_append, Log.toList_append]
  exact Records.append h₁ h₂

theorem Logs.empty : C.Logs .empty .empty := .nil

end Pairing

inductive Plan.Beside (C : Pairing α β) : Plan α → Plan β → Prop
  | done {x : Answer (Value α)} {x' : Answer (Value β)} :
      C.Answers x x' → Beside C (.done x) (.done x')
  | enter {r r' : Rule} {c : Cursor} : C.rule r r' → Beside C (.enter r c) (.enter r' c)
  | call {g : Grammar Empty Empty α} {g' : Grammar Empty Empty β} {c : Cursor}
      {next : Answer (Value α) → Plan α} {next' : Answer (Value β) → Plan β} :
      C.grammar g g' → (∀ x x', C.Answers x x' → Beside C (next x) (next' x')) →
      Beside C (.call g c next) (.call g' c next')

theorem Plan.Beside.symm {p : Plan α} {p' : Plan β} (h : p.Beside C p') : p'.Beside C.symm p := by
  induction h with
  | done hx => exact .done hx.symm
  | enter hr => exact .enter hr
  | call hg _ ih => exact .call hg fun x x' hx => ih x' x hx.symm

inductive Plan.Within (C : Pairing α β) (body? : Nat → Option (Grammar Empty Empty α)) :
    Plan α → Plan α → Prop
  | refl {p : Plan α} : Within C body? p p
  | call {g : Grammar Empty Empty α} {c : Cursor} {next : Answer (Value α) → Plan α} {q : Plan α} :
      (∀ x, ∃ y, next x = .done y ∧ ∀ x', C.Answers x x' → C.Answers y x') →
      Within C body? (plan g c) q → Within C body? (.call g c next) q
  | enter {r : Rule} {b : Grammar Empty Empty α} {c : Cursor} {q : Plan α} :
      body? r.slot = some b → C.first (.entering r.name c.offset) →
      Within C body? (plan b c) q → Within C body? (.enter r c) q

namespace Pairing

def Abreast (C : Pairing α β) (body? : Nat → Option (Grammar Empty Empty α))
    (body?' : Nat → Option (Grammar Empty Empty β)) (g : Grammar Empty Empty α)
    (g' : Grammar Empty Empty β) : Prop :=
  ∀ c, ∃ q q', (plan g c).Within C body? q ∧ (plan g' c).Within C.symm body?' q' ∧ q.Beside C q'

theorem Abreast.symm (h : C.Abreast body? body?' g g') : C.symm.Abreast body?' body? g' g := by
  intro c
  obtain ⟨q, q', hq, hq', hb⟩ := h c
  exact ⟨q', q, hq', hq, hb.symm⟩

structure Simulation (C : Pairing α β) (body? : Nat → Option (Grammar Empty Empty α))
    (body?' : Nat → Option (Grammar Empty Empty β)) : Prop where
  layer {g : Grammar Empty Empty α} {g' : Grammar Empty Empty β} :
    C.grammar g g' → C.Abreast body? body?' g g'
  body {r r' : Rule} : C.rule r r' → Option.Rel C.grammar (body? r.slot) (body?' r'.slot)
  undefined {r r' : Rule} : C.rule r r' → body? r.slot = none → r = r'
  entering {r r' : Rule} (o : Nat) :
    C.rule r r' → C.record (.entering r.name o) (.entering r'.name o)

namespace Simulation

variable {r r' : Rule}

theorem body_none (hs : C.Simulation body? body?') (hr : C.rule r r') :
    body? r.slot = none ↔ body?' r'.slot = none := by
  have hrel := hs.body hr
  generalize body? r.slot = o, body?' r'.slot = o' at hrel
  cases hrel with
  | none => simp
  | some _ => simp

theorem exists_body (hs : C.Simulation body? body?') (hr : C.rule r r')
    (hb : body? r.slot = some b) : ∃ b', body?' r'.slot = some b' ∧ C.grammar b b' := by
  have hrel := hs.body hr
  rw [hb] at hrel
  generalize body?' r'.slot = o' at hrel
  cases hrel with
  | some hg => exact ⟨_, rfl, hg⟩

theorem symm (hs : C.Simulation body? body?') : C.symm.Simulation body?' body? where
  layer h := (hs.layer h).symm
  body {r r'} h := by
    have hrel := hs.body h
    generalize body? r'.slot = o, body?' r.slot = o' at hrel ⊢
    cases hrel with
    | none => exact .none
    | some hg => exact .some hg
  undefined h hnone := (hs.undefined h ((hs.body_none h).2 hnone)).symm
  entering o h := hs.entering o h

end Simulation
end Pairing

open Pairing (Simulation)

/-- What `q` comes to is what `p` comes to, but for what the second side may have for itself. -/
theorem Plan.Within.performs {p q : Plan β} (hw : p.Within C.symm body?' q)
    {o : Except Rule (Answer (Value α))} {o' : Except Rule (Answer (Value β))} {log log' : Log}
    (h : Performs body?' q o' log') (ho : C.Results o o') (hl : C.Logs log log') :
    ∃ o₁ log₁, Performs body?' p o₁ log₁ ∧ C.Results o o₁ ∧ C.Logs log log₁ := by
  induction hw with
  | refl => exact ⟨o', log', h, ho, hl⟩
  | @call g c next q hnext _ ih =>
    obtain ⟨o₁, log₁, hp, ho₁, hl₁⟩ := ih h
    cases ho₁ with
    | aborted => exact ⟨_, log₁, .stop hp, .aborted, hl₁⟩
    | @answer x x' hx =>
      obtain ⟨y, hy, hkeeps⟩ := hnext x'
      have hdone : Performs body?' (next x') (.ok y) .empty := by
        rw [hy]
        exact .done
      refine ⟨_, _, .step hp hdone, .answer (hkeeps x hx.symm).symm, ?_⟩
      rw [Log.append_empty]
      exact hl₁
  | enter hb hrec _ ih =>
    obtain ⟨o₁, log₁, hp, ho₁, hl₁⟩ := ih h
    refine ⟨o₁, _, .enter hb hp, ho₁, ?_⟩
    rw [Pairing.Logs, Log.toList_append]
    exact .second hrec hl₁

/-- By induction on how the first plan is carried out. The steps that it takes for itself are passed
over; the others the second plan takes as well. -/
theorem Performs.beside (hs : C.Simulation body? body?') {p : Plan α}
    {o : Except Rule (Answer (Value α))} {log : Log} (h : Performs body? p o log) {q : Plan α}
    {q' : Plan β} (hw : p.Within C body? q) (hq : q.Beside C q') :
    ∃ o' log', Performs body?' q' o' log' ∧ C.Results o o' ∧ C.Logs log log' := by
  induction h generalizing q q' with
  | done =>
    cases hw with
    | refl =>
      cases hq with
      | done hx => exact ⟨_, _, .done, .answer hx, .empty⟩
  | undefined hb =>
    cases hw with
    | refl =>
      cases hq with
      | enter hr =>
        obtain rfl := hs.undefined hr hb
        exact ⟨_, _, .undefined ((hs.body_none hr).1 hb), .aborted, .empty⟩
    | enter hb' _ _ =>
      rw [hb] at hb'
      cases hb'
  | @enter r c b o log hb _ ih =>
    cases hw with
    | refl =>
      cases hq with
      | enter hr =>
        obtain ⟨b', hb', hg⟩ := hs.exists_body hr hb
        obtain ⟨q₁, q₁', hw₁, hw₁', hq₁⟩ := hs.layer hg c
        obtain ⟨o', log', hp, ho, hl⟩ := ih hw₁ hq₁
        obtain ⟨o₁, log₁, hp₁, ho₁, hl₁⟩ := hw₁'.performs hp ho hl
        have hrec := hs.entering c.offset hr
        exact ⟨o₁, _, .enter hb' hp₁, ho₁, .append (.both hrec .nil) hl₁⟩
    | enter hb' hrec hw' =>
      rw [hb] at hb'
      cases hb'
      obtain ⟨o', log', hp, ho, hl⟩ := ih hw' hq
      refine ⟨o', log', hp, ho, ?_⟩
      rw [Pairing.Logs, Log.toList_append]
      exact .first hrec hl
  | stop _ ih =>
    cases hw with
    | refl =>
      cases hq with
      | call hg _ =>
        obtain ⟨q₁, q₁', hw₁, hw₁', hq₁⟩ := hs.layer hg _
        obtain ⟨o', log', hp, ho, hl⟩ := ih hw₁ hq₁
        obtain ⟨o₁, log₁, hp₁, ho₁, hl₁⟩ := hw₁'.performs hp ho hl
        cases ho₁ with
        | aborted => exact ⟨_, log₁, .stop hp₁, .aborted, hl₁⟩
    | call _ hw' =>
      obtain ⟨o', log', hp, ho, hl⟩ := ih hw' hq
      cases ho with
      | aborted => exact ⟨_, log', hp, .aborted, hl⟩
  | step _ h' ih ih' =>
    cases hw with
    | refl =>
      cases hq with
      | call hg hnext =>
        obtain ⟨q₁, q₁', hw₁, hw₁', hq₁⟩ := hs.layer hg _
        obtain ⟨o', log', hp, ho, hl⟩ := ih hw₁ hq₁
        obtain ⟨o₁, log₁, hp₁, ho₁, hl₁⟩ := hw₁'.performs hp ho hl
        cases ho₁ with
        | answer hx =>
          obtain ⟨o₂, log₂, hp₂, ho₂, hl₂⟩ := ih' .refl (hnext _ _ hx)
          exact ⟨o₂, _, .step hp₁ hp₂, ho₂, hl₁.append hl₂⟩
    | call hnext hw' =>
      -- what follows the call is only a change of its answer
      obtain ⟨y, hy, hkeeps⟩ := hnext _
      rw [hy] at h'
      cases h'
      obtain ⟨o', log', hp, ho, hl⟩ := ih hw' hq
      cases ho with
      | answer hx =>
        refine ⟨_, log', hp, .answer (hkeeps _ hx), ?_⟩
        rw [Log.append_empty]
        exact hl

namespace Pairing
namespace Simulation

/-- A run on the one side has a run on the other. -/
theorem exists_runs (hs : C.Simulation body? body?') (hg : C.grammar g g')
    {r : Run Unit (Answer (Value α))} (hr : Grammar.Runs (.ofBodies body?) g c () r) :
    ∃ r', Grammar.Runs (.ofBodies body?') g' c () r' ∧ C.Runs r r' := by
  obtain ⟨q, q', hw, hw', hq⟩ := hs.layer hg c
  obtain ⟨o', log', hp, ho, hl⟩ := (runs_iff_performs.1 hr).beside hs hw hq
  obtain ⟨o₁, log₁, hp₁, ho₁, hl₁⟩ := hw'.performs hp ho hl
  exact ⟨⟨o₁, log₁, ()⟩, runs_iff_performs.2 hp₁, ho₁, hl₁⟩

theorem runs (hs : C.Simulation body? body?') (hg : C.grammar g g') (c : Cursor) :
    ((∃ r, Grammar.Runs (.ofBodies body?) g c () r) ↔
      ∃ r', Grammar.Runs (.ofBodies body?') g' c () r') ∧
    ∀ r r', Grammar.Runs (.ofBodies body?) g c () r → Grammar.Runs (.ofBodies body?') g' c () r' →
      C.Runs r r' := by
  refine ⟨⟨?_, ?_⟩, fun r r' hr hr' => ?_⟩
  · rintro ⟨r, hr⟩
    obtain ⟨r', hr', -⟩ := hs.exists_runs hg hr
    exact ⟨r', hr'⟩
  · rintro ⟨r', hr'⟩
    obtain ⟨r, hr, -⟩ := hs.symm.exists_runs hg hr'
    exact ⟨r, hr⟩
  · obtain ⟨r'', hr'', hc⟩ := hs.exists_runs hg hr
    obtain rfl := hr'.unique (Foreign.monotone_of_isEmpty _) hr''
    exact hc

end Simulation
end Pairing
end Grammar
end Peg
