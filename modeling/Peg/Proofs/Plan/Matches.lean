import Mathlib.Data.List.Forall2
import Mathlib.Data.Option.Defs
import Peg.Proofs.Plan.Adequacy

/-!
# Peg.Proofs.Plan.Matches

Two runs side by side.

* `Correspondence`: which starts of a grammar, which answers and which records correspond.
* `Plan.Matches C p p'`: the two plans run corresponding grammars as long as these answer
  correspondingly, and end in corresponding answers.
* `Correspondence.Simulation`: the plans of corresponding starts match, and rules have corresponding
  bodies.
* `Simulation.runs`: then runs from corresponding starts correspond as well: both end or none does,
  with corresponding answers or at the same rule without a body, and with corresponding logs.

Each of the notions can be read in both directions (`symm`), so there is one induction over a run,
`Performs.transfer`.
-/

namespace Peg
namespace Grammar

structure Correspondence (α : Type) where
  /-- A grammar and a cursor on one side, and those on the other. -/
  start : Grammar Empty Empty α → Cursor → Grammar Empty Empty α → Cursor → Prop
  answer : Answer (Value α) → Answer (Value α) → Prop
  record : Record → Record → Prop

variable {α : Type} {body? body?' : Nat → Option (Grammar Empty Empty α)}
  {C : Correspondence α} {g g' : Grammar Empty Empty α} {c c' : Cursor}

namespace Correspondence

def symm (C : Correspondence α) : Correspondence α where
  start g c g' c' := C.start g' c' g c
  answer := flip C.answer
  record := flip C.record

def Results (C : Correspondence α) :
    Except Rule (Answer (Value α)) → Except Rule (Answer (Value α)) → Prop
  | .ok a, .ok a' => C.answer a a'
  | .error r, .error r' => r = r'
  | _, _ => False

def Logs (C : Correspondence α) (log log' : Log) : Prop :=
  List.Forall₂ C.record log.toList log'.toList

def Runs (C : Correspondence α) (r r' : Run Unit (Answer (Value α))) : Prop :=
  C.Results r.result r'.result ∧ C.Logs r.log r'.log

theorem Logs.append {l₁ l₂ l₁' l₂' : Log} (h₁ : C.Logs l₁ l₁') (h₂ : C.Logs l₂ l₂') :
    C.Logs (l₁ ++ l₂) (l₁' ++ l₂') := by
  rw [Logs, Log.toList_append, Log.toList_append]
  exact List.rel_append h₁ h₂

end Correspondence

inductive Plan.Matches (C : Correspondence α) : Plan α → Plan α → Prop
  | done {a a' : Answer (Value α)} : C.answer a a' → Matches C (.done a) (.done a')
  | enter {r : Rule} {c c' : Cursor} :
      C.start (.rule r) c (.rule r) c' → Matches C (.enter r c) (.enter r c')
  | call {g g' : Grammar Empty Empty α} {c c' : Cursor} {next next' : Answer (Value α) → Plan α} :
      C.start g c g' c' → (∀ a a', C.answer a a' → Matches C (next a) (next' a')) →
      Matches C (.call g c next) (.call g' c' next')

theorem Plan.Matches.symm {p p' : Plan α} (h : p.Matches C p') : p'.Matches C.symm p := by
  induction h with
  | done ha => exact .done ha
  | enter hr => exact .enter hr
  | call hg _ ih => exact .call hg fun a a' ha => ih a' a ha

namespace Correspondence

structure Simulation (C : Correspondence α) (body? body?' : Nat → Option (Grammar Empty Empty α)) :
    Prop where
  plan {g g' : Grammar Empty Empty α} {c c' : Cursor} :
    C.start g c g' c' → (plan g c).Matches C (plan g' c')
  body {r : Rule} {c c' : Cursor} : C.start (.rule r) c (.rule r) c' →
    Option.Rel (fun b b' => C.start b c b' c') (body? r.slot) (body?' r.slot)
  entering {r : Rule} {c c' : Cursor} : C.start (.rule r) c (.rule r) c' →
    C.record (.entering r.name c.offset) (.entering r.name c'.offset)

theorem Simulation.symm (hs : C.Simulation body? body?') : C.symm.Simulation body?' body? where
  plan h := (hs.plan h).symm
  body {r} _ _ h := by
    have hrel := hs.body h
    revert hrel
    generalize body? r.slot = o, body?' r.slot = o'
    intro hrel
    cases hrel with
    | none => exact .none
    | some hb => exact .some hb
  entering h := hs.entering h

namespace Simulation

variable {r : Rule} {b : Grammar Empty Empty α}

theorem body_none (hs : C.Simulation body? body?') (hr : C.start (.rule r) c (.rule r) c')
    (hb : body? r.slot = none) : body?' r.slot = none := by
  have hrel := hs.body hr
  rw [hb] at hrel
  cases hb' : body?' r.slot with
  | none => rfl
  | some b' =>
    rw [hb'] at hrel
    cases hrel

theorem exists_body (hs : C.Simulation body? body?') (hr : C.start (.rule r) c (.rule r) c')
    (hb : body? r.slot = some b) : ∃ b', body?' r.slot = some b' ∧ C.start b c b' c' := by
  have hrel := hs.body hr
  rw [hb] at hrel
  cases hb' : body?' r.slot with
  | none =>
    rw [hb'] at hrel
    cases hrel
  | some b' =>
    rw [hb'] at hrel
    cases hrel with
    | some hstart => exact ⟨b', rfl, hstart⟩

end Simulation
end Correspondence

open Correspondence (Simulation)

/-- By induction on how the one plan is carried out; the other one follows it call by call. -/
theorem Performs.transfer (hs : C.Simulation body? body?') {p p' : Plan α} (hm : p.Matches C p')
    {o : Except Rule (Answer (Value α))} {log : Log} (h : Performs body? p o log) :
    ∃ o' log', Performs body?' p' o' log' ∧ C.Results o o' ∧ C.Logs log log' := by
  induction h generalizing p' with
  | done =>
    cases hm with
    | done ha => exact ⟨_, _, .done, ha, .nil⟩
  | undefined hb =>
    cases hm with
    | enter hr => exact ⟨_, _, .undefined (hs.body_none hr hb), rfl, .nil⟩
  | enter hb _ ih =>
    cases hm with
    | enter hr =>
      obtain ⟨b', hb', hstart⟩ := hs.exists_body hr hb
      obtain ⟨o', log', hp, ho, hl⟩ := ih (hs.plan hstart)
      exact ⟨o', _, .enter hb' hp, ho, .append (.cons (hs.entering hr) .nil) hl⟩
  | stop _ ih =>
    cases hm with
    | call hg _ =>
      obtain ⟨o', log', hp, ho, hl⟩ := ih (hs.plan hg)
      cases o' with
      | ok a' => exact ho.elim
      | error r' => exact ⟨_, log', .stop hp, ho, hl⟩
  | step _ _ ih ih' =>
    -- the answers of the two calls correspond, so what follows them goes on matching
    cases hm with
    | call hg hnext =>
      obtain ⟨o₁, log₁, hp₁, ho₁, hl₁⟩ := ih (hs.plan hg)
      cases o₁ with
      | error r' => exact ho₁.elim
      | ok a' =>
        obtain ⟨o₂, log₂, hp₂, ho₂, hl₂⟩ := ih' (hnext _ a' ho₁)
        exact ⟨o₂, _, .step hp₁ hp₂, ho₂, hl₁.append hl₂⟩

namespace Correspondence
namespace Simulation

/-- A run on the one side has a run on the other. -/
theorem exists_runs (hs : C.Simulation body? body?') (h : C.start g c g' c')
    {r : Run Unit (Answer (Value α))} (hr : Grammar.Runs (.ofBodies body?) g c () r) :
    ∃ r', Grammar.Runs (.ofBodies body?') g' c' () r' ∧ C.Runs r r' := by
  obtain ⟨o', log', hp, ho, hl⟩ := (runs_iff_performs.1 hr).transfer hs (hs.plan h)
  exact ⟨⟨o', log', ()⟩, runs_iff_performs.2 hp, ho, hl⟩

theorem runs (hs : C.Simulation body? body?') (h : C.start g c g' c') :
    ((∃ r, Grammar.Runs (.ofBodies body?) g c () r) ↔
      ∃ r', Grammar.Runs (.ofBodies body?') g' c' () r') ∧
    ∀ r r', Grammar.Runs (.ofBodies body?) g c () r → Grammar.Runs (.ofBodies body?') g' c' () r' →
      C.Runs r r' := by
  refine ⟨⟨?_, ?_⟩, fun r r' hr hr' => ?_⟩
  · rintro ⟨r, hr⟩
    obtain ⟨r', hr', -⟩ := hs.exists_runs h hr
    exact ⟨r', hr'⟩
  · rintro ⟨r', hr'⟩
    obtain ⟨r, hr, -⟩ := hs.symm.exists_runs h hr'
    exact ⟨r, hr⟩
  · obtain ⟨r'', hr'', hc⟩ := hs.exists_runs h hr
    obtain rfl := hr'.unique (Foreign.monotone_of_isEmpty _) hr''
    exact hc

end Simulation
end Correspondence
end Grammar
end Peg
