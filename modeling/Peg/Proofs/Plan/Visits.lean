import Peg.Proofs.Plan.Adequacy
import Peg.Proofs.Semantics.Adequacy

/-!
# Peg.Proofs.Plan.Visits

The runs of other grammars that a run is made of, and what becomes of an abort in one of them.

* `Plan.Calls body? p h d`: carrying out `p` comes to run `h` from `d`.
* `Visits body? g c h d`: running `g` from `c` comes to run `h` from `d`, at any depth.
* `Aborts body? g c r`: the run of `g` from `c` is aborted at the rule `r`.

An abort anywhere on the way is an abort of the whole (`Visits.aborts`), and an abort of the whole
comes from a rule without a body that is met on the way (`Aborts.visits`).
-/

namespace Peg
namespace Grammar

variable {α : Type} {body? : Nat → Option (Grammar Empty Empty α)} {g h : Grammar Empty Empty α}
  {c d : Cursor} {r : Rule} {p : Plan α}

inductive Plan.Calls (body? : Nat → Option (Grammar Empty Empty α)) :
    Plan α → Grammar Empty Empty α → Cursor → Prop
  | first {g : Grammar Empty Empty α} {c : Cursor} {next : Answer (Value α) → Plan α} :
      Calls body? (.call g c next) g c
  | later {g h : Grammar Empty Empty α} {c d : Cursor} {next : Answer (Value α) → Plan α}
      {a : Answer (Value α)} :
      Answers body? g c a → Calls body? (next a) h d → Calls body? (.call g c next) h d
  | rule {r : Rule} {c : Cursor} : Calls body? (.enter r c) (.rule r) c
  | body {r : Rule} {c : Cursor} {b : Grammar Empty Empty α} :
      body? r.slot = some b → Calls body? (.enter r c) b c

inductive Visits (body? : Nat → Option (Grammar Empty Empty α)) :
    Grammar Empty Empty α → Cursor → Grammar Empty Empty α → Cursor → Prop
  | self {g : Grammar Empty Empty α} {c : Cursor} : Visits body? g c g c
  | call {g h k : Grammar Empty Empty α} {c d e : Cursor} :
      (plan g c).Calls body? h d → Visits body? h d k e → Visits body? g c k e

def Aborts (body? : Nat → Option (Grammar Empty Empty α)) (g : Grammar Empty Empty α) (c : Cursor)
    (r : Rule) : Prop :=
  ∃ log, Runs (.ofBodies body?) g c () ⟨.error r, log, ()⟩

theorem answers_iff_performs {a : Answer (Value α)} :
    Answers body? g c a ↔ ∃ log, Performs body? (plan g c) (.ok a) log :=
  exists_congr fun _ => runs_iff_performs

theorem aborts_iff_performs :
    Aborts body? g c r ↔ ∃ log, Performs body? (plan g c) (.error r) log :=
  exists_congr fun _ => runs_iff_performs

/-- A run ends in one way only: it is aborted at one rule, or it has an answer. -/
theorem Aborts.unique {r' : Rule} (hr : Aborts body? g c r) (hr' : Aborts body? g c r') :
    r' = r := by
  obtain ⟨log, hlog⟩ := hr
  obtain ⟨log', hlog'⟩ := hr'
  have he := hlog'.unique (Foreign.monotone_of_isEmpty _) hlog
  injection he with he
  injection he

theorem Aborts.not_answers (hr : Aborts body? g c r) (a : Answer (Value α)) :
    ¬ Answers body? g c a := by
  rintro ⟨log', hlog'⟩
  obtain ⟨log, hlog⟩ := hr
  have he := hlog'.unique (Foreign.monotone_of_isEmpty _) hlog
  injection he with he
  cases he

theorem Plan.Calls.aborts (hc : p.Calls body? h d) (hr : Aborts body? h d r) :
    ∃ log, Performs body? p (.error r) log := by
  obtain ⟨log, hlog⟩ := aborts_iff_performs.1 hr
  induction hc with
  | first => exact ⟨_, .stop hlog⟩
  | later ha _ ih =>
    obtain ⟨log₁, h₁⟩ := answers_iff_performs.1 ha
    obtain ⟨log₂, h₂⟩ := ih hr hlog
    exact ⟨_, .step h₁ h₂⟩
  | rule => exact ⟨_, hlog⟩
  | body hb => exact ⟨_, .enter hb hlog⟩

/-- By induction on the way from the whole down to the part that is aborted. -/
theorem Visits.aborts (hv : Visits body? g c h d) (hr : Aborts body? h d r) :
    Aborts body? g c r := by
  induction hv with
  | self => exact hr
  | call hc _ ih => exact aborts_iff_performs.2 (hc.aborts (ih hr))

/-- An abort begins at a rule without a body; it passes up through the calls that lead there. -/
theorem Performs.calls_undefined {o : Except Rule (Answer (Value α))} {log : Log}
    (hp : Performs body? p o log) (ho : o = .error r) :
    body? r.slot = none ∧ ∃ h d e, p.Calls body? h d ∧ Visits body? h d (.rule r) e := by
  induction hp with
  | done => cases ho
  | @undefined r' c hb =>
    cases ho
    exact ⟨hb, _, _, _, .rule, .self⟩
  | @enter r' c b o log hb _ ih =>
    obtain ⟨hnone, h, d, e, hc, hv⟩ := ih ho
    exact ⟨hnone, b, c, e, .body hb, .call hc hv⟩
  | @stop g c next r' log _ ih =>
    obtain ⟨hnone, h, d, e, hc, hv⟩ := ih ho
    exact ⟨hnone, g, c, e, .first, .call hc hv⟩
  | step ha _ _ ih =>
    obtain ⟨hnone, h, d, e, hc, hv⟩ := ih ho
    exact ⟨hnone, h, d, e, .later (answers_iff_performs.2 ⟨_, ha⟩) hc, hv⟩

theorem Aborts.visits (hr : Aborts body? g c r) :
    body? r.slot = none ∧ ∃ d, Visits body? g c (.rule r) d := by
  obtain ⟨log, hp⟩ := aborts_iff_performs.1 hr
  obtain ⟨hnone, h, d, e, hc, hv⟩ := hp.calls_undefined rfl
  exact ⟨hnone, e, .call hc hv⟩

end Grammar
end Peg
