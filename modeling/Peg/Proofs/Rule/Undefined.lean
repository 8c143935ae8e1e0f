import Peg.Proofs.Plan.Visits

/-!
# Peg.Proofs.Rule.Undefined

Rules without a body.

* `Performs.of_extended`: a table with more bodies changes no run that has come to an answer.
* `undefined_never_absorbed`: an abort in any part is an abort of the whole at the same rule; it is
  met only at rules in use that have no body; and giving bodies to such rules leaves the parses that
  did not need them as they are.
-/

namespace Peg
namespace Grammar

variable {α : Type} {body? : Nat → Option (Grammar Empty Empty α)}

theorem Performs.of_extended {body?' : Nat → Option (Grammar Empty Empty α)}
    (hext : ∀ slot b, body? slot = some b → body?' slot = some b) {p : Plan α}
    {o : Except Rule (Answer (Value α))} {log : Log} (h : Performs body? p o log)
    {a : Answer (Value α)} (ho : o = .ok a) : Performs body?' p o log := by
  induction h generalizing a with
  | done => exact .done
  | undefined _ => cases ho
  | enter hb _ ih => exact .enter (hext _ _ hb) (ih ho)
  | stop _ _ => cases ho
  | step _ _ ih ih' => exact .step (ih rfl) (ih' ho)

theorem undefined_never_absorbed (body? : Nat → Option (Grammar Empty Empty α))
    (g : Grammar Empty Empty α) {c : Cursor} (hc : c.Valid) :
    (∀ h d r, Visits body? g c h d → Aborts body? h d r →
      Aborts body? g c r ∧ (∀ a, ¬ Answers body? g c a) ∧ ∀ r', Aborts body? g c r' → r' = r) ∧
    (∀ r, Aborts body? g c r →
      body? r.slot = none ∧ Uses body? g (.rule r) ∧ ∃ d, Visits body? g c (.rule r) d) ∧
    (Closed body? g → ∀ r, ¬ Aborts body? g c r) ∧
    (∀ body?', (∀ slot b, body? slot = some b → body?' slot = some b) → ∀ a log,
      Runs (.ofBodies body?) g c () ⟨.ok a, log, ()⟩ →
      Runs (.ofBodies body?') g c () ⟨.ok a, log, ()⟩) := by
  have hused : ∀ r, Aborts body? g c r → Uses body? g (.rule r) ∧ body? r.slot = none := by
    rintro r ⟨log, hlog⟩
    exact undefined_of_aborted hc hlog rfl
  refine ⟨fun h d r hv hr => ?_, fun r hr => ?_, fun hg r hr => ?_, fun body?' hext a log h => ?_⟩
  · have hwhole := hv.aborts hr
    exact ⟨hwhole, hwhole.not_answers, fun r' hr' => hwhole.unique hr'⟩
  · obtain ⟨hnone, hvisits⟩ := hr.visits
    exact ⟨hnone, (hused r hr).1, hvisits⟩
  · obtain ⟨hu, hnone⟩ := hused r hr
    have hsome := hg r hu
    rw [hnone] at hsome
    cases hsome
  · exact runs_iff_performs.2 ((runs_iff_performs.1 h).of_extended hext rfl)

/-- A choice that asks for a rule only where its first part has failed. -/
def wanting : Grammar Empty Empty Nat :=
  .optional (.or (.char 'x') (.not (.rule ⟨"missing", 0⟩)))

/-- Neither the negation, nor the choice, nor the option recovers from the abort behind `é`; and in
front of an `x` the rule is not asked for, so that no body of it matters. -/
theorem undefined_never_absorbed_wanting :
    (⟨"éx", 0⟩ : Cursor).Valid ∧ (⟨"éx", 2⟩ : Cursor).Valid ∧
      Aborts (fun _ => none) wanting ⟨"éx", 0⟩ ⟨"missing", 0⟩ ∧
      ∀ body? : Nat → Option (Grammar Empty Empty Nat), Runs (.ofBodies body?) wanting ⟨"éx", 2⟩ ()
        ⟨.ok (.ok (.some (.char 'x')) ⟨"éx", 3⟩), .empty, ()⟩ := by
  have hc : (⟨"éx", 0⟩ : Cursor).Valid := by decide
  have hc' : (⟨"éx", 2⟩ : Cursor).Valid := by decide
  have hmissing : Aborts (fun _ => none) (.rule ⟨"missing", 0⟩ : Grammar Empty Empty Nat)
      ⟨"éx", 0⟩ ⟨"missing", 0⟩ := ⟨.empty, 1, rfl⟩
  have hvisits : Visits (fun _ => none) wanting ⟨"éx", 0⟩ (.rule ⟨"missing", 0⟩) ⟨"éx", 0⟩ := by
    have hfirst : Answers (fun _ => none) (.char 'x' : Grammar Empty Empty Nat) ⟨"éx", 0⟩
        (.fail (.ofCursor .predicate ⟨"éx", 0⟩)) := ⟨.empty, 1, rfl⟩
    exact .call .first (.call (.later hfirst .first) (.call .first .self))
  have hrun : Runs (.ofBodies fun _ => none) wanting ⟨"éx", 2⟩ ()
      ⟨.ok (.ok (.some (.char 'x')) ⟨"éx", 3⟩), .empty, ()⟩ := ⟨3, rfl⟩
  obtain ⟨habort, -⟩ := undefined_never_absorbed (fun _ => none) wanting hc
  obtain ⟨-, -, -, hextend⟩ := undefined_never_absorbed (fun _ => none) wanting hc'
  exact ⟨hc, hc', (habort _ _ _ hvisits hmissing).1, fun body? => hextend body? nofun _ _ hrun⟩

end Grammar
end Peg
