import Peg.Proofs.Grammar.Throughout
import Peg.Proofs.Plan.Matches
import Peg.Proofs.Shift.Basic

/-!
# Peg.Proofs.Shift.Runs

A run sees nothing of what lies in front of its start.

* `Commutes pre g`: it does not matter to `g` itself whether spans are moved behind `pre` before or
  after it transforms a value. It is no condition on grammars without maps and lookaheads; words and
  skipped white space satisfy it (`throughout_word_commutes`, `throughout_spaceBefore_commutes`).
* `simulation_shift`: every layer of a run goes through behind `pre` as it does without `pre`.
* `runs_shift`: so a run from the middle of a text is the run from the start of what is left there,
  moved to that place.
-/

namespace Peg

theorem Value.cons_shift {α : Type} (pre : String) (v w : Value α) :
    (v.shift pre).cons (w.shift pre) = (v.cons w).shift pre := by
  cases w with
  | _ => rfl

namespace Grammar

variable {α : Type} {body? : Nat → Option (Grammar Empty Empty α)} {pre : String}
  {g : Grammar Empty Empty α} {c : Cursor}

def Commutes (pre : String) : Grammar Empty Empty α → Prop
  | .map f _ => ∀ v, f (v.shift pre) = (f v).shift pre
  | .lookahead l => ∀ a ∈ l.arms, ∀ v, a.transform (v.shift pre) = (a.transform v).shift pre
  | _ => True

/-- The same grammar at a cursor and at the shifted one. -/
def shifted (body? : Nat → Option (Grammar Empty Empty α)) (pre : String) : Correspondence α where
  start g c g' c' := Throughout body? (Commutes pre) g ∧ g = g' ∧ c.shift pre = c'
  answer a a' := a.shift pre = a'
  record r r' := r.shift pre = r'

namespace Plan.Matches

variable {next next' : Answer (Value α) → Plan α}

theorem call_shift (hg : Throughout body? (Commutes pre) g)
    (hok : ∀ v d, (next (.ok v d)).Matches (shifted body? pre)
      (next' (.ok (v.shift pre) (d.shift pre))))
    (hfail : ∀ e, (next (.fail e)).Matches (shifted body? pre) (next' (.fail (e.shift pre)))) :
    (Plan.call g c next).Matches (shifted body? pre) (.call g (c.shift pre) next') := by
  refine .call ⟨hg, rfl, rfl⟩ ?_
  rintro a _ rfl
  cases a with
  | ok v d => exact hok v d
  | fail e => exact hfail e

theorem callMap_shift (hg : Throughout body? (Commutes pre) g) {f f' : Value α → Value α}
    (hf : ∀ v, f' (v.shift pre) = (f v).shift pre) :
    (Plan.call g c fun a => .done (a.map f)).Matches (shifted body? pre)
      (.call g (c.shift pre) fun a => .done (a.map f')) := by
  refine .call ⟨hg, rfl, rfl⟩ ?_
  rintro a _ rfl
  exact .done (a.map_shift hf).symm

theorem callLast_shift (hg : Throughout body? (Commutes pre) g) :
    (Plan.call g c .done).Matches (shifted body? pre) (.call g (c.shift pre) .done) :=
  .call ⟨hg, rfl, rfl⟩ fun _ _ => .done

end Plan.Matches

/-- One layer, with one case for each kind of grammar: what a cursor shows and what is done with
values goes through the shift, and the rest is left to the runs that the layer calls for. -/
theorem plan_matches_shift (hg : Throughout body? (Commutes pre) g) (c : Cursor) :
    (plan g c).Matches (shifted body? pre) (plan g (c.shift pre)) := by
  cases g with
  | single test =>
    simp only [plan, Cursor.peek_shift, Cursor.next_shift]
    cases c.peek with
    | none => exact .done rfl
    | some ch =>
      dsimp only
      split
      · exact .done rfl
      · exact .done rfl
  | eof =>
    simp only [plan, Cursor.peek_shift]
    cases c.peek with
    | none => exact .done rfl
    | some ch => exact .done rfl
  | seq gs =>
    cases gs with
    | nil => exact .done rfl
    | cons g gs =>
      refine .call_shift (hg.child List.mem_cons_self) (fun v d => ?_) fun e => .done rfl
      exact .callMap_shift (hg.seqTail trivial) fun w => v.cons_shift pre w
  | alternative gs =>
    cases gs with
    | nil => exact .done rfl
    | cons g gs =>
      exact .call_shift (hg.child List.mem_cons_self) (fun v d => .done rfl) fun e =>
        .callLast_shift (hg.alternativeTail trivial)
  | and a b =>
    refine .call_shift (hg.child (by simp [children])) (fun v d => ?_) fun e => .done rfl
    exact .callMap_shift (hg.child (by simp [children])) fun w => rfl
  | or a b =>
    refine .call_shift (hg.child (by simp [children])) (fun v d => .done rfl) fun e => ?_
    exact .call_shift (hg.child (by simp [children])) (fun v d => .done rfl) fun e => .done rfl
  | optional g =>
    exact .call_shift (hg.child (by simp [children])) (fun v d => .done rfl) fun e => .done rfl
  | many0 g =>
    refine .call_shift (hg.child (by simp [children])) (fun v d => ?_) fun e => .done rfl
    exact .callMap_shift hg fun w => v.cons_shift pre w
  | many1 g =>
    refine .call_shift (hg.child (by simp [children])) (fun v d => ?_) fun e => .done rfl
    exact .callMap_shift (hg.rounds trivial) fun w => v.cons_shift pre w
  | not g =>
    exact .call_shift (hg.child (by simp [children])) (fun v d => .done rfl) fun e => .done rfl
  | map f g => exact .callMap_shift (hg.child (by simp [children])) hg.here
  | span g =>
    exact .call_shift (hg.child (by simp [children])) (fun v d => .done rfl) fun e => .done rfl
  | lookahead l =>
    obtain ⟨arms, ow⟩ := l
    cases arms with
    | nil =>
      cases ow with
      | none => exact .done rfl
      | some g => exact .callLast_shift (hg.child (otherwise_mem_children rfl))
    | cons arm arms =>
      have hlook : Throughout body? (Commutes pre) arm.look :=
        hg.child (look_mem_children List.mem_cons_self)
      refine .call_shift hlook (fun v d => ?_) fun e => ?_
      · have hstep : Throughout body? (Commutes pre) arm.step :=
          hg.child (step_mem_children List.mem_cons_self)
        have hf := hg.here arm List.mem_cons_self
        dsimp only
        split
        · exact .callMap_shift hstep fun w => hf (.guarded v w)
        · exact .callMap_shift hstep fun w => hf (.guarded v w)
      · exact .callLast_shift (hg.lookaheadTail fun b hb => hg.here b (List.mem_cons_of_mem arm hb))
  | rule r => exact .enter ⟨hg, rfl, rfl⟩
  | leaf k => exact k.elim
  | wrap w g => exact w.elim

theorem simulation_shift : (shifted body? pre).Simulation body? body? where
  plan := by
    rintro g _ c _ ⟨hg, rfl, rfl⟩
    exact plan_matches_shift hg c
  body := by
    rintro r c _ ⟨hg, -, rfl⟩
    cases hb : body? r.slot with
    | none => exact .none
    | some b => exact .some ⟨hg.body hb, rfl, rfl⟩
  entering := by
    rintro r c _ ⟨-, -, rfl⟩
    rfl

theorem throughout_word_commutes :
    Throughout body? (Commutes pre) (word : Grammar Empty Empty α) :=
  .word (Value.join_mapSpans (Span.shift pre)) trivial trivial

theorem throughout_spaceBefore_commutes (hg : Throughout body? (Commutes pre) g) :
    Throughout body? (Commutes pre) (spaceBefore g) :=
  .spaceBefore hg (Value.second_mapSpans (Span.shift pre)) trivial trivial trivial

theorem result_eq_shift {o o' : Except Rule (Answer (Value α))}
    (h : (shifted body? pre).Results o o') : o' = o.map (Answer.shift pre) := by
  cases o with
  | ok a =>
    cases o' with
    | ok a' => exact congrArg Except.ok (Eq.symm h)
    | error rule' => exact h.elim
  | error rule =>
    cases o' with
    | ok a' => exact h.elim
    | error rule' => exact congrArg Except.error (Eq.symm h)

theorem log_eq_shift {log log' : Log} (h : (shifted body? pre).Logs log log') :
    log'.toList = log.toList.map (Record.shift pre) := by
  have heq : List.Forall₂ Eq (log.toList.map (Record.shift pre)) log'.toList :=
    List.forall₂_map_left_iff.2 h
  rw [List.forall₂_eq_eq_eq] at heq
  exact heq.symm

/-- Results, also failures and aborts, and records are those of the run from the start of what is
left, moved behind `pre`; the spans in a value still cover the same texts. -/
theorem runs_shift (hg : Throughout body? (Commutes pre) g) {post : String}
    (hc : c.Splits pre post) :
    ((∃ r, Runs (.ofBodies body?) g c () r) ↔
      ∃ r₀, Runs (.ofBodies body?) g (.start post) () r₀) ∧
    ∀ r r₀, Runs (.ofBodies body?) g c () r → Runs (.ofBodies body?) g (.start post) () r₀ →
      r.result = r₀.result.map (Answer.shift pre) ∧
      r.log.toList = r₀.log.toList.map (Record.shift pre) ∧
      ∀ v d, r₀.result = .ok (.ok v d) →
        (v.shift pre).spans.map Span.text = v.spans.map Span.text ∧
        (v.shift pre).spans.map Span.length? = v.spans.map Span.length? := by
  have hstart : (shifted body? pre).start g (.start post) g c := ⟨hg, rfl, hc.eq_shift.symm⟩
  obtain ⟨hends, hruns⟩ := simulation_shift.runs hstart
  refine ⟨hends.symm, fun r r₀ hr hr₀ => ?_⟩
  obtain ⟨hresult, hlog⟩ := hruns r₀ r hr₀ hr
  exact ⟨result_eq_shift hresult, log_eq_shift hlog,
    fun v _ _ => ⟨v.texts_shift pre, v.lengths_shift pre⟩⟩

/-- Words with their stretches, each with white space in front of it. -/
def namesBody : Nat → Option (Grammar Empty Empty Nat)
  | 0 => some (.and (.spaceBefore (.span .word)) (.optional (.rule ⟨"names", 0⟩)))
  | _ => none

theorem throughout_namesBody (pre : String) :
    Throughout namesBody (Commutes pre) (.rule ⟨"names", 0⟩) := by
  refine .of_parts (fun h hp => ?_) fun slot b hb h hp => ?_
  · obtain rfl := part_rule.1 hp
    trivial
  · unfold namesBody at hb
    split at hb
    · cases hb
      simp only [word, part_and, part_spaceBefore, part_span, part_map, part_many1, part_single,
        part_optional, part_rule, or_assoc] at hp
      rcases hp with rfl | rfl | rfl | rfl | rfl | rfl | rfl | rfl | rfl | rfl | rfl
      case inr.inl => exact Value.second_mapSpans (Span.shift pre)
      case inr.inr.inr.inr.inr.inr.inl => exact Value.join_mapSpans (Span.shift pre)
      all_goals trivial
    · cases hb

theorem runs_shift_names :
    (⟨"é a", 2⟩ : Cursor).Splits "é" " a" ∧
      Throughout namesBody (Commutes "é") (.rule ⟨"names", 0⟩) ∧
      ∃ r, Runs (.ofBodies namesBody) (.rule ⟨"names", 0⟩) ⟨"é a", 2⟩ () r ∧
        r.result = .ok (.ok (.pair (.spanned (.text "a") ⟨"é a", 3, 4⟩) .none) ⟨"é a", 4⟩) ∧
        r.log.toList = [.entering "names" 2, .entering "names" 4] := by
  have hc : (⟨"é a", 2⟩ : Cursor).Splits "é" " a" := ⟨by decide, by decide⟩
  have hr₀ : Runs (.ofBodies namesBody) (.rule ⟨"names", 0⟩) (.start " a") ()
      ⟨.ok (.ok (.pair (.spanned (.text "a") ⟨" a", 1, 2⟩) .none) ⟨" a", 2⟩), _, ()⟩ := ⟨12, rfl⟩
  obtain ⟨hends, hruns⟩ := runs_shift (throughout_namesBody "é") hc
  obtain ⟨r, hr⟩ := hends.2 ⟨_, hr₀⟩
  obtain ⟨hresult, hlog, -⟩ := hruns r _ hr hr₀
  exact ⟨hc, throughout_namesBody "é", r, hr, hresult, hlog⟩

end Grammar
end Peg
