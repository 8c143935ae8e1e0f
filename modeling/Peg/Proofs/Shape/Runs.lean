import Peg.Proofs.Plan.Alike

/-!
# Peg.Proofs.Shape.Runs

What is done with values never decides how a parse goes on.

* `SameShape g g'`: the two grammars differ at most in the functions of their maps and arms, and in
  where maps and spans are put around parts of them. Their values may hold numbers of two types.
* `Answer.outline`: an answer without its value.
* `runs_sameShape`: runs of such grammars are the same but for the values.
-/

namespace Peg

/-- Where an answer stops, or how it fails. -/
def Answer.outline {β : Type} (a : Answer β) : Answer Unit := a.map fun _ => ()

namespace Grammar

inductive SameShape {α β : Type} : Grammar Empty Empty α → Grammar Empty Empty β → Prop
  | single {test : Option Char → Bool} : SameShape (.single test) (.single test)
  | eof : SameShape .eof .eof
  | seqNil : SameShape (.seq []) (.seq [])
  | seqCons {g : Grammar Empty Empty α} {g' : Grammar Empty Empty β}
      {gs : List (Grammar Empty Empty α)} {gs' : List (Grammar Empty Empty β)} :
      SameShape g g' → SameShape (.seq gs) (.seq gs') →
      SameShape (.seq (g :: gs)) (.seq (g' :: gs'))
  | alternativeNil : SameShape (.alternative []) (.alternative [])
  | alternativeCons {g : Grammar Empty Empty α} {g' : Grammar Empty Empty β}
      {gs : List (Grammar Empty Empty α)} {gs' : List (Grammar Empty Empty β)} :
      SameShape g g' → SameShape (.alternative gs) (.alternative gs') →
      SameShape (.alternative (g :: gs)) (.alternative (g' :: gs'))
  | and {a b : Grammar Empty Empty α} {a' b' : Grammar Empty Empty β} :
      SameShape a a' → SameShape b b' → SameShape (.and a b) (.and a' b')
  | or {a b : Grammar Empty Empty α} {a' b' : Grammar Empty Empty β} :
      SameShape a a' → SameShape b b' → SameShape (.or a b) (.or a' b')
  | optional {g : Grammar Empty Empty α} {g' : Grammar Empty Empty β} :
      SameShape g g' → SameShape (.optional g) (.optional g')
  | many0 {g : Grammar Empty Empty α} {g' : Grammar Empty Empty β} :
      SameShape g g' → SameShape (.many0 g) (.many0 g')
  | many1 {g : Grammar Empty Empty α} {g' : Grammar Empty Empty β} :
      SameShape g g' → SameShape (.many1 g) (.many1 g')
  | not {g : Grammar Empty Empty α} {g' : Grammar Empty Empty β} :
      SameShape g g' → SameShape (.not g) (.not g')
  | rule {r : Rule} : SameShape (.rule r) (.rule r)
  | noArm : SameShape (.lookahead ⟨[], none⟩) (.lookahead ⟨[], none⟩)
  | otherwise {g : Grammar Empty Empty α} {g' : Grammar Empty Empty β} :
      SameShape g g' → SameShape (.lookahead ⟨[], some g⟩) (.lookahead ⟨[], some g'⟩)
  /-- Whether the guard is consumed is the same, and the transforms are of no account. -/
  | arm {look step : Grammar Empty Empty α} {look' step' : Grammar Empty Empty β} {consume : Bool}
      {f : Value α → Value α} {f' : Value β → Value β}
      {arms : List (GuardedArm (Grammar Empty Empty α) (Value α → Value α))}
      {arms' : List (GuardedArm (Grammar Empty Empty β) (Value β → Value β))}
      {ow : Option (Grammar Empty Empty α)} {ow' : Option (Grammar Empty Empty β)} :
      SameShape look look' → SameShape step step' →
      SameShape (.lookahead ⟨arms, ow⟩) (.lookahead ⟨arms', ow'⟩) →
      SameShape (.lookahead ⟨⟨look, consume, step, f⟩ :: arms, ow⟩)
        (.lookahead ⟨⟨look', consume, step', f'⟩ :: arms', ow'⟩)
  | mapLeft {f : Value α → Value α} {g : Grammar Empty Empty α} {g' : Grammar Empty Empty β} :
      SameShape g g' → SameShape (.map f g) g'
  | mapRight {f : Value β → Value β} {g : Grammar Empty Empty α} {g' : Grammar Empty Empty β} :
      SameShape g g' → SameShape g (.map f g')
  | spanLeft {g : Grammar Empty Empty α} {g' : Grammar Empty Empty β} :
      SameShape g g' → SameShape (.span g) g'
  | spanRight {g : Grammar Empty Empty α} {g' : Grammar Empty Empty β} :
      SameShape g g' → SameShape g (.span g')

variable {α β : Type} {body? : Nat → Option (Grammar Empty Empty α)}
  {body?' : Nat → Option (Grammar Empty Empty β)} {g : Grammar Empty Empty α}
  {g' : Grammar Empty Empty β}

/-- The same rules are entered, and of the values nothing is asked. -/
def shapes (α β : Type) : Pairing α β where
  grammar := SameShape
  rule := Eq
  value _ _ := True
  record := Eq
  first _ := False
  second _ := False

theorem shapes_natural : (shapes α β).Natural := by
  constructor <;> intros <;> trivial

/-- By induction on the likeness of the grammars: maps and spans of one side are passed over, one
after the other, until both grammars are of one kind. -/
theorem SameShape.abreast (h : SameShape g g') : (shapes α β).Abreast body? body?' g g' := by
  have hC : (shapes α β).Natural := shapes_natural
  induction h with
  | single => exact .single hC _
  | eof => exact .eof hC
  | seqNil => exact .seqNil hC
  | seqCons hg hgs => exact .seqCons hC hg hgs
  | alternativeNil => exact .alternativeNil
  | alternativeCons hg hgs => exact .alternativeCons hg hgs
  | and ha hb => exact .and hC ha hb
  | or ha hb => exact .or ha hb
  | optional hg => exact .optional hC hg
  | many0 hg => exact .many0 hC hg hg.many0
  | many1 hg => exact .many1 hC hg hg.many0
  | not hg => exact .not hC hg
  | rule => exact .rule rfl
  | noArm => exact .lookaheadNone
  | otherwise hg => exact .lookaheadSome hg
  | arm hlook hstep harms => exact .lookaheadCons hC hlook hstep (fun _ _ _ => trivial) harms
  | mapLeft _ ih => exact .dropMap (fun _ _ _ => trivial) ih
  | mapRight _ ih => exact (Pairing.Abreast.dropMap (fun _ _ _ => trivial) ih.symm).symm
  | spanLeft _ ih => exact .dropSpan (fun _ _ _ _ => trivial) ih
  | spanRight _ ih => exact (Pairing.Abreast.dropSpan (fun _ _ _ _ => trivial) ih.symm).symm

theorem simulation_shapes (hbody : ∀ slot, Option.Rel SameShape (body? slot) (body?' slot)) :
    (shapes α β).Simulation body? body?' where
  layer h := h.abreast
  body := by
    rintro r _ rfl
    exact hbody r.slot
  undefined h _ := h
  entering := by
    rintro r _ o rfl
    rfl

theorem outline_eq_of_results {o : Except Rule (Answer (Value α))}
    {o' : Except Rule (Answer (Value β))} (h : (shapes α β).Results o o') :
    o.map Answer.outline = o'.map Answer.outline := by
  cases h with
  | aborted => rfl
  | answer ha =>
    cases ha with
    | ok _ => rfl
    | fail => rfl

theorem log_eq_of_logs {log log' : Log} (h : (shapes α β).Logs log log') : log = log' := by
  have hr : (shapes α β).Records log.toList log'.toList := h
  have hl : log'.toList = log.toList.filterMap some :=
    hr.eq_filterMap (fun _ _ he => congrArg some he) (fun _ he => False.elim he) fun _ he => he
  rw [List.filterMap_some] at hl
  exact Log.ext hl.symm

theorem runs_sameShape (hg : SameShape g g')
    (hbody : ∀ slot, Option.Rel SameShape (body? slot) (body?' slot)) (c : Cursor) :
    ((∃ r, Runs (.ofBodies body?) g c () r) ↔ ∃ r', Runs (.ofBodies body?') g' c () r') ∧
    ∀ r r', Runs (.ofBodies body?) g c () r → Runs (.ofBodies body?') g' c () r' →
      r.result.map Answer.outline = r'.result.map Answer.outline ∧ r.log = r'.log := by
  obtain ⟨hends, hruns⟩ := (simulation_shapes hbody).runs hg c
  refine ⟨hends, fun r r' hr hr' => ?_⟩
  obtain ⟨hresult, hlog⟩ := hruns r r' hr hr'
  exact ⟨outline_eq_of_results hresult, log_eq_of_logs hlog⟩

/-- A digit, with a sign in front of it that the value does not show. -/
def digitBody : Nat → Option (Grammar Empty Empty Nat)
  | 0 => some (.lookahead
      ⟨[⟨.char '-', true, .single CharClass.isDigit, Value.second⟩],
        some (.map (fun _ => .list []) (.single CharClass.isDigit))⟩)
  | _ => none

/-- The same digits, each with the stretch that it covers. -/
def spanBody : Nat → Option (Grammar Empty Empty Unit)
  | 0 => some (.span (.lookahead
      ⟨[⟨.char '-', true, .span (.single CharClass.isDigit), id⟩],
        some (.single CharClass.isDigit)⟩))
  | _ => none

theorem sameShape_bodies (slot : Nat) :
    Option.Rel SameShape (digitBody slot) (spanBody slot) := by
  cases slot with
  | zero =>
    exact .some (.spanRight (.arm .single (.spanRight .single) (.otherwise (.mapLeft .single))))
  | succ slot => exact .none

/-- The rounds go on although the value of each is empty, and stop where the others stop. -/
theorem runs_sameShape_digits :
    SameShape (.many1 (.map (fun _ => .list []) (.rule ⟨"digit", 0⟩)) : Grammar Empty Empty Nat)
        (.span (.many1 (.rule ⟨"digit", 0⟩)) : Grammar Empty Empty Unit) ∧
      (∀ slot, Option.Rel SameShape (digitBody slot) (spanBody slot)) ∧
      ∃ r', Runs (.ofBodies spanBody) (.span (.many1 (.rule ⟨"digit", 0⟩))) ⟨"é-12.", 2⟩ () r' ∧
        r'.result.map Answer.outline = .ok (.ok () ⟨"é-12.", 5⟩) ∧
        r'.log.toList = [.entering "digit" 2, .entering "digit" 4, .entering "digit" 5] := by
  have hg : SameShape
      (.many1 (.map (fun _ => .list []) (.rule ⟨"digit", 0⟩)) : Grammar Empty Empty Nat)
      (.span (.many1 (.rule ⟨"digit", 0⟩)) : Grammar Empty Empty Unit) :=
    .spanRight (.many1 (.mapLeft .rule))
  have hr : Runs (.ofBodies digitBody) (.many1 (.map (fun _ => .list []) (.rule ⟨"digit", 0⟩)))
      ⟨"é-12.", 2⟩ () ⟨.ok (.ok (.list [.list [], .list []]) ⟨"é-12.", 5⟩), _, ()⟩ := ⟨9, rfl⟩
  obtain ⟨hends, hruns⟩ := runs_sameShape hg sameShape_bodies ⟨"é-12.", 2⟩
  obtain ⟨r', hr'⟩ := hends.1 ⟨_, hr⟩
  obtain ⟨hresult, hlog⟩ := hruns _ r' hr hr'
  exact ⟨hg, sameShape_bodies, r', hr', hresult.symm, hlog ▸ rfl⟩

end Grammar
end Peg
