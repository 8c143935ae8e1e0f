import Peg.Proofs.Plan.Abreast

/-!
# Peg.Proofs.Plan.Alike

Grammars of one kind are abreast if their parts go together.

* `Pairing.Natural`: values made in the same way from values that go together go together.
* `Abreast.seqCons`, `Abreast.or`, `Abreast.lookaheadCons` and so on: one lemma for each kind of
  grammar. What is left of a list of parts counts as a grammar of its own.
* `Abreast.dropMap`, `Abreast.dropSpan`, `Abreast.dropRule`: the steps that the first side may take
  for itself.
-/

namespace Peg
namespace Grammar
namespace Pairing

structure Natural {α β : Type} (C : Pairing α β) : Prop where
  unit : C.value .unit .unit
  char (ch : Char) : C.value (.char ch) (.char ch)
  none : C.value .none .none
  nil : C.value (.list []) (.list [])
  some {v : Value α} {v' : Value β} : C.value v v' → C.value (.some v) (.some v')
  cons {v w : Value α} {v' w' : Value β} :
    C.value v v' → C.value w w' → C.value (v.cons w) (v'.cons w')
  pair {v w : Value α} {v' w' : Value β} :
    C.value v v' → C.value w w' → C.value (.pair v w) (.pair v' w')
  guarded {v w : Value α} {v' w' : Value β} :
    C.value v v' → C.value w w' → C.value (.guarded v w) (.guarded v' w')
  spanned {v : Value α} {v' : Value β} (s : Span) :
    C.value v v' → C.value (.spanned v s) (.spanned v' s)

variable {α β : Type} {body? : Nat → Option (Grammar Empty Empty α)}
  {body?' : Nat → Option (Grammar Empty Empty β)} {C : Pairing α β}
  {g a b : Grammar Empty Empty α} {g' a' b' : Grammar Empty Empty β} {c : Cursor}

section Calls

variable {next : Answer (Value α) → Plan α} {next' : Answer (Value β) → Plan β}

theorem beside_call (hg : C.grammar g g')
    (hok : ∀ v v' d, C.value v v' → (next (.ok v d)).Beside C (next' (.ok v' d)))
    (hfail : ∀ e, (next (.fail e)).Beside C (next' (.fail e))) :
    (Plan.call g c next).Beside C (.call g' c next') := by
  refine .call hg fun x x' hx => ?_
  cases hx with
  | ok hv => exact hok _ _ _ hv
  | fail => exact hfail _

theorem beside_callMap (hg : C.grammar g g') {f : Value α → Value α} {f' : Value β → Value β}
    (hf : ∀ v v', C.value v v' → C.value (f v) (f' v')) :
    (Plan.call g c fun x => .done (x.map f)).Beside C
      (.call g' c fun x => .done (x.map f')) :=
  beside_call hg (fun v v' _ hv => .done (.ok (hf v v' hv))) fun _ => .done .fail

theorem beside_callLast (hg : C.grammar g g') :
    (Plan.call g c .done).Beside C (.call g' c .done) :=
  .call hg fun _ _ => .done

end Calls

theorem Abreast.of_beside (h : ∀ c, (plan g c).Beside C (plan g' c)) :
    C.Abreast body? body?' g g' :=
  fun c => ⟨_, _, .refl, .refl, h c⟩

theorem Abreast.rule {r r' : Rule} (h : C.rule r r') :
    C.Abreast body? body?' (.rule r) (.rule r') :=
  .of_beside fun _ => .enter h

/-! ## Steps of the first side alone -/

theorem Abreast.dropMap {f : Value α → Value α} (hf : ∀ v v', C.value v v' → C.value (f v) v')
    (h : C.Abreast body? body?' g g') : C.Abreast body? body?' (.map f g) g' := by
  intro c
  obtain ⟨q, q', hq, hq', hb⟩ := h c
  refine ⟨q, q', .call (fun x => ⟨x.map f, rfl, fun x' hx => ?_⟩) hq, hq', hb⟩
  cases hx with
  | ok hv => exact .ok (hf _ _ hv)
  | fail => exact .fail

theorem Abreast.dropSpan (hf : ∀ v v' s, C.value v v' → C.value (.spanned v s) v')
    (h : C.Abreast body? body?' g g') : C.Abreast body? body?' (.span g) g' := by
  intro c
  obtain ⟨q, q', hq, hq', hb⟩ := h c
  refine ⟨q, q', .call (fun x => ?_) hq, hq', hb⟩
  cases x with
  | ok v d =>
    refine ⟨_, rfl, fun x' hx => ?_⟩
    cases hx with
    | ok hv => exact .ok (hf _ _ _ hv)
  | fail e => exact ⟨_, rfl, fun _ hx => hx⟩

theorem Abreast.dropRule {r : Rule} (hb : body? r.slot = some b)
    (hrec : ∀ o, C.first (.entering r.name o)) (h : C.Abreast body? body?' b g') :
    C.Abreast body? body?' (.rule r) g' := by
  intro c
  obtain ⟨q, q', hq, hq', hbeside⟩ := h c
  exact ⟨q, q', .enter hb (hrec c.offset) hq, hq', hbeside⟩

/-! ## Grammars of the same kind -/

namespace Abreast

variable {gs : List (Grammar Empty Empty α)} {gs' : List (Grammar Empty Empty β)}

theorem single (hC : C.Natural) (test : Option Char → Bool) :
    C.Abreast body? body?' (.single test) (.single test) := by
  refine .of_beside fun c => ?_
  simp only [plan]
  cases c.peek with
  | none => exact .done .fail
  | some ch =>
    dsimp only
    split
    · exact .done (.ok (hC.char ch))
    · exact .done .fail

theorem eof (hC : C.Natural) : C.Abreast body? body?' .eof .eof := by
  refine .of_beside fun c => ?_
  simp only [plan]
  split
  · exact .done (.ok hC.unit)
  · exact .done .fail

theorem seqNil (hC : C.Natural) : C.Abreast body? body?' (.seq []) (.seq []) :=
  .of_beside fun _ => .done (.ok hC.nil)

theorem seqCons (hC : C.Natural) (hg : C.grammar g g') (hgs : C.grammar (.seq gs) (.seq gs')) :
    C.Abreast body? body?' (.seq (g :: gs)) (.seq (g' :: gs')) :=
  .of_beside fun _ => beside_call hg
    (fun _ _ _ hv => beside_callMap hgs fun _ _ => hC.cons hv) fun _ => .done .fail

theorem alternativeNil : C.Abreast body? body?' (.alternative []) (.alternative []) :=
  .of_beside fun _ => .done .fail

theorem alternativeCons (hg : C.grammar g g')
    (hgs : C.grammar (.alternative gs) (.alternative gs')) :
    C.Abreast body? body?' (.alternative (g :: gs)) (.alternative (g' :: gs')) :=
  .of_beside fun _ => beside_call hg (fun _ _ _ hv => .done (.ok hv)) fun _ => beside_callLast hgs

theorem and (hC : C.Natural) (ha : C.grammar a a') (hb : C.grammar b b') :
    C.Abreast body? body?' (.and a b) (.and a' b') :=
  .of_beside fun _ => beside_call ha
    (fun _ _ _ hv => beside_callMap hb fun _ _ => hC.pair hv) fun _ => .done .fail

theorem or (ha : C.grammar a a') (hb : C.grammar b b') :
    C.Abreast body? body?' (.or a b) (.or a' b') :=
  .of_beside fun _ => beside_call ha (fun _ _ _ hv => .done (.ok hv)) fun _ =>
    beside_call hb (fun _ _ _ hv => .done (.ok hv)) fun _ => .done .fail

theorem optional (hC : C.Natural) (hg : C.grammar g g') :
    C.Abreast body? body?' (.optional g) (.optional g') :=
  .of_beside fun _ => beside_call hg (fun _ _ _ hv => .done (.ok (hC.some hv))) fun _ =>
    .done (.ok hC.none)

theorem many0 (hC : C.Natural) (hg : C.grammar g g') (hgs : C.grammar (.many0 g) (.many0 g')) :
    C.Abreast body? body?' (.many0 g) (.many0 g') :=
  .of_beside fun _ => beside_call hg
    (fun _ _ _ hv => beside_callMap hgs fun _ _ => hC.cons hv) fun _ => .done (.ok hC.nil)

/-- Behind the first round the rounds go on without a least number. -/
theorem many1 (hC : C.Natural) (hg : C.grammar g g') (hgs : C.grammar (.many0 g) (.many0 g')) :
    C.Abreast body? body?' (.many1 g) (.many1 g') :=
  .of_beside fun _ => beside_call hg
    (fun _ _ _ hv => beside_callMap hgs fun _ _ => hC.cons hv) fun _ => .done .fail

theorem not (hC : C.Natural) (hg : C.grammar g g') :
    C.Abreast body? body?' (.not g) (.not g') :=
  .of_beside fun _ => beside_call hg (fun _ _ _ _ => .done .fail) fun _ => .done (.ok hC.unit)

theorem map (hg : C.grammar g g') {f : Value α → Value α} {f' : Value β → Value β}
    (hf : ∀ v v', C.value v v' → C.value (f v) (f' v')) :
    C.Abreast body? body?' (.map f g) (.map f' g') :=
  .of_beside fun _ => beside_callMap hg hf

theorem span (hC : C.Natural) (hg : C.grammar g g') :
    C.Abreast body? body?' (.span g) (.span g') :=
  .of_beside fun _ => beside_call hg (fun _ _ _ hv => .done (.ok (hC.spanned _ hv))) fun _ =>
    .done .fail

theorem lookaheadNone :
    C.Abreast body? body?' (.lookahead ⟨[], Option.none⟩) (.lookahead ⟨[], Option.none⟩) :=
  .of_beside fun _ => .done .fail

theorem lookaheadSome (hg : C.grammar g g') :
    C.Abreast body? body?' (.lookahead ⟨[], Option.some g⟩) (.lookahead ⟨[], Option.some g'⟩) :=
  .of_beside fun _ => beside_callLast hg

/-- The step of an arm starts at the same place on both sides, behind or in front of the guard. -/
theorem lookaheadCons (hC : C.Natural) {look step : Grammar Empty Empty α}
    {look' step' : Grammar Empty Empty β} {consume : Bool} {f : Value α → Value α}
    {f' : Value β → Value β} {arms : List (GuardedArm (Grammar Empty Empty α) (Value α → Value α))}
    {arms' : List (GuardedArm (Grammar Empty Empty β) (Value β → Value β))}
    {ow : Option (Grammar Empty Empty α)} {ow' : Option (Grammar Empty Empty β)}
    (hlook : C.grammar look look') (hstep : C.grammar step step')
    (hf : ∀ v v', C.value v v' → C.value (f v) (f' v'))
    (harms : C.grammar (.lookahead ⟨arms, ow⟩) (.lookahead ⟨arms', ow'⟩)) :
    C.Abreast body? body?' (.lookahead ⟨⟨look, consume, step, f⟩ :: arms, ow⟩)
      (.lookahead ⟨⟨look', consume, step', f'⟩ :: arms', ow'⟩) :=
  .of_beside fun _ => beside_call hlook
    (fun _ _ _ hv => beside_callMap hstep fun _ _ hw => hf _ _ (hC.guarded hv hw)) fun _ =>
    beside_callLast harms

end Abreast
end Pairing
end Grammar
end Peg
