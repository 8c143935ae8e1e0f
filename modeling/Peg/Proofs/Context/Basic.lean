import Peg.Proofs.Grammar.Throughout
import Peg.Proofs.Plan.Alike

/-!
# Peg.Proofs.Context.Basic

Grammars with holes.

* `Context α`: a grammar in which some places are left open.
* `plug h k`: the context `k` with `h` in every hole; `plugged h ctx?`: the same for all rules.
  Every grammar is what some context comes to (`plug_plug_hole`).
* `fillings`: contexts with one filling on one side and with another one on the other side.
* `fillings_abreast`: they are abreast if the two fillings are.
-/

namespace Peg
namespace Grammar

/-- A hole stands where a parser from outside the library could stand. -/
abbrev Context (α : Type) : Type := Grammar Unit Empty α

variable {κ ω ι α : Type}

/-- The grammar `h` in place of every parser from outside the library. -/
def plug (h : Grammar κ ω α) : Grammar ι Empty α → Grammar κ ω α
  | single test => single test
  | eof => eof
  | seq gs => seq (gs.map fun g => plug h g)
  | alternative gs => alternative (gs.map fun g => plug h g)
  | and a b => and (plug h a) (plug h b)
  | or a b => or (plug h a) (plug h b)
  | optional g => optional (plug h g)
  | many0 g => many0 (plug h g)
  | many1 g => many1 (plug h g)
  | not g => not (plug h g)
  | map f g => map f (plug h g)
  | span g => span (plug h g)
  | lookahead ⟨arms, none⟩ => lookahead
      ⟨arms.map fun a => ⟨plug h a.look, a.consume, plug h a.step, a.transform⟩, none⟩
  | lookahead ⟨arms, some g⟩ => lookahead
      ⟨arms.map fun a => ⟨plug h a.look, a.consume, plug h a.step, a.transform⟩, some (plug h g)⟩
  | rule r => rule r
  | leaf _ => h
termination_by g => sizeOf g
decreasing_by
  all_goals
    apply sizeOf_lt_of_mem_children
    first
    | assumption
    | exact look_mem_children ‹_›
    | exact step_mem_children ‹_›
    | simp [children]

def hole : Context α := leaf ()

@[simp] theorem plug_hole (h : Grammar κ ω α) : plug h hole = h := by
  simp only [hole, plug]

/-- A grammar of the library's parsers alone is a context without holes. -/
theorem plug_plug_hole (h g : Grammar Empty Empty α) : plug h (plug hole g : Context α) = g := by
  induction g using Grammar.induct with
  | step g ih =>
    have hlist : ∀ gs : List (Grammar Empty Empty α), (∀ k ∈ gs, k ∈ g.children) →
        gs.map (fun k => plug h (plug hole k : Context α)) = gs := fun gs hgs =>
      (List.map_congr_left fun k hk => ih k (hgs k hk)).trans (List.map_id gs)
    cases g with
    | seq gs => simp [plug, Function.comp_def, hlist gs fun _ hk => hk]
    | alternative gs => simp [plug, Function.comp_def, hlist gs fun _ hk => hk]
    | lookahead l =>
      obtain ⟨arms, ow⟩ := l
      have harms : arms.map (fun a => (⟨plug h (plug hole a.look : Context α), a.consume,
          plug h (plug hole a.step : Context α), a.transform⟩ :
            GuardedArm (Grammar Empty Empty α) (Value α → Value α))) = arms := by
        refine (List.map_congr_left fun a ha => ?_).trans (List.map_id arms)
        rw [ih _ (look_mem_children ha), ih _ (step_mem_children ha)]
        rfl
      cases ow with
      | none => simp [plug, Function.comp_def, harms]
      | some g => simp [plug, Function.comp_def, harms, ih g (otherwise_mem_children rfl)]
    | leaf k => exact k.elim
    | wrap w g => exact w.elim
    | _ => simp_all [plug, children]

@[simp] theorem part_hole {k : Context α} : Part hole k ↔ k = hole := by
  rw [part_iff]
  simp [hole, children]

/-- A table of rules whose bodies have holes, with `h` in all of them. -/
def plugged (h : Grammar κ ω α) (ctx? : Nat → Option (Context α)) :
    Nat → Option (Grammar κ ω α) :=
  fun slot => (ctx? slot).map (plug h)

theorem plugged_eq_some {h : Grammar κ ω α} {ctx? : Nat → Option (Context α)} {slot : Nat}
    {k : Context α} (hk : ctx? slot = some k) : plugged h ctx? slot = some (plug h k) :=
  congrArg (Option.map (plug h)) hk

/-- The same contexts on both sides, which satisfy `P` throughout, with fillings that go together. -/
def fillings (ctx? : Nat → Option (Context α)) (P : Context α → Prop)
    (fill : Grammar Empty Empty α → Grammar Empty Empty α → Prop) (rule : Rule → Rule → Prop)
    (record : Record → Record → Prop) (first : Record → Prop) : Pairing α α where
  grammar g g' := ∃ k h h', Throughout ctx? P k ∧ fill h h' ∧ g = plug h k ∧ g' = plug h' k
  rule := rule
  value := Eq
  record := record
  first := first
  second _ := False

variable {ctx? : Nat → Option (Context α)} {P : Context α → Prop}
  {fill : Grammar Empty Empty α → Grammar Empty Empty α → Prop} {rule : Rule → Rule → Prop}
  {record : Record → Record → Prop} {first : Record → Prop}
  {body? body?' : Nat → Option (Grammar Empty Empty α)}

theorem fillings_natural : (fillings ctx? P fill rule record first).Natural where
  unit := rfl
  char _ := rfl
  none := rfl
  nil := rfl
  some h := h ▸ rfl
  cons h h' := h ▸ h' ▸ rfl
  pair h h' := h ▸ h' ▸ rfl
  guarded h h' := h ▸ h' ▸ rfl
  spanned _ h := h ▸ rfl

theorem eq_of_results_fillings {o o' : Except Rule (Answer (Value α))}
    (h : (fillings ctx? P fill rule record first).Results o o') : o = o' := by
  cases h with
  | aborted => rfl
  | answer ha =>
    cases ha with
    | ok hv => rw [show _ = _ from hv]
    | fail => rfl

/-- By cases on the context; only in a hole itself do the two sides differ. What is left of a list
of parts is a context of its own. -/
theorem fillings_abreast {k : Context α} {h h' : Grammar Empty Empty α}
    (hk : Throughout ctx? P k) (hfill : fill h h')
    (hrule : ∀ r, Throughout ctx? P (.rule r) → rule r r)
    (hhole : (fillings ctx? P fill rule record first).Abreast body? body?' h h')
    (htail : ∀ j : Context α, (∀ r, j ≠ .rule r) → P j) :
    (fillings ctx? P fill rule record first).Abreast body? body?' (plug h k) (plug h' k) := by
  have hC : (fillings ctx? P fill rule record first).Natural := fillings_natural
  have hpart : ∀ j, Throughout ctx? P j →
      (fillings ctx? P fill rule record first).grammar (plug h j) (plug h' j) :=
    fun j hj => ⟨j, h, h', hj, hfill, rfl, rfl⟩
  have hchild : ∀ j ∈ k.children,
      (fillings ctx? P fill rule record first).grammar (plug h j) (plug h' j) :=
    fun j hj => hpart j (hk.child hj)
  cases k with
  | single test =>
    simp only [plug]
    exact .single hC test
  | eof =>
    simp only [plug]
    exact .eof hC
  | seq gs =>
    cases gs with
    | nil =>
      simp only [plug]
      exact .seqNil hC
    | cons g gs =>
      have hgs := hpart _ (hk.seqTail (htail (.seq gs) (by simp)))
      simp only [plug, List.map_cons] at hgs ⊢
      exact .seqCons hC (hchild g (by simp [children])) hgs
  | alternative gs =>
    cases gs with
    | nil =>
      simp only [plug]
      exact .alternativeNil
    | cons g gs =>
      have hgs := hpart _ (hk.alternativeTail (htail (.alternative gs) (by simp)))
      simp only [plug, List.map_cons] at hgs ⊢
      exact .alternativeCons (hchild g (by simp [children])) hgs
  | and a b =>
    simp only [plug]
    exact .and hC (hchild a (by simp [children])) (hchild b (by simp [children]))
  | or a b =>
    simp only [plug]
    exact .or (hchild a (by simp [children])) (hchild b (by simp [children]))
  | optional g =>
    simp only [plug]
    exact .optional hC (hchild g (by simp [children]))
  | many0 g =>
    have hg := hpart _ hk
    simp only [plug] at hg ⊢
    exact .many0 hC (hchild g (by simp [children])) hg
  | many1 g =>
    have hg := hpart _ (hk.rounds (htail (.many0 g) (by simp)))
    simp only [plug] at hg ⊢
    exact .many1 hC (hchild g (by simp [children])) hg
  | not g =>
    simp only [plug]
    exact .not hC (hchild g (by simp [children]))
  | map f g =>
    simp only [plug]
    exact .map (hchild g (by simp [children])) fun v v' hv => congrArg f hv
  | span g =>
    simp only [plug]
    exact .span hC (hchild g (by simp [children]))
  | lookahead l =>
    obtain ⟨arms, ow⟩ := l
    cases arms with
    | nil =>
      cases ow with
      | none =>
        simp only [plug]
        exact .lookaheadNone
      | some g =>
        simp only [plug]
        exact .lookaheadSome (hchild g (otherwise_mem_children rfl))
    | cons arm arms =>
      have hlook := hchild arm.look (look_mem_children List.mem_cons_self)
      have hstep := hchild arm.step (step_mem_children List.mem_cons_self)
      have harms := hpart _ (hk.lookaheadTail (htail (.lookahead ⟨arms, ow⟩) (by simp)))
      cases ow with
      | none =>
        simp only [plug, List.map_cons] at harms ⊢
        exact .lookaheadCons hC hlook hstep (fun v v' hv => congrArg _ hv) harms
      | some g =>
        simp only [plug, List.map_cons] at harms ⊢
        exact .lookaheadCons hC hlook hstep (fun v v' hv => congrArg _ hv) harms
  | rule r =>
    simp only [plug]
    exact .rule (hrule r hk)
  | leaf _ =>
    simp only [plug]
    exact hhole
  | wrap w g => exact w.elim

end Grammar
end Peg
