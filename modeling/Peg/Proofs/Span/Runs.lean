import Peg.Proofs.Grammar.Throughout
import Peg.Proofs.Semantics.Adequacy
import Peg.Proofs.Span.Exact
import Peg.Proofs.Value.Spans

/-!
# Peg.Proofs.Span.Runs

The spans in the value of a parse.

* `InventsNoSpan g`: what `g` itself does with values makes no span that was not there before. This
  is so of what words and skipped white space do (`throughout_word_inventsNoSpan`,
  `throughout_spaceBefore_inventsNoSpan`).
* `Born body? source g s`: the span `s` is the stretch that some `p` read, and `g` uses the span of
  `p`. All spans are born in this way (`Derives.born`).
* `ArmsConsume g`: what a guard reads is not read again by the step of its arm. Then the spans are
  nested in each other and in the stretch that was read (`Derives.laminar`).
* `spans_exact`: the same of what parsers answer.
-/

namespace Peg
namespace Grammar

variable {α : Type} {body? : Nat → Option (Grammar Empty Empty α)} {g : Grammar Empty Empty α}

def InventsNoSpan : Grammar Empty Empty α → Prop
  | .map f _ => ∀ v, (f v).spans ⊆ v.spans
  | .lookahead l => ∀ a ∈ l.arms, ∀ v, (a.transform v).spans ⊆ v.spans
  | _ => True

theorem throughout_word_inventsNoSpan :
    Throughout body? InventsNoSpan (word : Grammar Empty Empty α) :=
  .word (fun v => List.nil_subset v.spans) trivial trivial

theorem throughout_spaceBefore_inventsNoSpan (hg : Throughout body? InventsNoSpan g) :
    Throughout body? InventsNoSpan (spaceBefore g) :=
  hg.spaceBefore Value.spans_second_subset trivial trivial trivial

def ArmsConsume : Grammar Empty Empty α → Prop
  | .lookahead l => ∀ a ∈ l.arms, a.consume = true
  | _ => True

/-! ## Where spans come from -/

def Born (body? : Nat → Option (Grammar Empty Empty α)) (source : String)
    (g : Grammar Empty Empty α) (s : Span) : Prop :=
  ∃ p w cs rest, Uses body? g (.span p) ∧ cs <:+ source.toList ∧
    Derives body? (Span.between source) p cs (.ok w rest) ∧ s = Span.between source cs rest

/-- What has to hold throughout `g`. A list of parts that is left behind others is not used by `g`,
but spans in it are. -/
def SpansOf (body? : Nat → Option (Grammar Empty Empty α)) (g h : Grammar Empty Empty α) : Prop :=
  h.InventsNoSpan ∧ ∀ p, h = .span p → Uses body? g h

/-- The spans in the value of a success satisfy `P`. -/
def Outcome.Spans (P : Span → Prop) : Outcome α → Prop
  | .ok v _ => ∀ s ∈ v.spans, P s
  | .fail _ _ => True

section Spans

variable {P : Span → Prop} {o : Outcome α} {f : Value α → Value α}

theorem Outcome.Spans.none {v : Value α} {rest : List Char} (hv : v.spans = []) :
    (Outcome.ok v rest).Spans P := by
  rw [Spans, hv]
  simp

theorem Outcome.Spans.map (hf : ∀ w, ∀ s ∈ (f w).spans, P s ∨ s ∈ w.spans) (ho : o.Spans P) :
    (o.map f).Spans P := by
  cases o with
  | ok w rest => exact fun s hs => (hf w s hs).elim id (ho s)
  | fail cause rest => trivial

/-- Two values put together. -/
theorem Outcome.Spans.join {v : Value α} {mid : List Char} (hv : (Outcome.ok v mid).Spans P)
    (hf : ∀ w, (f w).spans ⊆ v.spans ++ w.spans) (ho : o.Spans P) : (o.map f).Spans P :=
  ho.map fun w _ hs => (List.mem_append.1 (hf w hs)).imp (hv _) id

theorem Outcome.Spans.cons {v : Value α} {vs : List (Value α)} {mid rest : List Char}
    (hv : (Outcome.ok v mid).Spans P) (hvs : (Outcome.ok (.list vs) rest).Spans P) :
    (Outcome.ok (.list (v :: vs)) rest).Spans P :=
  fun s hs => (List.mem_append.1 hs).elim (hv s) (hvs s)

end Spans

/-- By induction on the derivation. Only a span makes a span. -/
theorem Derives.born {source : String} {k : Grammar Empty Empty α} {cs : List Char} {o : Outcome α}
    (h : Derives body? (Span.between source) k cs o) (hcs : cs <:+ source.toList)
    (hk : Throughout body? (SpansOf body? g) k) : o.Spans (Born body? source g) := by
  induction h with
  | seqCons hg _ ih ih' =>
    exact .cons (ih hcs (hk.child (by simp [children])))
      (ih' (hg.rest_suffix.trans hcs) (hk.seqTail ⟨trivial, by simp⟩))
  | alternativeHit _ ih => exact ih hcs (hk.child (by simp [children]))
  | alternativeNext _ _ _ ih => exact ih hcs (hk.alternativeTail ⟨trivial, by simp⟩)
  | andNext ha _ ih ih' =>
    exact .join (ih hcs (hk.child (by simp [children]))) (fun _ => List.Subset.refl _)
      (ih' (ha.rest_suffix.trans hcs) (hk.child (by simp [children])))
  | orLeft _ ih => exact ih hcs (hk.child (by simp [children]))
  | orRight _ _ _ ih => exact ih hcs (hk.child (by simp [children]))
  | optionalSome _ ih => exact ih hcs (hk.child (by simp [children]))
  | many0More hg _ ih ih' =>
    exact .cons (ih hcs (hk.child (by simp [children]))) (ih' (hg.rest_suffix.trans hcs) hk)
  | many1 hg _ ih ih' =>
    exact .cons (ih hcs (hk.child (by simp [children])))
      (ih' (hg.rest_suffix.trans hcs) (hk.rounds ⟨trivial, by simp⟩))
  | map _ ih =>
    exact (ih hcs (hk.child (by simp [children]))).map fun w _ hs => .inr (hk.here.1 w hs)
  | @span p v cs rest hp ih =>
    intro s hs
    rcases List.mem_append.1 hs with hs | hs
    · exact ih hcs (hk.child (by simp [children])) s hs
    · exact ⟨p, v, cs, rest, hk.here.2 p rfl, hcs, hp, List.mem_singleton.1 hs⟩
  | otherwise _ ih => exact ih hcs (hk.child (by simp [children]))
  | @armStep a arms ow v cs mid o hlook _ ih ih' =>
    have hstart := armStart_suffix a.consume hcs hlook.rest_suffix
    exact .join (ih hcs (hk.child (look_mem_children List.mem_cons_self)))
      (fun w => hk.here.1 a List.mem_cons_self (.guarded v w))
      (ih' hstart (hk.child (step_mem_children List.mem_cons_self)))
  | @armNext a arms ow cause cs rest o _ _ _ ih =>
    exact ih hcs (hk.lookaheadTail ⟨fun b hb => hk.here.1 b (List.mem_cons_of_mem a hb), by simp⟩)
  | rule hb _ ih => exact ih hcs (hk.body hb)
  | single _ | eof | seqNil | optionalNone _ _ | many0Stop _ _ | not _ _ => exact .none rfl
  | _ => trivial

/-! ## How spans lie to each other -/

/-- The spans in the value of a success are nested in the stretch that was read. -/
def Outcome.Laminar (source : String) (cs : List Char) : Outcome α → Prop
  | .ok v rest =>
    Span.Laminar (Cursor.before source cs).offset (Cursor.before source rest).offset v.spans
  | .fail _ _ => True

section Laminar

variable {source : String} {cs mid : List Char} {o : Outcome α} {f : Value α → Value α}

theorem Outcome.Laminar.none {v : Value α} {rest : List Char} (hcs : cs <:+ source.toList)
    (hrest : rest <:+ cs) (hv : v.spans = []) : (Outcome.ok v rest).Laminar source cs := by
  rw [Laminar, hv]
  exact .nil (Span.exact_between hcs hrest).le

theorem Outcome.Laminar.map (hf : ∀ w, (f w).spans ⊆ w.spans) (ho : o.Laminar source cs) :
    (o.map f).Laminar source cs := by
  cases o with
  | ok w rest => exact Span.Laminar.subset ho (hf w)
  | fail cause rest => trivial

theorem Outcome.Laminar.join {v : Value α} (hv : (Outcome.ok v mid).Laminar source cs)
    (hf : ∀ w, (f w).spans ⊆ v.spans ++ w.spans) (ho : o.Laminar source mid) :
    (o.map f).Laminar source cs := by
  cases o with
  | ok w rest => exact (Span.Laminar.append hv ho).subset (hf w)
  | fail cause rest => trivial

theorem Outcome.Laminar.cons {v : Value α} {vs : List (Value α)} {rest : List Char}
    (hv : (Outcome.ok v mid).Laminar source cs)
    (hvs : (Outcome.ok (.list vs) rest).Laminar source mid) :
    (Outcome.ok (.list (v :: vs)) rest).Laminar source cs :=
  Span.Laminar.append hv hvs

end Laminar

/-- By induction on the derivation. What stands one behind the other in a value was read one behind
the other, since no arm goes back. -/
theorem Derives.laminar {source : String} {cs : List Char} {o : Outcome α}
    (h : Derives body? (Span.between source) g cs o) (hcs : cs <:+ source.toList)
    (hg : Throughout body? (fun k => k.InventsNoSpan ∧ k.ArmsConsume) g) :
    o.Laminar source cs := by
  induction h with
  | single _ => exact .none hcs (List.suffix_cons _ _) rfl
  | eof | seqNil | optionalNone _ _ | many0Stop _ _ | not _ _ =>
    exact .none hcs List.suffix_rfl rfl
  | seqCons hg' _ ih ih' =>
    exact .cons (ih hcs (hg.child (by simp [children])))
      (ih' (hg'.rest_suffix.trans hcs) (hg.seqTail ⟨trivial, trivial⟩))
  | alternativeHit _ ih => exact ih hcs (hg.child (by simp [children]))
  | alternativeNext _ _ _ ih => exact ih hcs (hg.alternativeTail ⟨trivial, trivial⟩)
  | andNext ha _ ih ih' =>
    exact .join (ih hcs (hg.child (by simp [children]))) (fun _ => List.Subset.refl _)
      (ih' (ha.rest_suffix.trans hcs) (hg.child (by simp [children])))
  | orLeft _ ih => exact ih hcs (hg.child (by simp [children]))
  | orRight _ _ _ ih => exact ih hcs (hg.child (by simp [children]))
  | optionalSome _ ih => exact ih hcs (hg.child (by simp [children]))
  | many0More hg' _ ih ih' =>
    exact .cons (ih hcs (hg.child (by simp [children]))) (ih' (hg'.rest_suffix.trans hcs) hg)
  | many1 hg' _ ih ih' =>
    exact .cons (ih hcs (hg.child (by simp [children])))
      (ih' (hg'.rest_suffix.trans hcs) (hg.rounds ⟨trivial, trivial⟩))
  | map _ ih => exact (ih hcs (hg.child (by simp [children]))).map hg.here.1
  | span _ ih => exact Span.Laminar.around (ih hcs (hg.child (by simp [children]))) source
  | otherwise _ ih => exact ih hcs (hg.child (by simp [children]))
  | @armStep a arms ow v cs mid o hlook _ ih ih' =>
    have hconsume : a.consume = true := hg.here.2 a List.mem_cons_self
    rw [hconsume, if_pos rfl] at ih'
    exact .join (ih hcs (hg.child (look_mem_children List.mem_cons_self)))
      (fun w => hg.here.1 a List.mem_cons_self (.guarded v w))
      (ih' (hlook.rest_suffix.trans hcs) (hg.child (step_mem_children List.mem_cons_self)))
  | @armNext a arms ow cause cs rest o _ _ _ ih =>
    obtain ⟨hinvents, hconsume⟩ := hg.here
    exact ih hcs (hg.lookaheadTail ⟨fun b hb => hinvents b (List.mem_cons_of_mem a hb),
      fun b hb => hconsume b (List.mem_cons_of_mem a hb)⟩)
  | rule hb _ ih => exact ih hcs (hg.body hb)
  | _ => trivial

/-! ## Answers -/

theorem Born.exact {source : String} {s : Span} (h : Born body? source g s) :
    s.Exact source ∧ ∃ p w, Uses body? g (.span p) ∧
      Answers body? p ⟨source, s.start⟩ (.ok w ⟨source, s.stop⟩) := by
  obtain ⟨p, w, cs, rest, hp, hcs, hd, rfl⟩ := h
  exact ⟨Span.exact_between hcs hd.rest_suffix, p, w, hp, hd.answers hcs⟩

/-- The value of a span holds what was read, and what is left stands behind it. -/
theorem span_covers {p : Grammar Empty Empty α} {c d : Cursor} (hc : c.Valid) {v : Value α}
    (h : Answers body? (.span p) c (.ok v d)) :
    ∃ w, v = .spanned w ⟨c.source, c.offset, d.offset⟩ ∧ Answers body? p c (.ok w d) ∧
      c.remaining = (Span.mk c.source c.offset d.offset).text ++ d.remaining := by
  have hcs := hc.remaining_suffix
  obtain ⟨o, ho, ha⟩ := (answers_iff hc).1 h
  cases ho with
  | spanFail _ => cases ha
  | @span _ w _ rest hp =>
    cases ha
    have hspan : Span.between c.source c.remaining.toList rest =
        ⟨c.source, c.offset, (Cursor.before c.source rest).offset⟩ := by
      rw [Span.between, ← hc.eq_before]
    have hrest : rest <:+ c.remaining.toList := hp.rest_suffix
    have hleft := hc.remaining_before hrest
    obtain ⟨mid, hmid⟩ := hrest
    refine ⟨w, by rw [hspan], (answers_iff hc).2 ⟨_, hp, rfl⟩, ?_⟩
    rw [← hspan, Span.text_between hcs hmid, ← String.toList_inj, String.toList_append, hleft,
      String.toList_ofList, hmid]

theorem spans_exact (hg : Throughout body? InventsNoSpan g) {c d : Cursor} (hc : c.Valid)
    {v : Value α} (h : Answers body? g c (.ok v d)) :
    (∀ s ∈ v.spans, s.Exact c.source ∧ ∃ p w, Uses body? g (.span p) ∧
      Answers body? p ⟨c.source, s.start⟩ (.ok w ⟨c.source, s.stop⟩)) ∧
    (∀ p, g = .span p → ∃ w, v = .spanned w ⟨c.source, c.offset, d.offset⟩ ∧
      Answers body? p c (.ok w d) ∧
      c.remaining = (Span.mk c.source c.offset d.offset).text ++ d.remaining) ∧
    (Throughout body? ArmsConsume g → Span.Laminar c.offset d.offset v.spans) := by
  have hcs := hc.remaining_suffix
  refine ⟨?_, ?_, fun hconsume => ?_⟩
  · obtain ⟨o, ho, ha⟩ := (answers_iff hc).1 h
    cases o with
    | fail cause rest => cases ha
    | ok w rest =>
      cases ha
      have hborn : (Outcome.ok v rest).Spans (Born body? c.source g) :=
        ho.born hcs fun k hu => ⟨hg k hu, fun _ _ => hu⟩
      exact fun s hs => (hborn s hs).exact
  · rintro p rfl
    exact span_covers hc h
  · obtain ⟨o, ho, ha⟩ := (answers_iff hc).1 h
    cases o with
    | fail cause rest => cases ha
    | ok w rest =>
      cases ha
      have hl : (Outcome.ok v rest).Laminar c.source c.remaining.toList :=
        ho.laminar hcs fun k hu => ⟨hg k hu, hconsume k hu⟩
      rw [Outcome.Laminar, ← hc.eq_before] at hl
      exact hl

/-- A letter, or more of the same in parentheses, each with the stretch that it covers. -/
def bracketBody : Nat → Option (Grammar Empty Empty Unit)
  | 0 => some (.span (.lookahead
      ⟨[⟨.char '(', true, .and (.many0 (.rule ⟨"bracket", 0⟩)) (.char ')'), Value.second⟩],
        some (.single CharClass.isAlpha)⟩))
  | _ => none

theorem throughout_bracketBody :
    Throughout bracketBody (fun k => k.InventsNoSpan ∧ k.ArmsConsume) (.rule ⟨"bracket", 0⟩) := by
  refine .of_parts (fun h hp => ?_) fun slot b hb h hp => ?_
  · obtain rfl := part_rule.1 hp
    exact ⟨trivial, trivial⟩
  · unfold bracketBody at hb
    split at hb
    · cases hb
      rw [part_span, part_iff] at hp
      simp only [children, List.flatMap_cons, List.flatMap_nil, List.append_nil,
        Option.toList_some, List.cons_append, List.nil_append, List.mem_cons, List.not_mem_nil,
        or_false, exists_eq_or_imp, exists_eq_left, part_char, part_and, part_many0, part_rule,
        part_single, or_assoc] at hp
      rcases hp with rfl | rfl | rfl | rfl | rfl | rfl | rfl | rfl
      case inr.inl =>
        constructor
        · intro a ha
          obtain rfl := List.mem_singleton.1 ha
          exact Value.spans_second_subset
        · intro a ha
          obtain rfl := List.mem_singleton.1 ha
          rfl
      all_goals exact ⟨trivial, trivial⟩
    · cases hb

theorem spans_exact_bracket :
    (⟨"é (ab)", 2⟩ : Cursor).Valid ∧
      Throughout bracketBody InventsNoSpan (.spaceBefore (.rule ⟨"bracket", 0⟩)) ∧
      ∃ v, Answers bracketBody (.spaceBefore (.rule ⟨"bracket", 0⟩)) ⟨"é (ab)", 2⟩
          (.ok v ⟨"é (ab)", 7⟩) ∧
        v.spans.map (fun s => (s.start, s.stop)) = [(4, 5), (5, 6), (3, 7)] ∧
        (∀ s ∈ v.spans, s.Exact "é (ab)") ∧ Span.Laminar 2 7 v.spans := by
  have hc : (⟨"é (ab)", 2⟩ : Cursor).Valid := by decide
  have hboth : Throughout bracketBody (fun k => k.InventsNoSpan ∧ k.ArmsConsume)
      (.spaceBefore (.rule ⟨"bracket", 0⟩)) :=
    throughout_bracketBody.spaceBefore ⟨Value.spans_second_subset, trivial⟩ ⟨trivial, trivial⟩
      ⟨trivial, trivial⟩ ⟨trivial, trivial⟩
  have hg : Throughout bracketBody InventsNoSpan (.spaceBefore (.rule ⟨"bracket", 0⟩)) :=
    fun k hu => (hboth k hu).1
  have h : Answers bracketBody (.spaceBefore (.rule ⟨"bracket", 0⟩)) ⟨"é (ab)", 2⟩
      (.ok (.spanned (.pair (.list [.spanned (.char 'a') ⟨"é (ab)", 4, 5⟩,
        .spanned (.char 'b') ⟨"é (ab)", 5, 6⟩]) (.char ')')) ⟨"é (ab)", 3, 7⟩) ⟨"é (ab)", 7⟩) :=
    ⟨_, 14, rfl⟩
  obtain ⟨hspans, -, hnested⟩ := spans_exact hg hc h
  exact ⟨hc, hg, _, h, rfl, fun s hs => (hspans s hs).1, hnested fun k hu => (hboth k hu).2⟩

end Grammar
end Peg
