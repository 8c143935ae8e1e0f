import Peg.Proofs.Grammar.Throughout
import Peg.Proofs.Semantics.Adequacy

/-!
# Peg.Proofs.Semantics.Lossless

Values that hold all of the text they were read from.

* `KeepsText g`: what `g` itself does with values leaves their characters as they are, and it reads
  nothing twice. It is no condition on grammars without maps and lookaheads; words satisfy it
  (`throughout_word_keepsText`), and so does a lookahead with consuming arms without transforms.
* `Derives.lossless`: the characters of a value are those between the start and the rest.
* `slice?_eq_chars`: they are the slice of the source between the two cursors.
-/

namespace Peg

theorem Value.chars_join {α : Type} (v : Value α) : v.join.chars = v.chars := by
  rw [join_eq, chars, String.toList_ofList]

namespace Grammar

variable {α : Type} {body? : Nat → Option (Grammar Empty Empty α)} {g : Grammar Empty Empty α}

def KeepsText : Grammar Empty Empty α → Prop
  | .map f _ => ∀ v, (f v).chars = v.chars
  | .lookahead l => ∀ a ∈ l.arms, a.consume = true ∧ ∀ v, (a.transform v).chars = v.chars
  | _ => True

/-- The value of a success holds the text in front of the rest. -/
def Outcome.Lossless (cs : List Char) : Outcome α → Prop
  | .ok v rest => v.chars ++ rest = cs
  | .fail _ _ => True

theorem Outcome.Lossless.map {cs : List Char} {o : Outcome α} {f : Value α → Value α}
    (hf : ∀ v, (f v).chars = v.chars) (ho : o.Lossless cs) : (o.map f).Lossless cs := by
  cases o with
  | ok v rest =>
    have hv : v.chars ++ rest = cs := ho
    rw [← hf v] at hv
    exact hv
  | fail cause rest => trivial

/-- Behind the text of a first value stands the text of a second. -/
theorem Outcome.Lossless.append {cs mid : List Char} {o : Outcome α} {v : Value α}
    {f : Value α → Value α} (hv : v.chars ++ mid = cs)
    (hf : ∀ w, (f w).chars = v.chars ++ w.chars) (ho : o.Lossless mid) :
    (o.map f).Lossless cs := by
  cases o with
  | ok w rest =>
    have hw : w.chars ++ rest = mid := ho
    change (f w).chars ++ rest = cs
    rw [hf, List.append_assoc, hw, hv]
  | fail cause rest => trivial

theorem Outcome.Lossless.cons {cs mid rest : List Char} {v : Value α} {vs : List (Value α)}
    (hv : v.chars ++ mid = cs) (hvs : (Outcome.ok (.list vs) rest).Lossless mid) :
    (Outcome.ok (.list (v :: vs)) rest).Lossless cs := by
  have hw : (Value.list vs).chars ++ rest = mid := hvs
  rw [← hw, ← List.append_assoc] at hv
  exact hv

/-- By induction on the derivation. A lookahead looks at the text again only behind a guard that does
not consume it, and there is none. -/
theorem Derives.lossless {mark : List Char → List Char → Span} {cs : List Char} {o : Outcome α}
    (h : Derives body? mark g cs o) (hg : Throughout body? KeepsText g) : o.Lossless cs := by
  induction h with
  | single _ => rfl
  | eof => rfl
  | seqNil => rfl
  | @seqCons g gs v vs cs mid rest _ _ ih ih' =>
    exact .cons (ih (hg.child (by simp [children]))) (ih' (hg.seqTail trivial))
  | alternativeHit _ ih => exact ih (hg.child (by simp [children]))
  | alternativeNext _ _ _ ih =>
    exact ih (hg.alternativeTail trivial)
  | andNext _ _ ih ih' =>
    have hv := ih (hg.child (by simp [children]))
    exact .append hv (fun _ => rfl) (ih' (hg.child (by simp [children])))
  | orLeft _ ih => exact ih (hg.child (by simp [children]))
  | orRight _ _ _ ih => exact ih (hg.child (by simp [children]))
  | optionalSome _ ih => exact ih (hg.child (by simp [children]))
  | optionalNone _ _ => rfl
  | many0Stop _ _ => rfl
  | many0More _ _ ih ih' => exact .cons (ih (hg.child (by simp [children]))) (ih' hg)
  | many1 _ _ ih ih' =>
    exact .cons (ih (hg.child (by simp [children]))) (ih' (hg.rounds trivial))
  | not _ _ => rfl
  | map _ ih => exact (ih (hg.child (by simp [children]))).map hg.here
  | span _ ih => exact ih (hg.child (by simp [children]))
  | otherwise _ ih => exact ih (hg.child (by simp [children]))
  | @armStep a arms ow v cs mid o _ _ ih ih' =>
    obtain ⟨hconsume, hf⟩ := hg.here a List.mem_cons_self
    have hv := ih (hg.child (look_mem_children List.mem_cons_self))
    have hstep := ih' (hg.child (step_mem_children List.mem_cons_self))
    rw [hconsume, if_pos rfl] at hstep
    exact .append hv (fun w => hf (.guarded v w)) hstep
  | @armNext a arms ow cause cs rest o _ _ _ ih =>
    exact ih (hg.lookaheadTail fun b hb => hg.here b (List.mem_cons_of_mem a hb))
  | rule hb _ ih => exact ih (hg.body hb)
  | _ => trivial

/-- A word is the text of its letters. -/
theorem throughout_word_keepsText :
    Throughout body? KeepsText (word : Grammar Empty Empty α) :=
  .word Value.chars_join trivial trivial

/-- Nothing that was read is missing in the value, and nothing is in it twice or in another order. -/
theorem slice?_eq_chars (hg : Throughout body? KeepsText g) {c d : Cursor} (hc : c.Valid)
    {v : Value α} {log : Log} (h : Runs (.ofBodies body?) g c () ⟨.ok (.ok v d), log, ()⟩) :
    d.source = c.source ∧
      Text.slice? c.source c.offset d.offset = some (String.ofList v.chars) := by
  obtain ⟨o, ho, ha⟩ := (answers_iff hc).1 ⟨log, h⟩
  cases o with
  | fail cause rest => cases ha
  | ok w rest =>
    cases ha
    have htext : v.chars ++ rest = c.remaining.toList := ho.lossless hg
    obtain ⟨pre, hs⟩ := hc.splits
    have hsource : c.source = pre ++ String.ofList v.chars ++ String.ofList rest := by
      rw [String.append_assoc, ← String.ofList_append, htext, String.ofList_toList]
      exact hs.1
    have hstop : (Cursor.before c.source rest).Splits
        (String.ofList (pre.toList ++ v.chars)) (String.ofList rest) := by
      apply Cursor.splits_before
      rw [hsource]
      simp
    rw [String.ofList_append, String.ofList_toList] at hstop
    exact ⟨rfl, Text.slice?_eq_some_iff.2 ⟨pre, String.ofList rest, hsource, hs.2, hstop.2⟩⟩

/-- Items in parentheses, or a word with the stretch that it covers. -/
def itemBody : Nat → Option (Grammar Empty Empty Nat)
  | 0 => some (.lookahead
      ⟨[⟨.char '(', true, .and (.many0 (.rule ⟨"item", 0⟩)) (.char ')'), id⟩], some (.span .word)⟩)
  | _ => none

theorem throughout_itemBody : Throughout itemBody KeepsText (.rule ⟨"item", 0⟩) := by
  refine .of_parts (fun h hp => ?_) fun slot b hb h hp => ?_
  · obtain rfl := part_rule.1 hp
    trivial
  · unfold itemBody at hb
    split at hb
    · cases hb
      rw [part_iff] at hp
      simp only [children, word, List.flatMap_cons, List.flatMap_nil, List.append_nil,
        Option.toList_some, List.cons_append, List.nil_append, List.mem_cons, List.not_mem_nil,
        or_false, exists_eq_or_imp, exists_eq_left, part_char, part_and, part_many0, part_rule,
        part_span, part_map, part_many1, part_single, or_assoc] at hp
      rcases hp with rfl | rfl | rfl | rfl | rfl | rfl | rfl | rfl | rfl | rfl
      case inl =>
        intro a ha
        obtain rfl := List.mem_singleton.1 ha
        exact ⟨rfl, fun _ => rfl⟩
      case inr.inr.inr.inr.inr.inr.inr.inl => exact Value.chars_join
      all_goals trivial
    · cases hb

/-- A word in parentheses, in a text that begins before them and goes on behind them. -/
theorem slice?_eq_chars_item :
    (⟨"é(ab)d", 2⟩ : Cursor).Valid ∧ Throughout itemBody KeepsText (.rule ⟨"item", 0⟩) ∧
      ∃ v : Value Nat, Answers itemBody (.rule ⟨"item", 0⟩) ⟨"é(ab)d", 2⟩ (.ok v ⟨"é(ab)d", 6⟩) ∧
        Text.slice? "é(ab)d" 2 6 = some (String.ofList v.chars) := by
  have hc : (⟨"é(ab)d", 2⟩ : Cursor).Valid := by decide
  obtain ⟨log, hr⟩ : Answers itemBody (.rule ⟨"item", 0⟩) ⟨"é(ab)d", 2⟩
      (.ok (.guarded (.char '(') (.pair (.list [.spanned (.text "ab") ⟨"é(ab)d", 3, 5⟩])
        (.char ')'))) ⟨"é(ab)d", 6⟩) := ⟨_, 12, rfl⟩
  obtain ⟨-, hslice⟩ := slice?_eq_chars throughout_itemBody hc hr
  exact ⟨hc, throughout_itemBody, _, ⟨log, hr⟩, hslice⟩

end Grammar
end Peg
