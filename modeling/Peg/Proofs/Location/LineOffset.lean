import Peg.Proofs.Location.Pieces

/-!
# Peg.Proofs.Location.LineOffset

Line and byte offset as coordinates of a place in a text.

* `lineWalk_eq`: the walk over the characters counts the newlines below the offset, and knows where
  the piece starts on which the offset lies.
* `lineOffset_eq`: so it agrees with the text cut into pieces.
* `lineOffset_faithful`: a place can be computed back from its line and byte offset, which are
  ordered as the places are.
-/

namespace Peg

/-- Reading order: by lines, and on one line by bytes. -/
def LineOffset.Before (p q : LineOffset) : Prop :=
  p.line < q.line ∨ p.line = q.line ∧ p.byteOffset < q.byteOffset

namespace Location

/-- By induction on the characters that are left; the first of them starts at byte `i`. -/
theorem lineWalk_eq (o : Nat) (cs : List Char) (i line start : Nat) :
    lineWalk o cs i line start =
      (line + newlinesBelow (String.ofList cs) (o - i),
        if newlinesBelow (String.ofList cs) (o - i) = 0 then start
        else i + startOf (pieces cs) (newlinesBelow (String.ofList cs) (o - i))) := by
  induction cs generalizing i line start with
  | nil => simp [lineWalk]
  | cons c cs ih =>
    rw [lineWalk]
    by_cases hle : o ≤ i
    · simp [hle, Nat.sub_eq_zero_of_le hle]
    rw [if_neg hle, newlinesBelow_cons c cs (by omega), Nat.sub_sub]
    by_cases hc : c = '\n'
    · subst hc
      have hsize : '\n'.utf8Size = 1 := rfl
      rw [if_pos rfl, if_pos rfl, ih, hsize, pieces_newline, Nat.add_comm 1, startOf_cons_succ,
        if_neg (Nat.succ_ne_zero _), byteSize_nil, Prod.mk.injEq]
      refine ⟨by omega, ?_⟩
      split
      next hz => rw [hz, startOf_zero]
      next => omega
    · rw [if_neg hc, if_neg hc, Nat.zero_add, ih, Prod.mk.injEq]
      refine ⟨rfl, ?_⟩
      split
      next => rfl
      next hk => rw [startOf_pieces_cons hc hk, Nat.add_assoc]

theorem lineWalk_start (s : String) (o : Nat) :
    lineWalk o s.toList 0 1 0 =
      (1 + newlinesBelow s o, startOf (pieces s.toList) (newlinesBelow s o)) := by
  rw [lineWalk_eq, String.ofList_toList, Nat.sub_zero, Prod.mk.injEq]
  refine ⟨rfl, ?_⟩
  split
  next hz => rw [hz, startOf_zero]
  next => rw [Nat.zero_add]

theorem lineOffset_eq (s : String) (o : Nat) :
    lineOffset ⟨s, o⟩ =
      ⟨1 + newlinesBelow s o, o - startOf (pieces s.toList) (newlinesBelow s o)⟩ := by
  rw [lineOffset, lineWalk_start]

theorem line_lineOffset (s : String) (o : Nat) :
    (lineOffset ⟨s, o⟩).line = 1 + newlinesBelow s o := by
  rw [lineOffset_eq]

theorem startOf_le (s : String) (o : Nat) :
    startOf (pieces s.toList) (newlinesBelow s o) ≤ o := by
  obtain ⟨l, -, h, -⟩ := exists_piece s.toList o
  rwa [String.ofList_toList] at h

theorem startOf_add_byteOffset (s : String) (o : Nat) :
    startOf (pieces s.toList) (newlinesBelow s o) + (lineOffset ⟨s, o⟩).byteOffset = o := by
  have hle := startOf_le s o
  rw [lineOffset_eq]
  dsimp only
  omega

theorem lineOffset_before {s : String} {o o' : Nat} (h : o < o') :
    (lineOffset ⟨s, o⟩).Before (lineOffset ⟨s, o'⟩) := by
  have hmono := newlinesBelow_mono s (Nat.le_of_lt h)
  have hplace := startOf_add_byteOffset s o
  have hplace' := startOf_add_byteOffset s o'
  rw [LineOffset.Before, line_lineOffset, line_lineOffset]
  by_cases hline : newlinesBelow s o = newlinesBelow s o'
  · rw [← hline] at hplace'
    exact .inr ⟨by rw [hline], by omega⟩
  · exact .inl (by omega)

theorem lineOffset_faithful (s : String) (o : Nat) :
    (lineOffset ⟨s, o⟩).line = 1 + newlinesBelow s o ∧
      startOf (pieces s.toList) ((lineOffset ⟨s, o⟩).line - 1) + (lineOffset ⟨s, o⟩).byteOffset = o ∧
      (lineWalk o s.toList 0 1 0).2 ≤ o ∧
      (o ≤ s.utf8ByteSize → ∃ l, (pieces s.toList)[(lineOffset ⟨s, o⟩).line - 1]? = some l ∧
        (lineOffset ⟨s, o⟩).byteOffset ≤ byteSize l) ∧
      ∀ o', (lineOffset ⟨s, o⟩ = lineOffset ⟨s, o'⟩ → o = o') ∧
        (o < o' → (lineOffset ⟨s, o⟩).Before (lineOffset ⟨s, o'⟩)) := by
  have hline : (lineOffset ⟨s, o⟩).line - 1 = newlinesBelow s o := by
    rw [line_lineOffset]
    omega
  have hplace := startOf_add_byteOffset s o
  refine ⟨line_lineOffset s o, ?_, ?_, fun hle => ?_, fun o' => ⟨fun heq => ?_, lineOffset_before⟩⟩
  · rw [hline]
    exact hplace
  · rw [lineWalk_start]
    exact startOf_le s o
  · obtain ⟨l, hl, -, hend⟩ := exists_piece s.toList o
    rw [byteSize, String.ofList_toList] at hend
    rw [String.ofList_toList] at hl
    rw [hline]
    have hbound := hend hle
    exact ⟨l, hl, by omega⟩
  · have hplace' := startOf_add_byteOffset s o'
    have hnl : newlinesBelow s o = newlinesBelow s o' := by
      have h := congrArg LineOffset.line heq
      rw [line_lineOffset, line_lineOffset] at h
      omega
    rw [← heq, ← hnl] at hplace'
    omega

/-- The offset lies inside the first character, and is compared with that of the empty last line. -/
theorem lineOffset_faithful_inside :
    lineOffset ⟨"é\n", 1⟩ = ⟨1, 1⟩ ∧ 1 ≤ "é\n".utf8ByteSize ∧
      (∃ l, (pieces "é\n".toList)[0]? = some l ∧ 1 ≤ byteSize l) ∧
      lineOffset ⟨"é\n", 3⟩ = ⟨2, 0⟩ ∧
      (lineOffset ⟨"é\n", 1⟩).Before (lineOffset ⟨"é\n", 3⟩) := by
  obtain ⟨-, -, -, hend, horder⟩ := lineOffset_faithful "é\n" 1
  have hle : 1 ≤ "é\n".utf8ByteSize := by decide
  exact ⟨rfl, hle, hend hle, rfl, (horder 3).2 (by decide)⟩

end Location
end Peg
