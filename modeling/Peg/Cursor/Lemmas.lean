import Peg.Cursor.Basic

/-!
# Peg.Cursor.Lemmas

What the operations on a cursor do, said through `Cursor.Splits`: a cursor is valid exactly when it
divides its source (`valid_iff_splits`), it shows the first character of the part that is left
(`Splits.peek`), and moving on takes that character over to the part behind it (`Splits.next`).
-/

namespace Peg
namespace Cursor

theorem valid_iff_splits {c : Cursor} : c.Valid ↔ ∃ pre post, c.Splits pre post :=
  Text.isBoundary_iff

theorem Splits.valid {c : Cursor} {pre post : String} (h : c.Splits pre post) : c.Valid :=
  valid_iff_splits.2 ⟨pre, post, h⟩

theorem splits_start (s : String) : (start s).Splits "" s := by simp [Splits, start]

theorem valid_start (s : String) : (start s).Valid := (splits_start s).valid

theorem startingAt?_eq_ok_iff {s : String} {o : Nat} {c : Cursor} :
    startingAt? s o = .ok c ↔ c = ⟨s, o⟩ ∧ c.Valid := by
  unfold startingAt? Valid
  constructor
  · intro h
    split at h <;> cases h
    exact ⟨rfl, ‹_›⟩
  · rintro ⟨rfl, h⟩
    simp_all

theorem valid_of_startingAt? {s : String} {o : Nat} {c : Cursor} (h : startingAt? s o = .ok c) :
    c.Valid := (startingAt?_eq_ok_iff.1 h).2

/-! ## What is left -/

namespace Splits

variable {c : Cursor} {pre post : String}

theorem remaining (h : c.Splits pre post) : c.remaining = post := by
  have := Text.slice?_append pre post ""
  rw [String.append_empty] at this
  rw [Cursor.remaining, h.1, h.2, this, Option.getD_some]

theorem peek (h : c.Splits pre post) : c.peek = post.toList.head? := by
  rw [Cursor.peek, h.1, h.2, Text.charAt?_append]

theorem isAtEnd (h : c.Splits pre post) : c.isAtEnd = decide (post = "") := by
  have : (pre ++ post).utf8ByteSize ≤ pre.utf8ByteSize ↔ post = "" := by
    rw [String.utf8ByteSize_append, ← String.utf8ByteSize_eq_zero_iff]
    omega
  rw [Cursor.isAtEnd, h.1, h.2]
  exact decide_eq_decide.2 this

/-- The text left of a cursor determines where it divides the source. -/
theorem unique {pre' post' : String} (h : c.Splits pre post) (h' : c.Splits pre' post') :
    pre = pre' ∧ post = post' := by
  have hr : post = post' := h.remaining.symm.trans h'.remaining
  subst hr
  exact ⟨(String.append_left_inj post).1 (h.1.symm.trans h'.1), rfl⟩

/-- At the end of the input the cursor stays where it is. -/
theorem next_nil (h : c.Splits pre "") : c.next = c := by
  simp [Cursor.next, h.peek]

theorem next_cons {ch : Char} {cs : List Char} (h : c.Splits pre (String.ofList (ch :: cs))) :
    c.next.Splits (pre.push ch) (String.ofList cs) := by
  have hp : c.peek = some ch := by simp [h.peek]
  refine ⟨?_, ?_⟩
  · have hs : c.next.source = c.source := by simp [Cursor.next, hp]
    rw [hs, h.1, ← String.toList_inj]
    simp
  · simp [Cursor.next, hp, h.2, String.utf8ByteSize_push]

end Splits

theorem Valid.splits {c : Cursor} (h : c.Valid) : ∃ pre, c.Splits pre c.remaining := by
  obtain ⟨pre, post, hs⟩ := valid_iff_splits.1 h
  exact ⟨pre, hs.remaining ▸ hs⟩

theorem Valid.offset_le {c : Cursor} (h : c.Valid) : c.offset ≤ c.source.utf8ByteSize :=
  Text.isBoundary_le h

/-! ## Moving on -/

@[simp] theorem source_next (c : Cursor) : c.next.source = c.source := by
  unfold next; split <;> rfl

theorem offset_le_next (c : Cursor) : c.offset ≤ c.next.offset := by
  unfold next; split
  · exact Nat.le_add_right _ _
  · exact Nat.le_refl _

theorem Valid.next {c : Cursor} (h : c.Valid) : c.next.Valid := by
  obtain ⟨pre, hs⟩ := h.splits
  cases hc : c.remaining.toList with
  | nil =>
    rw [String.toList_eq_nil_iff] at hc
    rw [hc] at hs
    rwa [hs.next_nil]
  | cons ch cs =>
    rw [← String.ofList_toList (s := c.remaining), hc] at hs
    exact hs.next_cons.valid

@[simp] theorem source_advance (n : Nat) (c : Cursor) : (advance n c).source = c.source := by
  induction n generalizing c with
  | zero => rfl
  | succ n ih => simp [advance, ih]

theorem Valid.advance {c : Cursor} (h : c.Valid) (n : Nat) : (advance n c).Valid := by
  induction n generalizing c with
  | zero => exact h
  | succ n ih => exact ih h.next

end Cursor
end Peg
