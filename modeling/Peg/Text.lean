/-!
# Peg.Text

Byte offsets into a text, and the pieces of text between them.

* `isBoundary s o`: the offset `o` cuts `s` between two characters, or lies at one of its ends.
* `charAt? s o`: the character that starts at `o`.
* `slice? s a b`: the text between two boundaries `a ≤ b`, and nothing for any other offsets.

An offset is a boundary exactly when the text splits there (`isBoundary_iff`), and a slice is
exactly the middle of a three-way split (`slice?_eq_some_iff`). No other fact about the bytes of a
text is needed further on.
-/

namespace Peg.Text

/-- The offset is the end of the text or the first byte of one of its characters. -/
def isBoundary (s : String) (o : Nat) : Bool :=
  String.Pos.Raw.isValid s ⟨o⟩

/-- The boundary at offset `o`, if there is one. -/
def boundary? (s : String) (o : Nat) : Option s.Pos :=
  if h : String.Pos.Raw.isValid s ⟨o⟩ = true then
    some ⟨⟨o⟩, String.Pos.Raw.isValid_eq_true_iff.1 h⟩
  else
    none

/-- The character that starts at offset `o`; none at the end of the text or inside a character. -/
def charAt? (s : String) (o : Nat) : Option Char :=
  (boundary? s o).bind String.Pos.get?

/-- The text from offset `a` up to offset `b`. -/
def slice? (s : String) (a b : Nat) : Option String :=
  match boundary? s a, boundary? s b with
  | some p, some q => if p ≤ q then some (String.extract p q) else none
  | _, _ => none

theorem isBoundary_iff {s : String} {o : Nat} :
    isBoundary s o = true ↔ ∃ pre post, s = pre ++ post ∧ o = pre.utf8ByteSize := by
  simp only [isBoundary, String.Pos.Raw.isValid_eq_true_iff,
    String.Pos.Raw.isValid_iff_exists_append, String.Pos.Raw.ext_iff, String.byteIdx_rawEndPos]

theorem isBoundary_append (pre post : String) :
    isBoundary (pre ++ post) pre.utf8ByteSize = true :=
  isBoundary_iff.2 ⟨pre, post, rfl, rfl⟩

@[simp] theorem isBoundary_zero (s : String) : isBoundary s 0 = true :=
  isBoundary_iff.2 ⟨"", s, by simp, by simp⟩

@[simp] theorem isBoundary_utf8ByteSize (s : String) : isBoundary s s.utf8ByteSize = true :=
  isBoundary_iff.2 ⟨s, "", by simp, rfl⟩

theorem isBoundary_le {s : String} {o : Nat} (h : isBoundary s o = true) : o ≤ s.utf8ByteSize := by
  obtain ⟨pre, post, rfl, rfl⟩ := isBoundary_iff.1 h
  simp

theorem boundary?_isSome (s : String) (o : Nat) : (boundary? s o).isSome = isBoundary s o := by
  unfold boundary? isBoundary
  split <;> simp_all

theorem byteIdx_of_boundary? {s : String} {o : Nat} {p : s.Pos} (h : boundary? s o = some p) :
    p.offset.byteIdx = o := by
  unfold boundary? at h
  split at h
  · cases h; rfl
  · cases h

theorem splits_iff {s : String} {p : s.Pos} {pre post : String} :
    p.Splits pre post ↔ s = pre ++ post ∧ p.offset.byteIdx = pre.utf8ByteSize := by
  refine ⟨fun h => ⟨h.eq_append, ?_⟩, fun ⟨h₁, h₂⟩ => ⟨h₁, String.Pos.Raw.ext ?_⟩⟩
  · rw [h.offset_eq_rawEndPos, String.byteIdx_rawEndPos]
  · rw [h₂, String.byteIdx_rawEndPos]

/-- Past the text `pre` stands the first character of what follows it. -/
theorem charAt?_append (pre post : String) :
    charAt? (pre ++ post) pre.utf8ByteSize = post.toList.head? := by
  obtain ⟨p, hp⟩ := Option.isSome_iff_exists.1
    ((boundary?_isSome (pre ++ post) pre.utf8ByteSize).trans (isBoundary_append pre post))
  have hs : p.Splits pre post := splits_iff.2 ⟨rfl, byteIdx_of_boundary? hp⟩
  rw [charAt?, hp, Option.bind_some, String.Pos.get?_eq_dif]
  split
  next he =>
    have : post = "" := by
      have h := byteIdx_of_boundary? hp
      rw [he, String.offset_endPos, String.byteIdx_rawEndPos, String.utf8ByteSize_append] at h
      exact String.utf8ByteSize_eq_zero_iff.1 (by omega)
    simp [this]
  next he =>
    obtain ⟨post', h⟩ := hs.exists_eq_singleton_append he
    simp [h]

/-- A slice is the middle of a split of the text whose first two parts have the right lengths. -/
theorem slice?_eq_some_iff {s t : String} {a b : Nat} :
    slice? s a b = some t ↔
      ∃ pre post, s = pre ++ t ++ post ∧ a = pre.utf8ByteSize ∧ b = (pre ++ t).utf8ByteSize := by
  constructor
  · intro h
    unfold slice? at h
    split at h
    next p q hp hq =>
      split at h
      next hle =>
        rw [String.extract_eq_copy_slice p q hle, Option.some.injEq] at h
        obtain ⟨pre, post, h₁, h₂⟩ := String.copy_slice_eq_iff_splits.1 ⟨hle, h⟩
        refine ⟨pre, post, h₂.eq_append, ?_, ?_⟩
        · rw [← byteIdx_of_boundary? hp, (splits_iff.1 h₁).2]
        · rw [← byteIdx_of_boundary? hq, (splits_iff.1 h₂).2]
      next => cases h
    next => cases h
  · rintro ⟨pre, post, rfl, rfl, rfl⟩
    obtain ⟨p, hp⟩ := Option.isSome_iff_exists.1
      ((boundary?_isSome (pre ++ t ++ post) pre.utf8ByteSize).trans
        (by rw [String.append_assoc]; exact isBoundary_append pre (t ++ post)))
    obtain ⟨q, hq⟩ := Option.isSome_iff_exists.1
      ((boundary?_isSome (pre ++ t ++ post) (pre ++ t).utf8ByteSize).trans
        (isBoundary_append (pre ++ t) post))
    have hsp : p.Splits pre (t ++ post) :=
      splits_iff.2 ⟨String.append_assoc, byteIdx_of_boundary? hp⟩
    have hsq : q.Splits (pre ++ t) post := splits_iff.2 ⟨rfl, byteIdx_of_boundary? hq⟩
    obtain ⟨hle, hc⟩ := String.copy_slice_eq_iff_splits.2 ⟨pre, post, hsp, hsq⟩
    rw [slice?, hp, hq]
    simp only [if_pos hle, String.extract_eq_copy_slice p q hle, hc]

theorem slice?_append (pre t post : String) :
    slice? (pre ++ t ++ post) pre.utf8ByteSize (pre ++ t).utf8ByteSize = some t :=
  slice?_eq_some_iff.2 ⟨pre, post, rfl, rfl, rfl⟩

end Peg.Text
