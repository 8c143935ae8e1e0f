import Peg.Cursor.Lemmas

/-!
# Peg.Proofs.Cursor.Suffix

Cursors given by the characters that are left.

* `before s rest`: the cursor in `s` in front of the last characters `rest`.

Every valid cursor is of this form (`Valid.eq_before`), and what the operations on it do is said of
`rest` alone. So a statement about lists of characters becomes one about cursors without counting
bytes.
-/

namespace Peg
namespace Cursor

def before (s : String) (rest : List Char) : Cursor :=
  ⟨s, s.utf8ByteSize - (String.ofList rest).utf8ByteSize⟩

variable {s : String} {rest : List Char}

@[simp] theorem source_before : (before s rest).source = s := rfl

theorem splits_before {pre : List Char} (h : pre ++ rest = s.toList) :
    (before s rest).Splits (String.ofList pre) (String.ofList rest) := by
  have hs : s = String.ofList pre ++ String.ofList rest := by
    rw [← String.ofList_append, h, String.ofList_toList]
  refine ⟨hs, ?_⟩
  have hsize := congrArg String.utf8ByteSize hs
  rw [String.utf8ByteSize_append] at hsize
  simp only [before]
  omega

theorem remaining_before (h : rest <:+ s.toList) : (before s rest).remaining.toList = rest := by
  obtain ⟨pre, hp⟩ := h
  rw [(splits_before hp).remaining, String.toList_ofList]

theorem peek_before (h : rest <:+ s.toList) : (before s rest).peek = rest.head? := by
  obtain ⟨pre, hp⟩ := h
  rw [(splits_before hp).peek, String.toList_ofList]

theorem Splits.eq {c d : Cursor} {pre post : String} (h : c.Splits pre post)
    (h' : d.Splits pre post) : c = d := by
  obtain ⟨source, offset⟩ := c
  obtain ⟨source', offset'⟩ := d
  have hs : source = source' := h.1.trans h'.1.symm
  have ho : offset = offset' := h.2.trans h'.2.symm
  rw [hs, ho]

theorem next_before {ch : Char} (h : ch :: rest <:+ s.toList) :
    (before s (ch :: rest)).next = before s rest := by
  obtain ⟨pre, hp⟩ := h
  have hpush : String.ofList (pre ++ [ch]) = (String.ofList pre).push ch := by
    simp
  have hrest : (before s rest).Splits (String.ofList (pre ++ [ch])) (String.ofList rest) :=
    splits_before (by simpa using hp)
  rw [hpush] at hrest
  exact (splits_before hp).next_cons.eq hrest

theorem offset_before_lt {rest' : List Char} (h : rest <:+ s.toList) (h' : rest' <:+ rest)
    (hlt : rest'.length < rest.length) : (before s rest).offset < (before s rest').offset := by
  obtain ⟨pre, hp⟩ := h
  obtain ⟨mid, hm⟩ := h'
  have hsplit := splits_before hp
  have hsplit' : (before s rest').Splits (String.ofList (pre ++ mid)) (String.ofList rest') := by
    apply splits_before
    rw [List.append_assoc, hm, hp]
  rw [hsplit.2, hsplit'.2, String.ofList_append, String.utf8ByteSize_append]
  have hne : mid ≠ [] := by
    rintro rfl
    rw [← hm] at hlt
    simp at hlt
  have hpos : 0 < (String.ofList mid).utf8ByteSize := by
    rw [Nat.pos_iff_ne_zero, Ne, String.utf8ByteSize_eq_zero_iff]
    simpa using hne
  omega

theorem Valid.remaining_suffix {c : Cursor} (h : c.Valid) :
    c.remaining.toList <:+ c.source.toList := by
  obtain ⟨pre, hs⟩ := h.splits
  have happ := congrArg String.toList hs.1
  rw [String.toList_append] at happ
  exact ⟨pre.toList, happ.symm⟩

theorem Valid.remaining_before {c : Cursor} (h : c.Valid) (hr : rest <:+ c.remaining.toList) :
    (before c.source rest).remaining.toList = rest :=
  Cursor.remaining_before (hr.trans h.remaining_suffix)

theorem Valid.eq_before {c : Cursor} (h : c.Valid) : c = before c.source c.remaining.toList := by
  obtain ⟨pre, hs⟩ := h.splits
  have hb : (before c.source c.remaining.toList).Splits (String.ofList pre.toList)
      (String.ofList c.remaining.toList) := by
    apply splits_before
    rw [← String.toList_append, ← hs.1]
  rw [String.ofList_toList, String.ofList_toList] at hb
  exact hs.eq hb

@[simp] theorem before_toList : before s s.toList = start s := by
  simp [before, start]

end Cursor
end Peg
