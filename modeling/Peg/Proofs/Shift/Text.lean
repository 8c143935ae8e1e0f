import Peg.Text

/-!
# Peg.Proofs.Shift.Text

A text with other text in front of it.

* `isBoundary_shift`, `charAt?_shift`, `slice?_shift`: at an offset of `s`, counted from the end of
  `pre`, the text `pre ++ s` looks as `s` does.

This holds for all offsets, also for those that are no boundaries. What lies at the seam of the two
texts is decided by `append_eq_append_of_le`.
-/

namespace Peg.Text

theorem append_eq_append_of_le {pre s a b : String} (h : pre ++ s = a ++ b)
    (hle : pre.utf8ByteSize ≤ a.utf8ByteSize) : ∃ m, a = pre ++ m ∧ s = m ++ b := by
  have hl : pre.toList ++ s.toList = a.toList ++ b.toList := by
    rw [← String.toList_append, h, String.toList_append]
  rcases List.append_eq_append_iff.1 hl with ⟨m, ha, hs⟩ | ⟨m, hp, hb⟩
  · refine ⟨String.ofList m, ?_, ?_⟩
    · rw [← String.toList_inj, ha, String.toList_append, String.toList_ofList]
    · rw [← String.toList_inj, hs, String.toList_append, String.toList_ofList]
  · have hpre : pre = a ++ String.ofList m := by
      rw [← String.toList_inj, hp, String.toList_append, String.toList_ofList]
    have hm : String.ofList m = "" := by
      rw [hpre, String.utf8ByteSize_append] at hle
      exact String.utf8ByteSize_eq_zero_iff.1 (by omega)
    rw [hm, String.append_empty] at hpre
    subst hpre
    exact ⟨"", String.append_empty.symm, by
      rw [String.empty_append]
      exact (String.append_right_inj pre).1 h⟩

variable (pre s : String)

theorem isBoundary_shift (o : Nat) :
    isBoundary (pre ++ s) (pre.utf8ByteSize + o) = isBoundary s o := by
  rw [Bool.eq_iff_iff, isBoundary_iff, isBoundary_iff]
  constructor
  · rintro ⟨a, b, h, ho⟩
    obtain ⟨m, rfl, hs⟩ := append_eq_append_of_le h (by omega)
    rw [String.utf8ByteSize_append] at ho
    exact ⟨m, b, hs, by omega⟩
  · rintro ⟨a, b, rfl, rfl⟩
    exact ⟨pre ++ a, b, String.append_assoc.symm, String.utf8ByteSize_append.symm⟩

theorem charAt?_eq_none {s : String} {o : Nat} (h : isBoundary s o = false) :
    charAt? s o = none := by
  have hb : boundary? s o = none := by
    rw [← Option.not_isSome_iff_eq_none, boundary?_isSome, h]
    exact Bool.false_ne_true
  rw [charAt?, hb, Option.bind_none]

theorem charAt?_shift (o : Nat) : charAt? (pre ++ s) (pre.utf8ByteSize + o) = charAt? s o := by
  cases h : isBoundary s o with
  | false => rw [charAt?_eq_none h, charAt?_eq_none ((isBoundary_shift pre s o).trans h)]
  | true =>
    obtain ⟨a, b, rfl, rfl⟩ := isBoundary_iff.1 h
    rw [← String.append_assoc, ← String.utf8ByteSize_append, charAt?_append, charAt?_append]

theorem slice?_shift (a b : Nat) :
    slice? (pre ++ s) (pre.utf8ByteSize + a) (pre.utf8ByteSize + b) = slice? s a b := by
  ext t
  rw [slice?_eq_some_iff, slice?_eq_some_iff]
  constructor
  · rintro ⟨x, y, h, ha, hb⟩
    rw [String.append_assoc] at h
    obtain ⟨m, rfl, hs⟩ := append_eq_append_of_le h (by omega)
    simp only [String.utf8ByteSize_append] at ha hb ⊢
    exact ⟨m, y, by rw [hs, String.append_assoc], by omega, by omega⟩
  · rintro ⟨x, y, rfl, rfl, rfl⟩
    refine ⟨pre ++ x, y, ?_, ?_, ?_⟩
    · simp only [String.append_assoc]
    · rw [String.utf8ByteSize_append]
    · simp only [String.utf8ByteSize_append, Nat.add_assoc]

end Peg.Text
