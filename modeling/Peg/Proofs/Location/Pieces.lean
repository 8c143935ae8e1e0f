import Mathlib.Algebra.GroupWithZero.Nat
import Mathlib.Data.Nat.Count
import Peg.Location.Context
import Peg.Proofs.Shift.Text

/-!
# Peg.Proofs.Location.Pieces

The pieces of a text between its newlines, and the byte offsets that lie on them.

* `pieces_eq_splitOn`: a text is cut exactly at its newlines.
* `newlinesBelow s o`: how many characters of `s` that start in front of the byte offset `o` are
  newlines.
* `startOf ls k`: the byte at which piece number `k` starts, counted from 0.
* `exists_piece`: the offset `o` lies on piece number `newlinesBelow s o`, or past the end.
* `exists_piece_append`: an offset between two characters cuts its piece where it cuts the text.
-/

namespace Peg
namespace Location

/-- Number of bytes of a piece of text. -/
def byteSize (cs : List Char) : Nat := (String.ofList cs).utf8ByteSize

@[simp] theorem byteSize_nil : byteSize [] = 0 := rfl

@[simp] theorem byteSize_cons (c : Char) (cs : List Char) :
    byteSize (c :: cs) = c.utf8Size + byteSize cs := by
  rw [byteSize, ← List.singleton_append, String.ofList_append, String.utf8ByteSize_append]
  simp [byteSize]

@[simp] theorem byteSize_toList (s : String) : byteSize s.toList = s.utf8ByteSize := by
  rw [byteSize, String.ofList_toList]

/-! ## Pieces -/

theorem pieces_eq_splitOn (cs : List Char) : pieces cs = cs.splitOn '\n' := by
  induction cs with
  | nil => rfl
  | cons c cs ih =>
    obtain ⟨l, ls, hls⟩ := List.exists_cons_of_ne_nil (List.splitOn_ne_nil '\n' cs)
    rw [hls] at ih
    rw [List.splitOn_cons_eq_if_modifyHead, hls]
    by_cases hc : c = '\n'
    · simp [pieces, hc, ih]
    · simp [pieces, hc, ih]

theorem exists_pieces (cs : List Char) : ∃ l ls, pieces cs = l :: ls := by
  rw [pieces_eq_splitOn]
  exact List.exists_cons_of_ne_nil (List.splitOn_ne_nil '\n' cs)

@[simp] theorem pieces_newline (cs : List Char) : pieces ('\n' :: cs) = [] :: pieces cs := by
  simp [pieces]

theorem pieces_cons {c : Char} {cs l : List Char} {ls : List (List Char)} (hc : c ≠ '\n')
    (h : pieces cs = l :: ls) : pieces (c :: cs) = (c :: l) :: ls := by
  simp [pieces, hc, h]

/-! ## Newlines -/

def newlinesBelow (s : String) (o : Nat) : Nat :=
  Nat.count (fun i => Text.charAt? s i = some '\n') o

@[simp] theorem newlinesBelow_zero (s : String) : newlinesBelow s 0 = 0 := Nat.count_zero _

theorem newlinesBelow_mono (s : String) {o o' : Nat} (h : o ≤ o') :
    newlinesBelow s o ≤ newlinesBelow s o' := Nat.count_monotone _ h

theorem charAt?_empty (i : Nat) : Text.charAt? "" i = none := by
  cases i with
  | zero => rfl
  | succ i =>
    apply Text.charAt?_eq_none
    rw [← Bool.not_eq_true]
    intro h
    have hle := Text.isBoundary_le h
    simp at hle

theorem ofList_cons (c : Char) (cs : List Char) :
    String.ofList (c :: cs) = String.singleton c ++ String.ofList cs := by
  rw [← List.singleton_append, String.ofList_append]
  rfl

/-- No character starts inside another one. -/
theorem charAt?_inside {c : Char} {cs : List Char} {i : Nat} (hpos : 0 < i)
    (hlt : i < c.utf8Size) : Text.charAt? (String.ofList (c :: cs)) i = none := by
  apply Text.charAt?_eq_none
  rw [← Bool.not_eq_true, Text.isBoundary_iff]
  rintro ⟨pre, post, h, rfl⟩
  obtain ⟨cs', rfl⟩ : ∃ cs', pre = String.ofList cs' := ⟨pre.toList, by simp⟩
  cases cs' with
  | nil => simp at hpos
  | cons d ds =>
    have hlist := congrArg String.toList h
    simp only [String.toList_ofList, String.toList_append, List.cons_append,
      List.cons.injEq] at hlist
    obtain ⟨rfl, -⟩ := hlist
    change byteSize (c :: ds) < _ at hlt
    rw [byteSize_cons] at hlt
    omega

@[simp] theorem newlinesBelow_empty (o : Nat) : newlinesBelow "" o = 0 := by
  apply Nat.count_of_forall_not
  simp [charAt?_empty]

/-- The first character counts once the offset lies behind its first byte. -/
theorem newlinesBelow_cons (c : Char) (cs : List Char) {o : Nat} (ho : 0 < o) :
    newlinesBelow (String.ofList (c :: cs)) o =
      (if c = '\n' then 1 else 0) + newlinesBelow (String.ofList cs) (o - c.utf8Size) := by
  have hfirst : ∀ n, n < c.utf8Size →
      newlinesBelow (String.ofList (c :: cs)) (n + 1) = if c = '\n' then 1 else 0 := by
    intro n hn
    have hinside : Nat.count
        (fun i => Text.charAt? (String.ofList (c :: cs)) (i + 1) = some '\n') n = 0 := by
      apply Nat.count_of_forall_not
      intro i hi
      rw [charAt?_inside (Nat.succ_pos i) (by omega)]
      exact nofun
    have hhead : Text.charAt? (String.ofList (c :: cs)) 0 = some c := by
      have h := Text.charAt?_append "" (String.ofList (c :: cs))
      simpa using h
    rw [newlinesBelow, Nat.count_succ', hinside, hhead]
    simp
  have hpos := c.utf8Size_pos
  by_cases hle : o ≤ c.utf8Size
  · obtain ⟨n, rfl⟩ : ∃ n, o = n + 1 := ⟨o - 1, by omega⟩
    rw [hfirst n (by omega), Nat.sub_eq_zero_of_le hle, newlinesBelow_zero, Nat.add_zero]
  · obtain ⟨r, rfl⟩ : ∃ r, o = c.utf8Size + r := ⟨o - c.utf8Size, by omega⟩
    have hwhole := hfirst (c.utf8Size - 1) (by omega)
    rw [Nat.sub_add_cancel hpos] at hwhole
    rw [newlinesBelow, Nat.count_add, ← newlinesBelow, hwhole, Nat.add_sub_cancel_left]
    have hshift := Text.charAt?_shift (String.singleton c) (String.ofList cs)
    rw [String.utf8ByteSize_singleton, ← ofList_cons] at hshift
    simp only [hshift, newlinesBelow]

/-! ## The piece of an offset -/

def startOf (ls : List (List Char)) (k : Nat) : Nat :=
  ((ls.take k).map fun l => byteSize l + 1).sum

@[simp] theorem startOf_zero (ls : List (List Char)) : startOf ls 0 = 0 := rfl

@[simp] theorem startOf_cons_succ (l : List Char) (ls : List (List Char)) (k : Nat) :
    startOf (l :: ls) (k + 1) = byteSize l + 1 + startOf ls k := rfl

/-- A character that is no newline is part of the first piece. -/
theorem piece_cons {c : Char} {cs l : List Char} {k : Nat} (hc : c ≠ '\n')
    (h : (pieces cs)[k]? = some l) :
    (pieces (c :: cs))[k]? = some (if k = 0 then c :: l else l) := by
  obtain ⟨p, ps, hps⟩ := exists_pieces cs
  rw [hps] at h
  rw [pieces_cons hc hps]
  cases k with
  | zero => simpa using h
  | succ k => simpa using h

theorem startOf_pieces_cons {c : Char} {cs : List Char} {k : Nat} (hc : c ≠ '\n') (hk : k ≠ 0) :
    startOf (pieces (c :: cs)) k = c.utf8Size + startOf (pieces cs) k := by
  obtain ⟨p, ps, hps⟩ := exists_pieces cs
  obtain ⟨k, rfl⟩ := Nat.exists_eq_succ_of_ne_zero hk
  simp only [pieces_cons hc hps, hps, startOf_cons_succ, byteSize_cons, Nat.add_assoc]

/-- By induction on the text: a newline makes a piece more, any other character a longer one. -/
theorem exists_piece (cs : List Char) (o : Nat) :
    ∃ l, (pieces cs)[newlinesBelow (String.ofList cs) o]? = some l ∧
      startOf (pieces cs) (newlinesBelow (String.ofList cs) o) ≤ o ∧
      (o ≤ byteSize cs →
        o ≤ startOf (pieces cs) (newlinesBelow (String.ofList cs) o) + byteSize l) := by
  induction cs generalizing o with
  | nil =>
    refine ⟨[], ?_⟩
    simp [pieces]
  | cons c cs ih =>
    by_cases ho : o = 0
    · obtain ⟨l, ls, hls⟩ := exists_pieces (c :: cs)
      subst ho
      exact ⟨l, by simp [hls], by simp, by simp⟩
    have hpos : 0 < o := by omega
    rw [newlinesBelow_cons c cs hpos, byteSize_cons]
    obtain ⟨l, hl, hstart, hend⟩ := ih (o - c.utf8Size)
    by_cases hc : c = '\n'
    · subst hc
      have hsize : '\n'.utf8Size = 1 := rfl
      rw [hsize] at hl hstart hend ⊢
      rw [pieces_newline, if_pos rfl, Nat.add_comm, startOf_cons_succ, byteSize_nil]
      exact ⟨l, by simpa using hl, by omega, by omega⟩
    · have hpiece := piece_cons hc hl
      rw [if_neg hc, Nat.zero_add]
      by_cases hk : newlinesBelow (String.ofList cs) (o - c.utf8Size) = 0
      · rw [hk, startOf_zero] at hend
        rw [hk, if_pos rfl] at hpiece
        rw [hk, startOf_zero]
        refine ⟨c :: l, hpiece, Nat.zero_le o, ?_⟩
        rw [byteSize_cons]
        omega
      · have hlt : c.utf8Size < o := by
          by_contra hge
          exact hk (by rw [Nat.sub_eq_zero_of_le (by omega), newlinesBelow_zero])
        rw [if_neg hk] at hpiece
        rw [startOf_pieces_cons hc hk]
        exact ⟨l, hpiece, by omega, by omega⟩

/-- What is left of a line in front of `cs`. -/
def restOfLine (cs : List Char) : List Char := cs.takeWhile (· ≠ '\n')

theorem head_pieces (cs : List Char) : ∃ ls, pieces cs = restOfLine cs :: ls := by
  induction cs with
  | nil => exact ⟨[], rfl⟩
  | cons c cs ih =>
    obtain ⟨ls, hls⟩ := ih
    by_cases hc : c = '\n'
    · exact ⟨pieces cs, by simp [hc, restOfLine]⟩
    · exact ⟨ls, by simp [pieces_cons hc hls, hc, restOfLine]⟩

/-- By induction on the text in front of the offset. -/
theorem exists_piece_append (pre post : List Char) :
    ∃ lead, (pieces (pre ++ post))[newlinesBelow (String.ofList (pre ++ post)) (byteSize pre)]? =
        some (lead ++ restOfLine post) ∧
      startOf (pieces (pre ++ post))
        (newlinesBelow (String.ofList (pre ++ post)) (byteSize pre)) + byteSize lead =
          byteSize pre := by
  induction pre with
  | nil =>
    obtain ⟨ls, hls⟩ := head_pieces post
    exact ⟨[], by simp [hls], by simp⟩
  | cons c pre ih =>
    obtain ⟨lead, hl, hsize⟩ := ih
    have hpos := c.utf8Size_pos
    rw [List.cons_append, byteSize_cons, newlinesBelow_cons c _ (by omega), Nat.add_sub_cancel_left]
    by_cases hc : c = '\n'
    · subst hc
      have hnl : '\n'.utf8Size = 1 := rfl
      rw [pieces_newline, if_pos rfl, Nat.add_comm 1, startOf_cons_succ, hnl, byteSize_nil]
      exact ⟨lead, by simpa using hl, by omega⟩
    · have hpiece := piece_cons hc hl
      rw [if_neg hc, Nat.zero_add]
      by_cases hk : newlinesBelow (String.ofList (pre ++ post)) (byteSize pre) = 0
      · rw [hk, startOf_zero] at hsize
        rw [hk, if_pos rfl, ← List.cons_append] at hpiece
        rw [hk, startOf_zero]
        refine ⟨c :: lead, hpiece, ?_⟩
        rw [byteSize_cons]
        omega
      · rw [if_neg hk] at hpiece
        rw [startOf_pieces_cons hc hk]
        exact ⟨lead, hpiece, by omega⟩

end Location
end Peg
