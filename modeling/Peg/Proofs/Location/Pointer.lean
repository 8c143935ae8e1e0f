import Peg.Proofs.Location.Window

/-!
# Peg.Proofs.Location.Pointer

Where the tip of the pointer stands, in characters.

The pointer is indented by as many characters as the marked line has bytes in front of the location.

* `surplus cs`: how many bytes more than characters `cs` has.
* `PointsAt marked pointer rest`: the tip stands under the first character of `rest`.
* `pointsAt_iff`: it stands under the location exactly if all characters of the line in front of
  it have one byte, and else it stands to the right of it by their surplus.
* `not_pointsAt_accent`: a single accent moves it.
-/

namespace Peg
namespace Location

def column (pointer : String) : Nat := pointer.toList.idxOf '^'

/-- The tip of the pointer stands under the first character of `rest`, with which the marked line
ends, or behind the line if `rest` is empty. -/
def PointsAt (marked pointer : String) (rest : List Char) : Prop :=
  ∃ lead, marked.toList = lead ++ rest ∧ column pointer = lead.length

def surplus (cs : List Char) : Nat := (cs.map fun c => c.utf8Size - 1).sum

theorem byteSize_eq (cs : List Char) : byteSize cs = cs.length + surplus cs := by
  induction cs with
  | nil => rfl
  | cons c cs ih =>
    have hpos := c.utf8Size_pos
    have hcons : surplus (c :: cs) = c.utf8Size - 1 + surplus cs := rfl
    rw [byteSize_cons, List.length_cons, hcons, ih]
    omega

theorem surplus_eq_zero_iff {cs : List Char} : surplus cs = 0 ↔ ∀ c ∈ cs, c.utf8Size = 1 := by
  simp only [surplus, List.sum_eq_zero_iff_forall_eq_nat, List.forall_mem_map]
  refine forall₂_congr fun c _ => ?_
  have hpos := c.utf8Size_pos
  omega

theorem surplus_margin (marked : Bool) (m : Nat) : surplus (margin marked m).toList = 0 := by
  rw [surplus_eq_zero_iff, toList_margin]
  intro c hc
  rw [List.mem_append, List.mem_append] at hc
  rcases hc with hc | hc | hc
  · cases marked with
    | true =>
      have hmark : c = ' ' ∨ c = '>' ∨ c = ' ' := by simpa using hc
      rcases hmark with rfl | rfl | rfl
      all_goals rfl
    | false =>
      obtain rfl : c = ' ' := by simpa using hc
      rfl
  · have hdigit := Nat.isDigit_of_mem_toDigits (by decide) (by decide) hc
    rw [Char.isDigit_iff_toNat] at hdigit
    rw [Char.utf8Size_eq_one_iff, UInt32.le_iff_toNat_le]
    exact Nat.le_trans hdigit.2 (by decide)
  · have hbar : c = ' ' ∨ c = '|' ∨ c = ' ' := by simpa using hc
    rcases hbar with rfl | rfl | rfl
    all_goals rfl

theorem column_of_isPointer {t : String} (h : isPointer t = true) : column t = leadingSpaces t := by
  have hsplit := List.takeWhile_append_dropWhile (p := (· == ' ')) (l := t.toList)
  rw [beq_iff_eq.1 h] at hsplit
  have htip : '^' ∉ t.toList.takeWhile (· == ' ') := by
    intro hmem
    have hspace := List.all_eq_true.1 List.all_takeWhile '^' hmem
    exact absurd hspace (by decide)
  rw [column, ← hsplit, List.idxOf_append_of_notMem htip]
  rfl

/-- The pointer has as many bytes in front of it as the marked line has in front of the location. -/
theorem column_eq {lead : List Char} {pointer : String} {line indent : Nat}
    (hpointer : isPointer pointer = true) (hspaces : leadingSpaces pointer = indent)
    (hindent : indent = (margin true line).utf8ByteSize + byteSize lead) :
    column pointer = (margin true line).length + lead.length + surplus lead := by
  have hmargin := byteSize_eq (margin true line).toList
  rw [byteSize_toList, surplus_margin, String.length_toList] at hmargin
  have hlead := byteSize_eq lead
  rw [column_of_isPointer hpointer]
  omega

theorem pointsAt_append_iff {front pointer : String} {lead rest : List Char} :
    PointsAt (front ++ String.ofList lead ++ String.ofList rest) pointer rest ↔
      column pointer = front.length + lead.length := by
  have hlist : (front ++ String.ofList lead ++ String.ofList rest).toList =
      front.toList ++ lead ++ rest := by simp
  rw [PointsAt, hlist]
  constructor
  · rintro ⟨ahead, happ, hcolumn⟩
    rw [hcolumn, ← List.append_cancel_right happ, List.length_append, String.length_toList]
  · intro hcolumn
    refine ⟨front.toList ++ lead, rfl, ?_⟩
    rw [hcolumn, List.length_append, String.length_toList]

theorem pointsAt_iff {loc : Location} {pre post : String} (htext : loc.text = pre ++ post)
    (hoffset : loc.offset = pre.utf8ByteSize) {lines : List String}
    (h : loc.contextLines = .ok lines) :
    ∃ lead marked pointer, lines.filter isMarked = [marked] ∧ lines.filter isPointer = [pointer] ∧
      marked = margin true loc.lineOffset.line ++ String.ofList lead ++
        String.ofList (restOfLine post.toList) ∧
      column pointer + (restOfLine post.toList).length = marked.length + surplus lead ∧
      (PointsAt marked pointer (restOfLine post.toList) ↔ ∀ c ∈ lead, c.utf8Size = 1) := by
  have hwindow := window_of_contextLines h
  obtain ⟨_, pointer, _, -, hpointer, hspaces⟩ := hwindow.pointed
  have htip : isPointer pointer = true := by
    have hmem : pointer ∈ lines.filter isPointer := hpointer ▸ List.mem_singleton_self pointer
    exact (List.mem_filter.1 hmem).2
  obtain ⟨lead, hmarked, hsize⟩ := exists_lead htext hoffset
  have hcolumn : column pointer =
      (margin true loc.lineOffset.line).length + lead.length + surplus lead :=
    column_eq htip hspaces (by rw [hsize, indent])
  refine ⟨lead, _, pointer, hwindow.marked, hpointer, hmarked, ?_, ?_⟩
  · rw [hmarked, hcolumn]
    simp only [String.length_append, String.length_ofList]
    omega
  · rw [hmarked, pointsAt_append_iff, hcolumn, ← surplus_eq_zero_iff]
    omega

/-- The line above has an accent, but the line of the location has none. -/
theorem pointsAt_iff_second_line :
    contextLines ⟨"ñ\nab", 4⟩ = .ok ["    1 | ñ", "  > 2 | ab", "         ^--- here"] ∧
      PointsAt "  > 2 | ab" "         ^--- here" ['b'] := by
  have h : contextLines ⟨"ñ\nab", 4⟩ =
      .ok ["    1 | ñ", "  > 2 | ab", "         ^--- here"] := rfl
  obtain ⟨lead, marked, pointer, hmarked, hpointer, -, hsum, hiff⟩ :=
    @pointsAt_iff ⟨"ñ\nab", 4⟩ "ñ\na" "b" rfl rfl _ h
  obtain rfl : "  > 2 | ab" = marked := (List.cons.inj hmarked).1
  obtain rfl : "         ^--- here" = pointer := (List.cons.inj hpointer).1
  have hzero : surplus lead = 0 := by
    change 9 + 1 = 10 + surplus lead at hsum
    omega
  exact ⟨h, hiff.2 (surplus_eq_zero_iff.1 hzero)⟩

theorem not_pointsAt_accent :
    contextLines ⟨"é!", 2⟩ = .ok ["  > 1 | é!", "          ^--- here"] ∧
      ¬ PointsAt "  > 1 | é!" "          ^--- here" ['!'] := by
  refine ⟨rfl, ?_⟩
  rintro ⟨lead, hlead, hcolumn⟩
  have hlength := congrArg List.length hlead
  rw [List.length_append, ← hcolumn] at hlength
  exact absurd hlength (by decide)

end Location
end Peg
