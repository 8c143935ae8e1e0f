import Mathlib.Data.List.Basic
import Peg.Proofs.Location.LineOffset

/-!
# Peg.Proofs.Location.Window

What the context of a location shows.

* `shown loc m`: line number `m` of the text, as it stands in the context.
* `Window loc lines`: `lines` are the shown lines from two in front of the location to two behind
  it, with one pointer below the marked line.
* `Writable loc`: there is room for all of these lines.
* `contextLines_window`: if there is, the context is such a window, and else there is no context.
* `contextLines_tooLong`: the room may be too small though the indent is a 64-bit number.
-/

namespace Peg
namespace Location

variable {loc : Location} {m : Nat}

def content (loc : Location) (m : Nat) : String :=
  String.ofList ((pieces loc.text.toList).getD (m - 1) [])

def shown (loc : Location) (m : Nat) : String :=
  margin (decide (m = loc.lineOffset.line)) m ++ loc.content m

/-- How far the pointer is indented. -/
def indent (loc : Location) : Nat :=
  (margin true loc.lineOffset.line).utf8ByteSize + loc.lineOffset.byteOffset

def firstShown (loc : Location) : Nat := max 1 (loc.lineOffset.line - 2)

def lastShown (loc : Location) : Nat :=
  min (pieces loc.text.toList).length (loc.lineOffset.line + 2)

/-- The line carries the mark in front of its number. -/
def isMarked (t : String) : Bool := "  > ".toList.isPrefixOf t.toList

def isPointer (t : String) : Bool := t.toList.dropWhile (· == ' ') == "^--- here".toList

def leadingSpaces (t : String) : Nat := (t.toList.takeWhile (· == ' ')).length

structure Window (loc : Location) (lines : List String) : Prop where
  /-- The pointer aside there is one line for each number of the window, in order. -/
  numbered : lines.filter (fun t => !isPointer t) =
    (List.range' loc.firstShown (loc.lastShown + 1 - loc.firstShown)).map loc.shown
  /-- The line of the location is among them, also behind the last newline. -/
  line_mem : loc.firstShown ≤ loc.lineOffset.line ∧ loc.lineOffset.line ≤ loc.lastShown
  marked : lines.filter isMarked = [loc.shown loc.lineOffset.line]
  pointed : ∃ above pointer below,
    lines = above ++ loc.shown loc.lineOffset.line :: pointer :: below ∧
    lines.filter isPointer = [pointer] ∧ leadingSpaces pointer = loc.indent
  /-- As many bytes into the marked line as the pointer is indented stands the text behind the
  location. -/
  under : ∀ pointer ∈ lines, isPointer pointer = true →
    ∀ pre post, loc.text = pre ++ post → loc.offset = pre.utf8ByteSize →
      Text.slice? (loc.shown loc.lineOffset.line) (leadingSpaces pointer)
          (loc.shown loc.lineOffset.line).utf8ByteSize =
        some (String.ofList (restOfLine post.toList))

/-- A text is doubled when the tip of the pointer is written behind it, so the indent has to be less
than half of the bytes that a text can have. -/
structure Writable (loc : Location) : Prop where
  indent_lt : loc.indent < 2 ^ 62
  shown_lt : ∀ m, loc.firstShown ≤ m → m ≤ loc.lastShown → (loc.shown m).utf8ByteSize < 2 ^ 63

/-! ## Marks and pointers -/

theorem toList_margin (marked : Bool) (m : Nat) :
    (margin marked m).toList =
      (if marked then "  > ".toList else "    ".toList) ++ (Nat.toDigits 10 m ++ " | ".toList) := by
  cases marked with
  | true =>
    simp [margin]
    rfl
  | false =>
    simp [margin]
    rfl

/-- A number starts with a digit, neither a space nor the tip of a pointer. -/
theorem exists_toDigits (m : Nat) :
    ∃ d ds, Nat.toDigits 10 m = d :: ds ∧ d ≠ ' ' ∧ d ≠ '^' := by
  obtain ⟨d, ds, h⟩ := List.exists_cons_of_ne_nil (Nat.toDigits_ne_nil (n := m) (b := 10))
  have hd : d.isDigit = true :=
    Nat.isDigit_of_mem_toDigits (by decide) (by decide) (h ▸ List.mem_cons_self)
  refine ⟨d, ds, h, ?_, ?_⟩
  · rintro rfl
    exact absurd hd (by decide)
  · rintro rfl
    exact absurd hd (by decide)

theorem isMarked_shown : isMarked (loc.shown m) = decide (m = loc.lineOffset.line) := by
  rw [isMarked, shown, String.toList_append, toList_margin]
  cases decide (m = loc.lineOffset.line) with
  | true => simp
  | false => rfl

theorem isPointer_shown : isPointer (loc.shown m) = false := by
  obtain ⟨d, ds, hd, hspace, htip⟩ := exists_toDigits m
  rw [isPointer, shown, String.toList_append, toList_margin, hd]
  cases decide (m = loc.lineOffset.line) with
  | true => simp
  | false => simp [hspace, htip]

theorem toList_pointerLine (k : Nat) :
    (pointerLine k).toList = List.replicate k ' ' ++ "^--- here".toList := by
  simp [pointerLine, tip]

theorem isMarked_pointerLine (k : Nat) : isMarked (pointerLine k) = false := by
  rw [isMarked, toList_pointerLine]
  rcases k with _ | _ | _ | k
  · rfl
  · rfl
  · rfl
  · rfl

theorem isPointer_pointerLine (k : Nat) : isPointer (pointerLine k) = true := by
  rw [isPointer, toList_pointerLine, List.dropWhile_append_of_pos (by simp)]
  rfl

theorem leadingSpaces_pointerLine (k : Nat) : leadingSpaces (pointerLine k) = k := by
  rw [leadingSpaces, toList_pointerLine, List.takeWhile_append_of_pos (by simp)]
  simp

/-! ## The lines of a context -/

theorem line_eq (loc : Location) :
    loc.lineOffset.line = 1 + newlinesBelow loc.text loc.offset :=
  line_lineOffset loc.text loc.offset

theorem firstShown_le (loc : Location) : loc.firstShown ≤ loc.lineOffset.line := by
  have hline := line_eq loc
  simp only [firstShown]
  omega

theorem le_lastShown (loc : Location) : loc.lineOffset.line ≤ loc.lastShown := by
  obtain ⟨l, hl, -⟩ := exists_piece loc.text.toList loc.offset
  rw [String.ofList_toList] at hl
  have hlt := (List.getElem?_eq_some_iff.1 hl).1
  have hline := line_eq loc
  simp only [lastShown]
  omega

theorem zipIdx_pieces (ls : List (List Char)) :
    ls.zipIdx 1 = (List.range' 1 ls.length).map fun m => (ls.getD (m - 1) [], m) := by
  apply List.ext_getElem
  · simp
  · intro i hi _
    have hlt : i < ls.length := by simpa using hi
    simp [List.getElem?_eq_getElem hlt, Nat.add_comm 1 i]

theorem range'_split {a k b : Nat} (hak : a ≤ k) (hkb : k ≤ b) :
    List.range' a (b + 1 - a) = List.range' a (k - a) ++ k :: List.range' (k + 1) (b - k) := by
  have hcons : k :: List.range' (k + 1) (b - k) = List.range' k (b - k + 1) :=
    List.range'_succ.symm
  obtain ⟨i, rfl⟩ := Nat.exists_eq_add_of_le hak
  rw [hcons, Nat.add_sub_cancel_left, List.range'_append_1]
  congr 1
  omega

/-- Numbers at which `f` is empty can be left out at both ends. -/
theorem flatMap_range' {β : Type} {f : Nat → List β} {a b n : Nat} (ha : 1 ≤ a) (hab : a ≤ b)
    (hbn : b ≤ n) (hf : ∀ m, 1 ≤ m → m ≤ n → m < a ∨ b < m → f m = []) :
    (List.range' 1 n).flatMap f = (List.range' a (b + 1 - a)).flatMap f := by
  have hsplit : List.range' 1 n =
      List.range' 1 (a - 1) ++ (List.range' a (b + 1 - a) ++ List.range' (b + 1) (n - b)) := by
    rw [show b + 1 = a + (b + 1 - a) by omega, Nat.add_sub_cancel_left, List.range'_append_1,
      show a = 1 + (a - 1) by omega, Nat.add_sub_cancel_left, List.range'_append_1]
    congr 1
    omega
  have hfront : (List.range' 1 (a - 1)).flatMap f = [] := by
    rw [List.flatMap_eq_nil_iff]
    intro m hm
    rw [List.mem_range'_1] at hm
    exact hf m hm.1 (by omega) (.inl (by omega))
  have hback : (List.range' (b + 1) (n - b)).flatMap f = [] := by
    rw [List.flatMap_eq_nil_iff]
    intro m hm
    rw [List.mem_range'_1] at hm
    exact hf m (by omega) (by omega) (.inr (by omega))
  rw [hsplit, List.flatMap_append, List.flatMap_append, hfront, hback, List.nil_append,
    List.append_nil]

/-- What the context shows for line number `m`. -/
def block (loc : Location) (m : Nat) : List String :=
  if m < loc.firstShown ∨ loc.lastShown < m then []
  else if m = loc.lineOffset.line then [loc.shown m, pointerLine loc.indent]
  else [loc.shown m]

theorem block_other (hm : m ≠ loc.lineOffset.line) (hfirst : loc.firstShown ≤ m)
    (hlast : m ≤ loc.lastShown) : loc.block m = [loc.shown m] := by
  rw [block, if_neg (by omega), if_neg hm]

theorem block_line : loc.block loc.lineOffset.line =
    [loc.shown loc.lineOffset.line, pointerLine loc.indent] := by
  have hfirst := firstShown_le loc
  have hlast := le_lastShown loc
  rw [block, if_neg (by omega), if_pos rfl]

theorem flatMap_block {ns : List Nat}
    (h : ∀ m ∈ ns, m ≠ loc.lineOffset.line ∧ loc.firstShown ≤ m ∧ m ≤ loc.lastShown) :
    ns.flatMap loc.block = ns.map loc.shown := by
  rw [List.map_eq_flatMap]
  refine List.flatMap_congr fun m hm => ?_
  obtain ⟨hne, hfirst, hlast⟩ := h m hm
  exact block_other hne hfirst hlast

/-- The lines in front of the marked one, it and the pointer, and the lines behind it. -/
def lines (loc : Location) : List String :=
  (List.range' loc.firstShown (loc.lineOffset.line - loc.firstShown)).map loc.shown ++
    loc.shown loc.lineOffset.line :: pointerLine loc.indent ::
      (List.range' (loc.lineOffset.line + 1) (loc.lastShown - loc.lineOffset.line)).map loc.shown

theorem flatMap_block_eq_lines (loc : Location) :
    (List.range' 1 (pieces loc.text.toList).length).flatMap loc.block = loc.lines := by
  have hfirst := firstShown_le loc
  have hlast := le_lastShown loc
  have hone : 1 ≤ loc.firstShown := Nat.le_max_left _ _
  have hlength : loc.lastShown ≤ (pieces loc.text.toList).length := Nat.min_le_left _ _
  have houtside : ∀ m, 1 ≤ m → m ≤ (pieces loc.text.toList).length →
      m < loc.firstShown ∨ loc.lastShown < m → loc.block m = [] :=
    fun m _ _ h => if_pos h
  have hfront : ∀ m ∈ List.range' loc.firstShown (loc.lineOffset.line - loc.firstShown),
      m ≠ loc.lineOffset.line ∧ loc.firstShown ≤ m ∧ m ≤ loc.lastShown := by
    intro m hm
    rw [List.mem_range'_1] at hm
    omega
  have hback : ∀ m ∈ List.range' (loc.lineOffset.line + 1) (loc.lastShown - loc.lineOffset.line),
      m ≠ loc.lineOffset.line ∧ loc.firstShown ≤ m ∧ m ≤ loc.lastShown := by
    intro m hm
    rw [List.mem_range'_1] at hm
    omega
  rw [flatMap_range' hone (Nat.le_trans hfirst hlast) hlength houtside, range'_split hfirst hlast,
    List.flatMap_append, List.flatMap_cons, block_line, flatMap_block hfront, flatMap_block hback]
  rfl

/-! ## What can be written -/

theorem bind_eq_ok_iff {ε β γ : Type} {x : Except ε β} {f : β → Except ε γ} {y : γ} :
    (x >>= f) = .ok y ↔ ∃ a, x = .ok a ∧ f a = .ok y := by
  cases x with
  | error e => simp [bind, Except.bind]
  | ok a => simp [bind, Except.bind]

/-- By induction on the list: if `f` gives the value of `g` where `P` holds and else a fault, then
there is a list of values exactly if `P` holds of all. -/
theorem mapM_eq_ok_iff {ε β γ : Type} {f : β → Except ε γ} {P : β → Prop} {g : β → γ} {xs : List β}
    (h : ∀ x ∈ xs, ∀ y, f x = .ok y ↔ P x ∧ y = g x) {ys : List γ} :
    xs.mapM f = .ok ys ↔ (∀ x ∈ xs, P x) ∧ ys = xs.map g := by
  induction xs generalizing ys with
  | nil => simp [pure, Except.pure, eq_comm]
  | cons x xs ih =>
    have htail : ∀ zs, xs.mapM f = .ok zs ↔ (∀ z ∈ xs, P z) ∧ zs = xs.map g :=
      fun zs => ih fun z hz => h z (List.mem_cons_of_mem x hz)
    rw [List.mapM_cons, List.forall_mem_cons, List.map_cons]
    simp only [bind_eq_ok_iff, h x List.mem_cons_self, htail]
    constructor
    · rintro ⟨_, ⟨hx, rfl⟩, _, ⟨hxs, rfl⟩, hys⟩
      exact ⟨⟨hx, hxs⟩, (Except.ok.inj hys).symm⟩
    · rintro ⟨⟨hx, hxs⟩, rfl⟩
      exact ⟨_, ⟨hx, rfl⟩, _, ⟨hxs, rfl⟩, rfl⟩

theorem pointer_eq_ok_iff {k : Nat} {below : String} :
    pointer k = .ok below ↔ k < 2 ^ 62 ∧ below = pointerLine k := by
  have hsize : UInt64.size = 2 ^ 64 := rfl
  have hlimit : roomLimit = 2 ^ 63 := rfl
  have htip : tip.utf8ByteSize = 9 := rfl
  rw [pointer, roomFor, hsize, hlimit, htip]
  by_cases hk : k < 2 ^ 62
  · rw [if_neg (by omega), if_neg (by omega), Except.ok.injEq, eq_comm]
    exact (and_iff_right hk).symm
  · refine iff_of_false ?_ fun h => hk h.1
    split
    · nofun
    · rw [if_pos (by omega)]
      nofun

theorem row_eq_ok_iff {marked : Bool} {content line : String} :
    row marked m content = .ok line ↔
      (margin marked m ++ content).utf8ByteSize < 2 ^ 63 ∧ line = margin marked m ++ content := by
  have hlimit : roomLimit = 2 ^ 63 := rfl
  rw [row, hlimit]
  by_cases hfits : (margin marked m ++ content).utf8ByteSize < 2 ^ 63
  · rw [if_neg (by omega), Except.ok.injEq, eq_comm]
    exact (and_iff_right hfits).symm
  · rw [if_pos (by omega)]
    exact iff_of_false nofun fun h => hfits h.1

/-- There is room for what is shown of line number `m`. -/
def Fits (loc : Location) (m : Nat) : Prop :=
  loc.firstShown ≤ m → m ≤ loc.lastShown →
    (loc.shown m).utf8ByteSize < 2 ^ 63 ∧ (m = loc.lineOffset.line → loc.indent < 2 ^ 62)

theorem contextOf_eq_ok_iff (hone : 1 ≤ m) (hle : m ≤ (pieces loc.text.toList).length)
    {ts : List String} :
    contextOf loc.lineOffset m (loc.content m) = .ok ts ↔ loc.Fits m ∧ ts = loc.block m := by
  by_cases hout : m < loc.firstShown ∨ loc.lastShown < m
  · have hfits : loc.Fits m := fun hfirst hlast => by omega
    rw [block, if_pos hout]
    simp only [firstShown, lastShown] at hout
    rw [contextOf, if_pos (by omega), and_iff_right hfits]
    exact ⟨fun h => (Except.ok.inj h).symm, fun h => congrArg Except.ok h.symm⟩
  · have hnear : ¬ (m < loc.lineOffset.line - 2 ∨ loc.lineOffset.line + 2 < m) := by
      simp only [firstShown, lastShown] at hout
      omega
    have hfits : loc.Fits m ↔ (loc.shown m).utf8ByteSize < 2 ^ 63 ∧
        (m = loc.lineOffset.line → loc.indent < 2 ^ 62) :=
      ⟨fun h => h (by omega) (by omega), fun h _ _ => h⟩
    rw [block, if_neg hout, contextOf, if_neg hnear, hfits, shown]
    by_cases hm : m = loc.lineOffset.line
    · simp only [if_pos hm, bind_eq_ok_iff, row_eq_ok_iff, pointer_eq_ok_iff, decide_eq_true hm]
      constructor
      · rintro ⟨_, ⟨hline, rfl⟩, _, ⟨hindent, rfl⟩, hts⟩
        subst hm
        exact ⟨⟨hline, fun _ => hindent⟩, (Except.ok.inj hts).symm⟩
      · rintro ⟨⟨hline, hindent⟩, rfl⟩
        subst hm
        exact ⟨_, ⟨hline, rfl⟩, _, ⟨hindent rfl, rfl⟩, rfl⟩
    · simp only [if_neg hm, bind_eq_ok_iff, row_eq_ok_iff, decide_eq_false hm]
      constructor
      · rintro ⟨_, ⟨hline, rfl⟩, hts⟩
        exact ⟨⟨hline, fun h => absurd h hm⟩, (Except.ok.inj hts).symm⟩
      · rintro ⟨⟨hline, -⟩, rfl⟩
        exact ⟨_, ⟨hline, rfl⟩, rfl⟩

theorem writable_iff_fits :
    loc.Writable ↔ ∀ m, 1 ≤ m → m ≤ (pieces loc.text.toList).length → loc.Fits m := by
  have hfirst := firstShown_le loc
  have hlast := le_lastShown loc
  have hone : 1 ≤ loc.firstShown := Nat.le_max_left _ _
  have hlength : loc.lastShown ≤ (pieces loc.text.toList).length := Nat.min_le_left _ _
  constructor
  · intro h m _ _ hm hm'
    exact ⟨h.shown_lt m hm hm', fun _ => h.indent_lt⟩
  · intro h
    constructor
    case indent_lt =>
      exact (h loc.lineOffset.line (by omega) (by omega) hfirst hlast).2 rfl
    case shown_lt =>
      intro m hm hm'
      exact (h m (by omega) (by omega) hm hm').1

theorem contextLines_eq_ok_iff {ts : List String} :
    loc.contextLines = .ok ts ↔ loc.Writable ∧ ts = loc.lines := by
  have hblocks : ∀ p ∈ (pieces loc.text.toList).zipIdx 1, ∀ bs,
      contextOf loc.lineOffset p.2 (String.ofList p.1) = .ok bs ↔
        loc.Fits p.2 ∧ bs = loc.block p.2 := by
    intro p hp bs
    rw [zipIdx_pieces] at hp
    obtain ⟨m, hm, rfl⟩ := List.mem_map.1 hp
    rw [List.mem_range'_1] at hm
    exact contextOf_eq_ok_iff hm.1 (by omega)
  have hall : (∀ p ∈ (pieces loc.text.toList).zipIdx 1, loc.Fits p.2) ↔ loc.Writable := by
    rw [writable_iff_fits, zipIdx_pieces]
    simp only [List.forall_mem_map, List.mem_range'_1]
    constructor
    · exact fun h m hone hle => h m ⟨hone, by omega⟩
    · exact fun h m hm => h m hm.1 (by omega)
  have hlines : (((pieces loc.text.toList).zipIdx 1).map fun p => loc.block p.2).flatten =
      loc.lines := by
    rw [← flatMap_block_eq_lines, zipIdx_pieces, List.map_map]
    rfl
  rw [← hall, ← hlines]
  refine bind_eq_ok_iff.trans ?_
  simp only [mapM_eq_ok_iff hblocks]
  constructor
  · rintro ⟨_, ⟨hfits, rfl⟩, hts⟩
    exact ⟨hfits, (Except.ok.inj hts).symm⟩
  · rintro ⟨hfits, rfl⟩
    exact ⟨_, ⟨hfits, rfl⟩, rfl⟩

/-! ## The marked line -/

/-- The location cuts the marked line where it cuts the text. -/
theorem exists_lead {pre post : String} (htext : loc.text = pre ++ post)
    (hoffset : loc.offset = pre.utf8ByteSize) :
    ∃ lead, loc.shown loc.lineOffset.line =
        margin true loc.lineOffset.line ++ String.ofList lead ++
          String.ofList (restOfLine post.toList) ∧
      byteSize lead = loc.lineOffset.byteOffset := by
  obtain ⟨text, offset⟩ := loc
  obtain rfl : text = pre ++ post := htext
  obtain rfl : offset = pre.utf8ByteSize := hoffset
  obtain ⟨lead, hl, hsize⟩ := exists_piece_append pre.toList post.toList
  rw [← String.toList_append, String.ofList_toList, byteSize_toList] at hl hsize
  refine ⟨lead, ?_, ?_⟩
  · rw [shown, content, decide_eq_true rfl, line_lineOffset, Nat.add_sub_cancel_left,
      List.getD_eq_getElem?_getD, hl, Option.getD_some, String.ofList_append, String.append_assoc]
  · have hplace := startOf_add_byteOffset (pre ++ post) pre.utf8ByteSize
    omega

theorem slice?_marked {pre post : String} (htext : loc.text = pre ++ post)
    (hoffset : loc.offset = pre.utf8ByteSize) :
    Text.slice? (loc.shown loc.lineOffset.line) loc.indent
        (loc.shown loc.lineOffset.line).utf8ByteSize =
      some (String.ofList (restOfLine post.toList)) := by
  obtain ⟨lead, hmarked, hsize⟩ := exists_lead htext hoffset
  rw [hmarked, Text.slice?_eq_some_iff]
  refine ⟨margin true loc.lineOffset.line ++ String.ofList lead, "", ?_, ?_, rfl⟩
  · rw [String.append_empty]
  · rw [String.utf8ByteSize_append, indent, ← hsize]
    rfl

/-! ## The window -/

theorem filter_isPointer_shown (ns : List Nat) : (ns.map loc.shown).filter isPointer = [] := by
  rw [List.filter_eq_nil_iff]
  simp [isPointer_shown]

theorem filter_not_isPointer_shown (ns : List Nat) :
    (ns.map loc.shown).filter (fun t => !isPointer t) = ns.map loc.shown := by
  rw [List.filter_eq_self]
  simp [isPointer_shown]

theorem filter_isMarked_shown {ns : List Nat} (h : loc.lineOffset.line ∉ ns) :
    (ns.map loc.shown).filter isMarked = [] := by
  rw [List.filter_eq_nil_iff]
  intro t ht
  obtain ⟨m, hm, rfl⟩ := List.mem_map.1 ht
  rw [isMarked_shown, decide_eq_true_iff]
  rintro rfl
  exact h hm

theorem window_lines (loc : Location) : loc.Window loc.lines := by
  have hmarked := isMarked_pointerLine loc.indent
  have hpointer := isPointer_pointerLine loc.indent
  have hspaces := leadingSpaces_pointerLine loc.indent
  have hfirst := firstShown_le loc
  have hlast := le_lastShown loc
  rw [lines]
  generalize pointerLine loc.indent = below at hmarked hpointer hspaces
  generalize hfront : List.range' loc.firstShown (loc.lineOffset.line - loc.firstShown) = front
  generalize hback :
    List.range' (loc.lineOffset.line + 1) (loc.lastShown - loc.lineOffset.line) = back
  have hnotfront : loc.lineOffset.line ∉ front := by
    rw [← hfront, List.mem_range'_1]
    omega
  have hnotback : loc.lineOffset.line ∉ back := by
    rw [← hback, List.mem_range'_1]
    omega
  have hpointers : (front.map loc.shown ++ loc.shown loc.lineOffset.line :: below ::
      back.map loc.shown).filter isPointer = [below] := by
    simp [filter_isPointer_shown, isPointer_shown, hpointer]
  constructor
  case numbered =>
    rw [range'_split hfirst hlast, hfront, hback]
    simp [filter_not_isPointer_shown, isPointer_shown, hpointer]
  case line_mem => exact ⟨hfirst, hlast⟩
  case marked =>
    simp [filter_isMarked_shown hnotfront, filter_isMarked_shown hnotback, isMarked_shown, hmarked]
  case pointed => exact ⟨_, below, _, rfl, hpointers, hspaces⟩
  case under =>
    intro t ht hpt pre post htext hoffset
    obtain rfl : t = below := by
      have hmem := List.mem_filter.2 ⟨ht, hpt⟩
      rwa [hpointers, List.mem_singleton] at hmem
    rw [hspaces]
    exact slice?_marked htext hoffset

theorem window_of_contextLines {ts : List String} (h : loc.contextLines = .ok ts) :
    loc.Window ts := by
  obtain ⟨-, rfl⟩ := contextLines_eq_ok_iff.1 h
  exact window_lines loc

theorem contextLines_window (loc : Location) :
    (loc.Writable → ∃ lines, loc.contextLines = .ok lines ∧ loc.Window lines) ∧
      (¬ loc.Writable → ∃ fault, loc.contextLines = .error fault) := by
  constructor
  · intro h
    have hlines := contextLines_eq_ok_iff.2 ⟨h, rfl⟩
    exact ⟨loc.lines, hlines, window_of_contextLines hlines⟩
  · intro h
    cases hc : loc.contextLines with
    | ok ts => exact absurd (contextLines_eq_ok_iff.1 hc).1 h
    | error fault => exact ⟨fault, rfl⟩

/-- The window ends at the empty line behind the last newline. -/
theorem contextLines_window_clipped :
    Writable ⟨"é\nà!\n", 5⟩ ∧
      Window ⟨"é\nà!\n", 5⟩
        ["    1 | é", "  > 2 | à!", "          ^--- here", "    3 | "] := by
  have h : Writable ⟨"é\nà!\n", 5⟩ := by
    constructor
    case indent_lt => decide
    case shown_lt =>
      intro m hfirst hlast
      change 1 ≤ m at hfirst
      change m ≤ 3 at hlast
      obtain rfl | rfl | rfl : m = 1 ∨ m = 2 ∨ m = 3 := by omega
      all_goals decide
  obtain ⟨lines, hlines, hwindow⟩ := (contextLines_window ⟨"é\nà!\n", 5⟩).1 h
  obtain rfl : _ = lines := Except.ok.inj hlines
  exact ⟨h, hwindow⟩

/-- Both indents are 64-bit numbers. No text has as many bytes as the first, and behind a text of
the second there is no room for the tip. -/
theorem contextLines_tooLong :
    (⟨"", 9223372036854775800⟩ : Location).indent < 2 ^ 64 ∧
      contextLines ⟨"", 9223372036854775800⟩ = .error .tooLong ∧
      (⟨"", 4611686018427387896⟩ : Location).indent = 2 ^ 62 ∧
      contextLines ⟨"", 4611686018427387896⟩ = .error .tooLong ∧
      ¬ ∃ lines, contextLines ⟨"", 9223372036854775800⟩ = .ok lines ∧
        Window ⟨"", 9223372036854775800⟩ lines := by
  have hfault : contextLines ⟨"", 9223372036854775800⟩ = .error .tooLong := rfl
  refine ⟨by decide, hfault, rfl, rfl, ?_⟩
  rintro ⟨lines, hlines, -⟩
  rw [hfault] at hlines
  cases hlines

end Location
end Peg
