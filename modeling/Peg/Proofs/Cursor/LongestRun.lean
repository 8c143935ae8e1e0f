import Mathlib.Algebra.GroupWithZero.Nat
import Peg.Proofs.Cursor.Reaches

/-!
# Peg.Proofs.Cursor.LongestRun

The longest run of characters of one kind that stands at a cursor.

* `LongestRun P c u d`: the characters `u` from `c` to `d` have the property `P`, and no longer
  stretch from `c` on has it.

A run grows by a character in front of it (`LongestRun.cons`, `LongestRun.tail`) and ends at one
without the property (`LongestRun.nil`, `LongestRun.stop`). Exactly one run stands at a valid cursor
(`exists_longestRun`, `LongestRun.unique`), and where it ends no other begins (`LongestRun.behind`).
-/

namespace Peg
namespace Cursor

variable {P : Char → Prop} {c d d' : Cursor} {u u' cs : List Char} {ch : Char}

/-! ## The character under a valid cursor -/

theorem Valid.peek (h : c.Valid) : c.peek = c.remaining.toList.head? := by
  obtain ⟨pre, hs⟩ := h.splits
  exact hs.peek

theorem Valid.next_splits (h : c.Valid) (hcs : c.remaining.toList = ch :: cs) :
    ∃ pre, c.Splits pre (String.ofList (ch :: cs)) ∧
      c.next.Splits (pre.push ch) (String.ofList cs) := by
  obtain ⟨pre, hs⟩ := h.splits
  rw [← String.ofList_toList (s := c.remaining), hcs] at hs
  exact ⟨pre, hs, hs.next_cons⟩

theorem Valid.remaining_next (h : c.Valid) (hcs : c.remaining.toList = ch :: cs) :
    c.next.remaining.toList = cs := by
  obtain ⟨pre, -, hnext⟩ := h.next_splits hcs
  rw [hnext.remaining, String.toList_ofList]

theorem Valid.offset_next (h : c.Valid) (hcs : c.remaining.toList = ch :: cs) :
    c.next.offset = c.offset + ch.utf8Size := by
  obtain ⟨pre, hs, hnext⟩ := h.next_splits hcs
  rw [hnext.2, hs.2, String.utf8ByteSize_push]

/-! ## Runs -/

structure LongestRun (P : Char → Prop) (c : Cursor) (u : List Char) (d : Cursor) : Prop where
  source : d.source = c.source
  valid : d.Valid
  chars : c.remaining.toList = u ++ d.remaining.toList
  offset : d.offset = c.offset + (u.map Char.utf8Size).sum
  all : ∀ ch ∈ u, P ch
  longest : ∀ w, w <+: c.remaining.toList → (∀ ch ∈ w, P ch) → w <+: u

theorem LongestRun.nil (h : c.Valid) (hstop : ∀ ch ∈ c.remaining.toList.head?, ¬ P ch) :
    LongestRun P c [] c where
  source := rfl
  valid := h
  chars := rfl
  offset := rfl
  all := by simp
  longest w hw hall := by
    cases w with
    | nil => exact List.nil_prefix
    | cons ch w =>
      obtain ⟨rest, hrest⟩ := hw
      have hhead : ch ∈ c.remaining.toList.head? := by simp [← hrest]
      exact absurd (hall ch List.mem_cons_self) (hstop ch hhead)

theorem LongestRun.cons (h : c.Valid) (hcs : c.remaining.toList = ch :: cs) (hch : P ch)
    (hr : LongestRun P c.next u d) : LongestRun P c (ch :: u) d where
  source := hr.source.trans (source_next c)
  valid := hr.valid
  chars := by rw [hcs, ← h.remaining_next hcs, hr.chars, List.cons_append]
  offset := by
    rw [hr.offset, h.offset_next hcs, List.map_cons, List.sum_cons, Nat.add_assoc]
  all := List.forall_mem_cons.2 ⟨hch, hr.all⟩
  longest w hw hall := by
    cases w with
    | nil => exact List.nil_prefix
    | cons x w =>
      rw [hcs, List.cons_prefix_cons] at hw
      rw [← h.remaining_next hcs] at hw
      rw [List.cons_prefix_cons]
      exact ⟨hw.1, hr.longest w hw.2 fun y hy => hall y (List.mem_cons_of_mem x hy)⟩

theorem LongestRun.unique (h : LongestRun P c u d) (h' : LongestRun P c u' d') :
    u = u' ∧ d = d' := by
  have hle : u <+: u' := h'.longest u (h.chars ▸ List.prefix_append u _) h.all
  have hge : u' <+: u := h.longest u' (h'.chars ▸ List.prefix_append u' _) h'.all
  obtain rfl := hle.eq_of_length (Nat.le_antisymm hle.length_le hge.length_le)
  obtain ⟨source, offset⟩ := d
  obtain ⟨source', offset'⟩ := d'
  have hs : source = source' := h.source.trans h'.source.symm
  have ho : offset = offset' := h.offset.trans h'.offset.symm
  exact ⟨rfl, by rw [hs, ho]⟩

/-- A character with the property behind the run would be part of it. -/
theorem LongestRun.stop (h : LongestRun P c u d) : ∀ ch ∈ d.remaining.toList.head?, ¬ P ch := by
  intro ch hhead hch
  have hlonger : u ++ [ch] <+: c.remaining.toList := by
    obtain ⟨rest, hrest⟩ := List.head?_eq_some_iff.1 hhead
    exact ⟨rest, by rw [h.chars, hrest, List.append_assoc, List.singleton_append]⟩
  have hall : ∀ x ∈ u ++ [ch], P x := by
    intro x hx
    rcases List.mem_append.1 hx with hx | hx
    · exact h.all x hx
    · rw [List.mem_singleton.1 hx]
      exact hch
  have hle := (h.longest _ hlonger hall).length_le
  rw [List.length_append, List.length_singleton] at hle
  omega

theorem LongestRun.behind (h : LongestRun P c u d) : LongestRun P d [] d := .nil h.valid h.stop

theorem LongestRun.eq_of_nil (h : LongestRun P c [] d) : d = c := by
  obtain ⟨source, offset⟩ := d
  obtain ⟨source', offset'⟩ := c
  have hs : source = source' := h.source
  have ho : offset = offset' := h.offset
  rw [hs, ho]

theorem LongestRun.peek (hc : c.Valid) (h : LongestRun P c (ch :: u) d) :
    c.peek = some ch := by
  rw [hc.peek, h.chars, List.cons_append, List.head?_cons]

theorem LongestRun.tail (hc : c.Valid) (h : LongestRun P c (ch :: u) d) :
    LongestRun P c.next u d := by
  have hcs : c.remaining.toList = ch :: (u ++ d.remaining.toList) := h.chars
  have hnext := hc.remaining_next hcs
  refine ⟨h.source.trans (source_next c).symm, h.valid, hnext, ?_, ?_, ?_⟩
  · rw [h.offset, hc.offset_next hcs, List.map_cons, List.sum_cons, Nat.add_assoc]
  · exact fun x hx => h.all x (List.mem_cons_of_mem ch hx)
  · intro w hw hall
    have hlonger : ch :: w <+: c.remaining.toList := by
      rw [hcs, List.cons_prefix_cons, ← hnext]
      exact ⟨rfl, hw⟩
    have hmore := h.longest _ hlonger (List.forall_mem_cons.2 ⟨h.all ch List.mem_cons_self, hall⟩)
    exact (List.cons_prefix_cons.1 hmore).2

/-- By induction on the characters that are left. -/
theorem exists_longestRun (P : Char → Prop) (hc : c.Valid) : ∃ u d, LongestRun P c u d := by
  induction hcs : c.remaining.toList generalizing c with
  | nil => exact ⟨[], c, .nil hc (by simp [hcs])⟩
  | cons ch cs ih =>
    by_cases hch : P ch
    · obtain ⟨u, d, hr⟩ := ih hc.next (hc.remaining_next hcs)
      exact ⟨ch :: u, d, hr.cons hc hcs hch⟩
    · exact ⟨[], c, .nil hc (by simpa [hcs] using hch)⟩

end Cursor
end Peg
