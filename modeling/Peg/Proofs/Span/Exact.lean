import Peg.Proofs.Semantics.Reflects
import Peg.Span

/-!
# Peg.Proofs.Span.Exact

Spans as stretches of the source that they name.

* `Exact source s`: the ends of `s` are in order and cut no character, and its text is what lies
  between them. This holds of all spans that parsers make (`exact_between`).
* `Laminar lo hi l`: the spans of `l` lie between `lo` and `hi`, and of any two of them, one lies in
  the other or neither reaches into the other. It is kept where stretches are put one behind the
  other (`Laminar.append`), and where a span is put around all of one (`Laminar.around`).
-/

namespace Peg
namespace Span

structure Exact (source : String) (s : Span) : Prop where
  source_eq : s.source = source
  le : s.start ≤ s.stop
  start_boundary : Text.isBoundary source s.start = true
  stop_boundary : Text.isBoundary source s.stop = true
  length : s.length? = some s.text.utf8ByteSize
  /-- The source is what lies before the span, its text, and what lies behind it. -/
  splits : ∃ pre post, source = pre ++ s.text ++ post ∧ s.start = pre.utf8ByteSize ∧
    s.stop = (pre ++ s.text).utf8ByteSize

theorem text_of_slice? {s : Span} {t : String}
    (h : Text.slice? s.source s.start s.stop = some t) : s.text = t := by
  rw [text, h, Option.getD_some]

theorem exact_of_slice? {s : Span} {t : String}
    (h : Text.slice? s.source s.start s.stop = some t) : Exact s.source s := by
  obtain rfl := text_of_slice? h
  obtain ⟨pre, post, hsource, hstart, hstop⟩ := Text.slice?_eq_some_iff.1 h
  have hsize := hstop
  rw [String.utf8ByteSize_append, ← hstart] at hsize
  have hle : s.start ≤ s.stop := by omega
  refine ⟨rfl, hle, ?_, ?_, ?_, ⟨pre, post, hsource, hstart, hstop⟩⟩
  · rw [hsource, hstart, String.append_assoc]
    exact Text.isBoundary_append pre _
  · rw [hsource, hstop]
    exact Text.isBoundary_append _ post
  · rw [length?, if_pos hle, Option.some.injEq]
    omega

section Between

variable {source : String} {cs rest mid : List Char}

theorem slice?_between (hcs : cs <:+ source.toList) (h : mid ++ rest = cs) :
    Text.slice? source (between source cs rest).start (between source cs rest).stop =
      some (String.ofList mid) := by
  obtain ⟨pre, hp⟩ := hcs
  have hstart := Cursor.splits_before hp
  have hstop : (Cursor.before source rest).Splits (String.ofList (pre ++ mid))
      (String.ofList rest) := by
    apply Cursor.splits_before
    rw [List.append_assoc, h, hp]
  rw [String.ofList_append] at hstop
  exact Text.slice?_eq_some_iff.2 ⟨_, _, hstop.1, hstart.2, hstop.2⟩

theorem exact_between (hcs : cs <:+ source.toList) (hrest : rest <:+ cs) :
    (between source cs rest).Exact source := by
  obtain ⟨mid, h⟩ := hrest
  exact exact_of_slice? (s := between source cs rest) (slice?_between hcs h)

theorem text_between (hcs : cs <:+ source.toList) (h : mid ++ rest = cs) :
    (between source cs rest).text = String.ofList mid :=
  text_of_slice? (s := between source cs rest) (slice?_between hcs h)

end Between

def Within (s t : Span) : Prop := t.start ≤ s.start ∧ s.stop ≤ t.stop

def Apart (s t : Span) : Prop := s.stop ≤ t.start ∨ t.stop ≤ s.start

structure Laminar (lo hi : Nat) (l : List Span) : Prop where
  le : lo ≤ hi
  bounds : ∀ s ∈ l, lo ≤ s.start ∧ s.stop ≤ hi
  nested : ∀ s ∈ l, ∀ t ∈ l, s.Apart t ∨ s.Within t ∨ t.Within s

namespace Laminar

variable {lo mid hi : Nat} {l l' : List Span}

theorem nil (h : lo ≤ hi) : Laminar lo hi [] := ⟨h, by simp, by simp⟩

theorem subset (h : Laminar lo hi l) (hl : l' ⊆ l) : Laminar lo hi l' :=
  ⟨h.le, fun s hs => h.bounds s (hl hs), fun s hs t ht => h.nested s (hl hs) t (hl ht)⟩

/-- Spans of two stretches are apart if one of the stretches ends before the other begins. -/
theorem append (h : Laminar lo mid l) (h' : Laminar mid hi l') : Laminar lo hi (l ++ l') := by
  have hle := h.le
  have hle' := h'.le
  refine ⟨Nat.le_trans hle hle', fun s hs => ?_, fun s hs t ht => ?_⟩
  · rcases List.mem_append.1 hs with hs | hs
    · have := h.bounds s hs
      omega
    · have := h'.bounds s hs
      omega
  · rcases List.mem_append.1 hs with hs | hs <;> rcases List.mem_append.1 ht with ht | ht
    · exact h.nested s hs t ht
    · exact .inl (.inl (Nat.le_trans (h.bounds s hs).2 (h'.bounds t ht).1))
    · exact .inl (.inr (Nat.le_trans (h.bounds t ht).2 (h'.bounds s hs).1))
    · exact h'.nested s hs t ht

theorem around (h : Laminar lo hi l) (source : String) :
    Laminar lo hi (l ++ [⟨source, lo, hi⟩]) := by
  refine ⟨h.le, fun s hs => ?_, fun s hs t ht => ?_⟩
  · rcases List.mem_append.1 hs with hs | hs
    · exact h.bounds s hs
    · obtain rfl := List.mem_singleton.1 hs
      exact ⟨Nat.le_refl lo, Nat.le_refl hi⟩
  · rcases List.mem_append.1 hs with hs | hs <;> rcases List.mem_append.1 ht with ht | ht
    · exact h.nested s hs t ht
    · obtain rfl := List.mem_singleton.1 ht
      exact .inr (.inl (h.bounds s hs))
    · obtain rfl := List.mem_singleton.1 hs
      exact .inr (.inr (h.bounds t ht))
    · obtain rfl := List.mem_singleton.1 hs
      obtain rfl := List.mem_singleton.1 ht
      exact .inr (.inl ⟨Nat.le_refl lo, Nat.le_refl hi⟩)

end Laminar
end Span
end Peg
