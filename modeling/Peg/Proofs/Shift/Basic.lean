import Peg.Parser.Basic
import Peg.Proofs.Shift.Text
import Peg.Proofs.Value.Spans

/-!
# Peg.Proofs.Shift.Basic

What refers to a text, when more text is put in front of that.

`shift pre` moves cursors, spans and whatever holds them from a text to the same place behind `pre`.
A cursor sees the same there (`Cursor.peek_shift`), and a span covers the same text
(`Span.text_shift`).
-/

namespace Peg

namespace Cursor

def shift (pre : String) (c : Cursor) : Cursor := ⟨pre ++ c.source, pre.utf8ByteSize + c.offset⟩

variable (pre : String) (c : Cursor)

theorem peek_shift : (c.shift pre).peek = c.peek := Text.charAt?_shift pre c.source c.offset

theorem next_shift : (c.shift pre).next = c.next.shift pre := by
  rw [next, next, peek_shift]
  cases c.peek with
  | none => rfl
  | some ch => exact congrArg (Cursor.mk _) (Nat.add_assoc _ _ _)

/-- A cursor is the start of what is left of it, shifted behind what lies before it. -/
theorem Splits.eq_shift {c : Cursor} {pre post : String} (h : c.Splits pre post) :
    c = (start post).shift pre := by
  obtain ⟨source, offset⟩ := c
  obtain ⟨rfl, rfl⟩ := h
  rfl

end Cursor

namespace Span

def shift (pre : String) (s : Span) : Span :=
  ⟨pre ++ s.source, pre.utf8ByteSize + s.start, pre.utf8ByteSize + s.stop⟩

theorem text_shift (pre : String) (s : Span) : (s.shift pre).text = s.text := by
  rw [text, text, shift, Text.slice?_shift]

theorem length?_shift (pre : String) (s : Span) : (s.shift pre).length? = s.length? := by
  simp only [length?, shift, Nat.add_le_add_iff_left, Nat.add_sub_add_left]

end Span

namespace Value

variable {α : Type}

def shift (pre : String) (v : Value α) : Value α := v.mapSpans (Span.shift pre)

theorem texts_shift (pre : String) (v : Value α) :
    (v.shift pre).spans.map Span.text = v.spans.map Span.text := by
  rw [shift, spans_mapSpans, List.map_map]
  exact List.map_congr_left fun s _ => s.text_shift pre

theorem lengths_shift (pre : String) (v : Value α) :
    (v.shift pre).spans.map Span.length? = v.spans.map Span.length? := by
  rw [shift, spans_mapSpans, List.map_map]
  exact List.map_congr_left fun s _ => s.length?_shift pre

end Value

def ParseError.shift (pre : String) (e : ParseError) : ParseError :=
  ⟨e.cause, ⟨pre ++ e.location.text, pre.utf8ByteSize + e.location.offset⟩⟩

def Answer.shift {α : Type} (pre : String) : Answer (Value α) → Answer (Value α)
  | .ok v d => .ok (v.shift pre) (d.shift pre)
  | .fail e => .fail (e.shift pre)

def Record.shift (pre : String) : Record → Record
  | .defined name => .defined name
  | .started offset => .started (pre.utf8ByteSize + offset)
  | .succeeded offset => .succeeded (pre.utf8ByteSize + offset)
  | .failed e => .failed (e.shift pre)
  | .entering name offset => .entering name (pre.utf8ByteSize + offset)
  | .probed name offset => .probed name (pre.utf8ByteSize + offset)
  | .probeOk name offset stop =>
    .probeOk name (pre.utf8ByteSize + offset) (pre.utf8ByteSize + stop)
  | .probeFail name offset position =>
    .probeFail name (pre.utf8ByteSize + offset) (pre.utf8ByteSize + position)

/-- It does not matter whether a value is shifted before or after a function that shifting goes
through. -/
theorem Answer.map_shift {α : Type} {pre : String} {f f' : Value α → Value α}
    (hf : ∀ v, f' (v.shift pre) = (f v).shift pre) (a : Answer (Value α)) :
    (a.shift pre).map f' = (a.map f).shift pre := by
  cases a with
  | ok v d => exact congrArg (Answer.ok · _) (hf v)
  | fail e => rfl

end Peg
