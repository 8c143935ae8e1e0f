import Peg.Cursor.Lemmas
import Peg.ParseError

/-!
# Peg.Proofs.Cursor.Reaches

`c.Reaches d`: the place `d` lies in the source of `c`, between two characters or at an end, and not
in front of `c`. Moving on only reaches such places (`Reaches.next`, `Reaches.advance`).
-/

namespace Peg

structure Cursor.Reaches (c d : Cursor) : Prop where
  source : d.source = c.source
  valid : d.Valid
  le : c.offset ≤ d.offset

namespace Cursor.Reaches

variable {c d e : Cursor}

theorem refl (h : c.Valid) : c.Reaches c := ⟨rfl, h, Nat.le_refl _⟩

theorem trans (h : c.Reaches d) (h' : d.Reaches e) : c.Reaches e :=
  ⟨h'.source.trans h.source, h'.valid, Nat.le_trans h.le h'.le⟩

theorem next (h : c.Valid) : c.Reaches c.next :=
  ⟨source_next c, h.next, offset_le_next c⟩

theorem advance (h : c.Valid) (n : Nat) : c.Reaches (Cursor.advance n c) := by
  induction n generalizing c with
  | zero => exact refl h
  | succ n ih => exact (next h).trans (ih h.next)

theorem offset_le (h : c.Reaches d) : d.offset ≤ c.source.utf8ByteSize := by
  have := h.valid.offset_le
  rwa [h.source] at this

theorem isBoundary (h : c.Reaches d) : Text.isBoundary c.source d.offset = true := by
  have := h.valid
  rwa [Valid, h.source] at this

end Cursor.Reaches

/-- The place at which a failure lies. -/
def ParseError.cursor (e : ParseError) : Cursor := ⟨e.location.text, e.location.offset⟩

@[simp] theorem ParseError.cursor_ofCursor (cause : Cause) (c : Cursor) :
    (ParseError.ofCursor cause c).cursor = c := rfl

end Peg
