import Peg.Cursor.Registers
import Peg.Proofs.Cursor.LongestRun
import Peg.Proofs.Cursor.Suffix

/-!
# Peg.Proofs.Cursor.Sound

What the operations on cursors guarantee.

* `Sound c`: the cursor `c` lies at a boundary of its source, and all ways to look at it agree.
* `Registers.Valid.run`: every cursor made by any sequence of steps is valid, hence sound.
* `splits_advance`: moving on `n` times goes past the next `n` characters, as far as there are any.
* `startingAt?_eq_ok_iff_advance`: the offsets at which a cursor can start are those reached from the
  start of the text by moving on.
-/

namespace Peg
namespace Cursor

variable {c : Cursor} {s : String} {o : Nat}

structure Sound (c : Cursor) : Prop where
  boundary : Text.isBoundary c.source c.offset = true
  le : c.offset ≤ c.source.utf8ByteSize
  /-- What is left is a slice of the source; the empty text never stands in for it. -/
  slice : Text.slice? c.source c.offset c.source.utf8ByteSize = some c.remaining
  behind : ∃ pre, c.source = pre ++ c.remaining ∧ pre.utf8ByteSize = c.offset
  peek : c.peek = c.remaining.toList.head?
  isAtEnd : c.isAtEnd = true ↔ c.remaining = ""
  peek_none : c.peek = none ↔ c.remaining = ""

theorem Valid.sound (h : c.Valid) : c.Sound := by
  obtain ⟨pre, hs⟩ := h.splits
  refine ⟨h, h.offset_le, ?_, ⟨pre, hs.1, hs.2.symm⟩, h.peek, ?_, ?_⟩
  · have hslice := Text.slice?_append pre c.remaining ""
    rwa [String.append_empty, ← hs.1, ← hs.2] at hslice
  · rw [hs.isAtEnd, decide_eq_true_iff]
  · rw [h.peek, List.head?_eq_none_iff, String.toList_eq_nil_iff]

/-! ## Sequences of steps -/

namespace Registers

variable {regs regs' : Registers} {st : Step}

def Valid (regs : Registers) : Prop := ∀ name c, (name, c) ∈ regs → c.Valid

theorem Valid.lookup (h : regs.Valid) {name : String} (hc : regs.lookup name = some c) :
    c.Valid := by
  obtain ⟨l₁, l₂, rfl, -⟩ := List.lookup_eq_some_iff.1 hc
  exact h name c (by simp)

theorem Valid.value (h : regs.Valid) (hv : st.value? regs = some (.ok c)) : c.Valid := by
  cases st with
  | start name source =>
    cases hv
    exact valid_start source
  | startingAt name source offset => exact valid_of_startingAt? (Option.some.inj hv)
  | advance name times =>
    obtain ⟨d, hd, heq⟩ := Option.map_eq_some_iff.1 hv
    cases heq
    exact (h.lookup hd).advance times
  | next name of =>
    obtain ⟨d, hd, heq⟩ := Option.map_eq_some_iff.1 hv
    cases heq
    exact (h.lookup hd).next
  | branch name of =>
    obtain ⟨d, hd, heq⟩ := Option.map_eq_some_iff.1 hv
    cases heq
    exact h.lookup hd
  | commit name of =>
    dsimp only [Step.value?] at hv
    split at hv
    · next hof =>
      cases hv
      exact h.lookup hof
    · cases hv

theorem Valid.step (h : regs.Valid) {result : Except UsageError Cursor}
    (hs : regs.step? st = some (result, regs')) : regs'.Valid := by
  unfold step? at hs
  split at hs
  · cases hs
  · cases hs
    exact h
  · next c hv =>
    cases hs
    intro name d hd
    rcases List.mem_cons.1 hd with heq | hd
    · cases heq
      exact h.value hv
    · exact h name d hd

theorem Valid.run (h : regs.Valid) (steps : List Step) : (regs.run steps).Valid := by
  induction steps generalizing regs with
  | nil => exact h
  | cons st steps ih =>
    unfold Registers.run
    split
    · next hs => exact ih (h.step hs)
    · exact ih h

end Registers

/-! ## Moving on from the start -/

theorem Splits.advance {pre : String} {cs : List Char} (h : c.Splits pre (String.ofList cs))
    (n : Nat) :
    (advance n c).Splits (pre ++ String.ofList (cs.take n)) (String.ofList (cs.drop n)) := by
  induction n generalizing c pre cs with
  | zero => simpa [Cursor.advance] using h
  | succ n ih =>
    cases cs with
    | nil =>
      have hstay : c.next = c := h.next_nil
      rw [Cursor.advance, hstay]
      simpa using ih h
    | cons ch cs =>
      have hpre : pre.push ch ++ String.ofList (cs.take n) =
          pre ++ String.ofList ((ch :: cs).take (n + 1)) := by
        simp [← String.toList_inj]
      have hrest := ih h.next_cons
      rwa [hpre] at hrest

theorem splits_advance (s : String) (n : Nat) :
    (advance n (start s)).Splits (String.ofList (s.toList.take n))
      (String.ofList (s.toList.drop n)) := by
  have h : (start s).Splits "" (String.ofList s.toList) := by
    rw [String.ofList_toList]
    exact splits_start s
  simpa using h.advance n

/-- A valid cursor is reached after as many moves as there are characters behind it. -/
theorem Valid.exists_advance (h : c.Valid) :
    ∃ n, Cursor.advance n (start c.source) = c := by
  obtain ⟨pre, hs⟩ := h.splits
  have hn := splits_advance c.source pre.toList.length
  have hpre : String.ofList (c.source.toList.take pre.toList.length) = pre := by
    rw [hs.1, String.toList_append, List.take_left, String.ofList_toList]
  have hpost : String.ofList (c.source.toList.drop pre.toList.length) = c.remaining := by
    rw [congrArg String.toList hs.1, String.toList_append, List.drop_left, String.ofList_toList]
  rw [hpre, hpost] at hn
  exact ⟨pre.toList.length, hn.eq hs⟩

theorem startingAt?_eq_ok_iff_advance :
    startingAt? s o = .ok c ↔ c.offset = o ∧ ∃ n, advance n (start s) = c := by
  rw [startingAt?_eq_ok_iff]
  constructor
  · rintro ⟨rfl, h⟩
    exact ⟨rfl, h.exists_advance⟩
  · rintro ⟨rfl, n, rfl⟩
    have hs : (advance n (start s)).source = s := source_advance n (start s)
    refine ⟨?_, (valid_start s).advance n⟩
    generalize advance n (start s) = d at hs
    rw [← hs]

theorem startingAt?_eq_error (h : ∀ n, (advance n (start s)).offset ≠ o) :
    startingAt? s o = .error (.invalidOffset o s.utf8ByteSize) := by
  unfold startingAt?
  split
  · next hb =>
    have hv : (⟨s, o⟩ : Cursor).Valid := hb
    obtain ⟨n, hn⟩ := hv.exists_advance
    exact absurd (congrArg offset hn) (h n)
  · rfl

theorem cursors_sound (steps : List Step) :
    (∀ name c, (name, c) ∈ Registers.run [] steps → c.Sound) ∧
    ∀ s : String,
      (∀ n, (advance n (start s)).Splits (String.ofList (s.toList.take n))
        (String.ofList (s.toList.drop n))) ∧
      ∀ o, (∀ c, startingAt? s o = .ok c ↔ c.offset = o ∧ ∃ n, advance n (start s) = c) ∧
        ((∀ n, (advance n (start s)).offset ≠ o) →
          startingAt? s o = .error (.invalidOffset o s.utf8ByteSize)) := by
  have hempty : Registers.Valid [] := by
    intro name c h
    cases h
  refine ⟨fun name c h => (hempty.run steps name c h).sound, fun s => ?_⟩
  exact ⟨splits_advance s, fun o => ⟨fun c => startingAt?_eq_ok_iff_advance, startingAt?_eq_error⟩⟩

end Cursor
end Peg
