import Peg.Proofs.Shift.Text
import Peg.Proofs.Span.Exact

/-!
# Peg.Proofs.Span.Cut

The text of a span, whatever numbers its ends are.

* `Cuts s t`: in the source of `s`, the text `t` lies exactly between the ends of `s`.
* `exists_cuts_iff`: two ends cut a text out if they are boundaries in the right order, and no other
  ends do.
* `Cuts.append`: texts that are cut out one behind the other join to what lies between the outer
  ends.
* `text_of_ends`: a span shows the text that its ends cut out, and its length is that of the text.
  Ends that cut out nothing show the empty text.

An empty text does not tell whether the ends cut it out. So the way from the text back to the
source is open for nonempty texts only.
-/

namespace Peg
namespace Span

variable {s : Span} {source t u : String} {a b c : Nat}

def Cuts (s : Span) (t : String) : Prop :=
  ∃ pre post, s.source = pre ++ t ++ post ∧ s.start = pre.utf8ByteSize ∧
    s.stop = (pre ++ t).utf8ByteSize

theorem cuts_iff_slice? : s.Cuts t ↔ Text.slice? s.source s.start s.stop = some t :=
  Text.slice?_eq_some_iff.symm

theorem Cuts.stop_eq (h : s.Cuts t) : s.stop = s.start + t.utf8ByteSize := by
  obtain ⟨pre, post, -, hstart, hstop⟩ := h
  rw [hstart, hstop, String.utf8ByteSize_append]

theorem Cuts.text_eq (h : s.Cuts t) : s.text = t := text_of_slice? (cuts_iff_slice?.1 h)

theorem Cuts.exact (h : s.Cuts t) : s.Exact s.source := exact_of_slice? (cuts_iff_slice?.1 h)

theorem cuts_text (h : s.text ≠ "") : s.Cuts s.text := by
  cases hslice : Text.slice? s.source s.start s.stop with
  | none =>
    rw [text, hslice] at h
    exact absurd rfl h
  | some t =>
    rw [text_of_slice? hslice]
    exact cuts_iff_slice?.2 hslice

/-- Both ends divide the source, and what the second division has more in front is cut out. -/
theorem exists_cuts_iff :
    (∃ t, s.Cuts t) ↔ s.start ≤ s.stop ∧ Text.isBoundary s.source s.start = true ∧
      Text.isBoundary s.source s.stop = true := by
  constructor
  · rintro ⟨t, h⟩
    have hexact := h.exact
    exact ⟨hexact.le, hexact.start_boundary, hexact.stop_boundary⟩
  · rintro ⟨hle, hstart, hstop⟩
    obtain ⟨pre, post, hsource, hpre⟩ := Text.isBoundary_iff.1 hstart
    obtain ⟨pre', post', hsource', hpre'⟩ := Text.isBoundary_iff.1 hstop
    rw [hpre, hpre'] at hle
    obtain ⟨t, rfl, -⟩ := Text.append_eq_append_of_le (hsource.symm.trans hsource') hle
    exact ⟨t, pre, post', hsource', hpre, hpre'⟩

theorem text_ne_empty_iff :
    s.text ≠ "" ↔ s.start < s.stop ∧ Text.isBoundary s.source s.start = true ∧
      Text.isBoundary s.source s.stop = true := by
  constructor
  · intro h
    have hcuts := cuts_text h
    have hstop := hcuts.stop_eq
    rw [Ne, ← String.utf8ByteSize_eq_zero_iff] at h
    obtain ⟨-, hboundaries⟩ := exists_cuts_iff.1 ⟨_, hcuts⟩
    exact ⟨by omega, hboundaries⟩
  · rintro ⟨hlt, hboundaries⟩
    obtain ⟨t, ht⟩ := exists_cuts_iff.2 ⟨Nat.le_of_lt hlt, hboundaries⟩
    have hstop := ht.stop_eq
    rw [ht.text_eq, Ne, ← String.utf8ByteSize_eq_zero_iff]
    omega

theorem Cuts.append (h : Cuts ⟨source, a, b⟩ t) (h' : Cuts ⟨source, b, c⟩ u) :
    Cuts ⟨source, a, c⟩ (t ++ u) := by
  obtain ⟨pre, post, hsource, hstart, hmid⟩ := h
  obtain ⟨pre', post', hsource', hmid', hstop⟩ := h'
  -- At `b` the source is divided in one way only.
  have hleft : (Cursor.mk source b).Splits (pre ++ t) post := ⟨hsource, hmid⟩
  have hright : (Cursor.mk source b).Splits pre' (u ++ post') :=
    ⟨hsource'.trans String.append_assoc, hmid'⟩
  obtain ⟨rfl, -⟩ := hleft.unique hright
  refine ⟨pre, post', ?_, hstart, ?_⟩
  · rw [← String.append_assoc]
    exact hsource'
  · rw [← String.append_assoc]
    exact hstop

theorem text_append_text (hab : a ≤ b) (hbc : b ≤ c) (ha : Text.isBoundary source a = true)
    (hb : Text.isBoundary source b = true) (hc : Text.isBoundary source c = true) :
    (Span.mk source a b).text ++ (Span.mk source b c).text = (Span.mk source a c).text := by
  obtain ⟨t, ht⟩ := (exists_cuts_iff (s := ⟨source, a, b⟩)).2 ⟨hab, ha, hb⟩
  obtain ⟨u, hu⟩ := (exists_cuts_iff (s := ⟨source, b, c⟩)).2 ⟨hbc, hb, hc⟩
  rw [ht.text_eq, hu.text_eq, (ht.append hu).text_eq]

theorem text_of_ends (source : String) (a b : Nat) :
    (∀ t, (Span.mk source a b).text = t ∧ t ≠ "" ↔ (Span.mk source a b).Cuts t ∧ t ≠ "") ∧
    (∀ t, (Span.mk source a b).Cuts t → (Span.mk source a b).length? = some t.utf8ByteSize) ∧
    ((¬ ∃ t, (Span.mk source a b).Cuts t ∧ t ≠ "") → (Span.mk source a b).text = "") ∧
    ((Span.mk source a b).text ≠ "" ↔
      a < b ∧ Text.isBoundary source a = true ∧ Text.isBoundary source b = true) ∧
    ∀ c, a ≤ b → b ≤ c → Text.isBoundary source a = true → Text.isBoundary source b = true →
      Text.isBoundary source c = true →
      (Span.mk source a b).text ++ (Span.mk source b c).text = (Span.mk source a c).text := by
  refine ⟨fun t => ?_, fun t h => ?_, fun hnone => ?_, text_ne_empty_iff, fun c => text_append_text⟩
  · constructor
    · rintro ⟨rfl, hne⟩
      exact ⟨cuts_text hne, hne⟩
    · rintro ⟨h, hne⟩
      exact ⟨h.text_eq, hne⟩
  · rw [h.exact.length, h.text_eq]
  · by_cases hempty : (Span.mk source a b).text = ""
    · exact hempty
    · exact absurd ⟨_, cuts_text hempty, hempty⟩ hnone

/-- The ends cut out an accent, or reach into the sign behind it. -/
theorem text_of_ends_accent :
    (Span.mk "aé😀b" 1 3).Cuts "é" ∧ (Span.mk "aé😀b" 1 3).text = "é" ∧
      (Span.mk "aé😀b" 1 3).length? = some 2 ∧
      "é" ++ (Span.mk "aé😀b" 3 7).text = (Span.mk "aé😀b" 1 7).text ∧
      (¬ ∃ t, (Span.mk "aé😀b" 1 5).Cuts t ∧ t ≠ "") ∧ (Span.mk "aé😀b" 1 5).text = "" := by
  have hcuts : (Span.mk "aé😀b" 1 3).Cuts "é" := ⟨"a", "😀b", by decide, by decide, by decide⟩
  obtain ⟨htext, hlength, -, -, hjoin⟩ := text_of_ends "aé😀b" 1 3
  obtain ⟨-, -, hempty, -, -⟩ := text_of_ends "aé😀b" 1 5
  have hshown : (Span.mk "aé😀b" 1 3).text = "é" := ((htext "é").2 ⟨hcuts, by decide⟩).1
  have hall := hjoin 7 (by decide) (by decide) (by decide) (by decide) (by decide)
  rw [hshown] at hall
  have hnone : ¬ ∃ t, (Span.mk "aé😀b" 1 5).Cuts t ∧ t ≠ "" := by
    rintro ⟨t, ht, -⟩
    obtain ⟨-, -, hinside⟩ := exists_cuts_iff.1 ⟨t, ht⟩
    exact absurd hinside (by decide)
  exact ⟨hcuts, hshown, hlength "é" hcuts, hall, hnone, hempty hnone⟩

end Span
end Peg
