import Peg.Proofs.Grammar.Nullable
import Peg.Proofs.Semantics.Derives

/-!
# Peg.Proofs.Semantics.Progress

A grammar that is not nullable reads at least one character when it succeeds.
-/

namespace Peg
namespace Grammar

variable {α : Type} {body? : Nat → Option (Grammar Empty Empty α)}
  {mark : List Char → List Char → Span}

/-- By rule induction. Where a part is nullable, what the whole reads is read by the others. -/
theorem Derives.nullable_or_lt {g : Grammar Empty Empty α} {cs rest : List Char} {v : Value α}
    (h : Derives body? mark g cs (.ok v rest)) :
    Nullable body? g ∨ rest.length < cs.length := by
  generalize ho : Outcome.ok v rest = o at h
  induction h generalizing v rest with
  | single _ =>
    cases ho
    exact .inr (by simp)
  | eof => exact .inl .eof
  | seqNil => exact .inl (.seq (by simp))
  | seqCons h₁ h₂ ih₁ ih₂ =>
    cases ho
    have hle₁ := h₁.length_le
    have hle₂ := h₂.length_le
    rcases ih₁ rfl with hn | hlt
    · rcases ih₂ rfl with hns | hlt
      · exact .inl (nullable_seq.2 (List.forall_mem_cons.2 ⟨hn, nullable_seq.1 hns⟩))
      · exact .inr (by omega)
    · exact .inr (by omega)
  | alternativeHit _ ih =>
    rcases ih ho with hn | hlt
    · exact .inl (.alternative List.mem_cons_self hn)
    · exact .inr hlt
  | alternativeNext _ _ _ ih =>
    rcases ih ho with hn | hlt
    · obtain ⟨g, hm, hn⟩ := nullable_alternative.1 hn
      exact .inl (.alternative (List.mem_cons_of_mem _ hm) hn)
    · exact .inr hlt
  | @andNext a b w cs mid o h₁ h₂ ih₁ ih₂ =>
    cases o with
    | fail cause left => cases ho
    | ok u left =>
      cases ho
      have hle₁ := h₁.length_le
      have hle₂ := h₂.length_le
      rcases ih₁ rfl with hn | hlt
      · rcases ih₂ rfl with hn' | hlt
        · exact .inl (.and hn hn')
        · exact .inr (by omega)
      · exact .inr (by omega)
  | orLeft _ ih => exact (ih ho).imp_left .orLeft
  | orRight _ _ _ ih => exact (ih ho).imp_left .orRight
  | optionalSome _ _ => exact .inl .optional
  | optionalNone _ _ => exact .inl .optional
  | many0Stop _ _ => exact .inl .many0
  | many0More _ _ _ _ => exact .inl .many0
  | many1 h₁ h₂ ih₁ _ =>
    cases ho
    have hle₂ := h₂.length_le
    rcases ih₁ rfl with hn | hlt
    · exact .inl (.many1 hn)
    · exact .inr (by omega)
  | not _ _ => exact .inl .not
  | @map f g cs o _ ih =>
    cases o with
    | fail cause left => cases ho
    | ok u left =>
      cases ho
      exact (ih rfl).imp_left .map
  | span _ ih =>
    cases ho
    exact (ih rfl).imp_left .span
  | otherwise _ ih => exact (ih ho).imp_left (.otherwise rfl)
  | @armStep a arms ow w cs mid o h₁ h₂ ih₁ ih₂ =>
    cases o with
    | fail cause left => cases ho
    | ok u left =>
      cases ho
      have hle₁ := h₁.length_le
      have hle₂ := h₂.length_le
      rcases ih₂ rfl with hn | hlt
      · by_cases hc : a.consume = true
        · rw [if_pos hc] at hle₂
          rcases ih₁ rfl with hn' | hlt
          · exact .inl (.arm List.mem_cons_self (fun _ => hn') hn)
          · exact .inr (by omega)
        · exact .inl (.arm List.mem_cons_self (fun ht => absurd ht hc) hn)
      · split at hlt
        · exact .inr (by omega)
        · exact .inr hlt
  | armNext _ _ _ ih =>
    rcases ih ho with hn | hlt
    · rcases nullable_lookahead.1 hn with ⟨a, hm, hl, hs⟩ | ⟨g, hg, hn⟩
      · exact .inl (.arm (List.mem_cons_of_mem _ hm) hl hs)
      · exact .inl (.otherwise hg hn)
    · exact .inr hlt
  | rule hb _ ih => exact (ih ho).imp_left (.rule hb)
  | _ => cases ho

end Grammar
end Peg
