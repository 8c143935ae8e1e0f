import Peg.Proofs.Arithmetic.Chain

/-!
# Peg.Proofs.Arithmetic.Sound

What the rules read is a phrase of the language, and their value is its value.

* `SoundAt ops mark r sym cs`: from `cs`, the rule `r` reads nothing but phrases of `sym`.
* `sound_plusMinus`: by induction on the length of the text, since a sum in parentheses is shorter than
  what it is a part of.
* `fail_plusMinus`: where a sum fails.
-/

namespace Peg
namespace Arithmetic

open Grammar (Derives)

variable {α : Type} {ops : Ops α} {mark : List Char → List Char → Span} {cs : List Char}

def SoundAt (ops : Ops α) (mark : List Char → List Char → Span) (r : Rule) (sym : Symbol)
    (cs : List Char) : Prop :=
  ∀ v rest, Derives (body? ops) mark (.rule r) cs (.ok v rest) →
    ∃ w x, w ++ rest = cs ∧ v = .num x ∧ Phrase ops sym w x

theorem sound_number (cs : List Char) : SoundAt ops mark number .number cs := by
  intro v rest h
  obtain ⟨b, hb, h⟩ := h.rule_body
  cases hb
  obtain ⟨z, hz, rfl⟩ := h.map_ok
  obtain ⟨sign, mid, y, hsign, hy, rfl⟩ := hz.and_ok
  obtain ⟨w, hne, rfl, hall, rfl⟩ := hy.of_many1_single
  have hw : Phrase ops .digits w (magnitude ops w) := phrase_digits_iff.2 ⟨hne, hall, rfl⟩
  cases hsign with
  | optionalSome hminus =>
    obtain ⟨rfl, rfl⟩ := of_char hminus
    exact ⟨'-' :: w, _, rfl, ofSignDigits_some _ w, .signed hw⟩
  | optionalNone _ => exact ⟨w, _, rfl, ofSignDigits_none w, .unsigned hw⟩

theorem sound_terminal
    (h : ∀ ds, ds.length < cs.length → SoundAt ops mark plusMinus .plusMinus ds) :
    SoundAt ops mark terminal .terminal cs := by
  intro v rest hd
  obtain ⟨b, hb, hd⟩ := hd.rule_body
  cases hb
  obtain ⟨g, hg, hd⟩ := hd.alternative_ok
  simp only [List.mem_cons, List.not_mem_nil, or_false] at hg
  rcases hg with rfl | rfl
  · obtain ⟨w, x, rfl, rfl, hw⟩ := sound_number cs v rest hd
    exact ⟨w, x, rfl, rfl, .number hw⟩
  · obtain ⟨z, hz, rfl⟩ := hd.map_ok
    obtain ⟨y, mid, close, hy, hclose, rfl⟩ := hz.and_ok
    obtain ⟨opening, inner, a, hopen, ha, rfl⟩ := hy.and_ok
    obtain ⟨rfl, rfl⟩ := of_char hopen
    obtain ⟨rfl, rfl⟩ := of_char hclose
    obtain ⟨w, x, rfl, rfl, hw⟩ := h inner (by simp) a _ ha
    exact ⟨'(' :: (w ++ [')']), x, by simp, rfl, .paren hw⟩

theorem sound_timesDivision
    (h : ∀ ds, ds.length ≤ cs.length → SoundAt ops mark terminal .terminal ds) :
    SoundAt ops mark timesDivision .timesDivision cs := by
  intro v rest hd
  obtain ⟨b, hb, hd⟩ := hd.rule_body
  cases hb
  refine of_chain (fun ds v left hds => h ds hds v left) ?_ ?_ hd
  · exact fun w x hw => .factor hw
  · exact fun w x op u v w' y hw hop hu hv hw' => hw.product hop hu hv hw'

theorem sound_plusMinus (cs : List Char) : SoundAt ops mark plusMinus .plusMinus cs := by
  induction hlen : cs.length using Nat.strongRecOn generalizing cs with
  | ind n ih =>
    subst hlen
    intro v rest hd
    obtain ⟨b, hb, hd⟩ := hd.rule_body
    cases hb
    have hoperand : ∀ ds, ds.length ≤ cs.length →
        SoundAt ops mark timesDivision .timesDivision ds := by
      intro ds hds
      refine sound_timesDivision fun es hes => sound_terminal fun fs hfs => ?_
      exact ih fs.length (by omega) fs rfl
    refine of_chain (fun ds v left hds => hoperand ds hds v left) ?_ ?_ hd
    · exact fun w x hw => .term hw
    · exact fun w x op u v w' y hw hop hu hv hw' => hw.sum hop hu hv hw'

theorem fail_plusMinus {cause : Cause} {rest : List Char}
    (h : Derives (body? ops) mark (.rule plusMinus) cs (.fail cause rest)) :
    cause = .noAlternative ∧ rest = cs := by
  obtain ⟨b, hb, h⟩ := h.rule_body
  cases hb
  obtain ⟨b, hb, h⟩ := (of_chain_fail h).rule_body
  cases hb
  obtain ⟨b, hb, h⟩ := (of_chain_fail h).rule_body
  cases hb
  exact h.alternative_fail

end Arithmetic
end Peg
