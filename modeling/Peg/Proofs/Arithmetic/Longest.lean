import Peg.Proofs.Arithmetic.Complete
import Peg.Proofs.Arithmetic.Sound
import Peg.Proofs.Arithmetic.WellFormed

/-!
# Peg.Proofs.Arithmetic.Longest

The parser of sums takes the longest word of the language in front.

* `Longest ops cs w`: `w` is the longest word with which `cs` begins.
* `plusMinus_reads_longest`: what the parser answers, with and without such a word.
-/

namespace Peg
namespace Arithmetic

open Grammar (Derives Answers Ends)

variable {α : Type} {ops : Ops α} {mark : List Char → List Char → Span} {cs w : List Char} {x : α}

structure Longest (ops : Ops α) (cs w : List Char) : Prop where
  word : Word ops w
  isPrefix : w <+: cs
  max : ∀ w', Word ops w' → w' <+: cs → w'.length ≤ w.length

theorem exists_longest (h : Word ops w) (hp : w <+: cs) : ∃ w, Longest ops cs w := by
  induction hk : cs.length - w.length using Nat.strongRecOn generalizing w with
  | ind k ih =>
    by_cases hmax : ∀ w', Word ops w' → w' <+: cs → w'.length ≤ w.length
    · exact ⟨w, h, hp, hmax⟩
    · push Not at hmax
      obtain ⟨w', hw', hp', hlt⟩ := hmax
      have hle := hp'.length_le
      exact ih (cs.length - w'.length) (by omega) hw' hp' rfl

namespace Longest

variable {rest : List Char}

theorem not_word (h : Longest ops (w ++ rest) w) {t left : List Char} (hne : t ≠ [])
    (ht : t ++ left = rest) : ¬ Word ops (w ++ t) := by
  intro hw
  have hp : w ++ t <+: w ++ rest := by
    rw [← ht, ← List.append_assoc]
    exact List.prefix_append _ _
  have hle := h.max _ hw hp
  have hpos := List.length_pos_iff.2 hne
  rw [List.length_append] at hle
  omega

theorem follows (h : Longest ops (w ++ rest) w) : Follows w rest := by
  intro d hd hdigit ch hch
  cases rest with
  | nil => cases hch
  | cons e rest =>
    cases hch
    rw [Bool.eq_false_iff]
    intro hch
    obtain ⟨x, hx⟩ := h.word
    have hlast : ∀ e ∈ w.getLast?, CharClass.isDigit (some e) = true := by
      intro e he
      rw [Option.mem_unique he hd]
      exact hdigit
    exact h.not_word (List.cons_ne_nil ch []) rfl (hx.grow_digit hch hlast)

/-- A tail behind the longest word would make it longer. -/
theorem tail_fails {op₁ op₂ : Char} {operand : Rule} {sym : Symbol} (h : Longest ops (w ++ rest) w)
    (hends : Ends (body? ops) mark (tail op₁ op₂ operand) rest)
    (hsound : ∀ ds, SoundAt ops mark operand sym ds)
    (hgrow : ∀ u op v w' y, (op = op₁ ∨ op = op₂) → Spaces u → Spaces v → Phrase ops sym w' y →
      Word ops (w ++ (u ++ op :: (v ++ w')))) :
    TailFails ops mark op₁ op₂ operand rest := by
  obtain ⟨o, ho⟩ := hends
  cases o with
  | fail cause left => exact ⟨cause, left, ho⟩
  | ok v left =>
    obtain ⟨u, op, v, mid, z, hrest, hop, hu, hv, hz, -⟩ := of_tail ho
    obtain ⟨w', y, rfl, -, hw'⟩ := hsound mid z left hz
    have ht : (u ++ op :: (v ++ w')) ++ left = rest := by simpa using hrest
    exact absurd (hgrow u op v w' y hop hu hv hw') (h.not_word (by simp) ht)

theorem productTail_fails (h : Longest ops (w ++ rest) w) :
    TailFails ops mark '*' '/' terminal rest := by
  obtain ⟨x, hx⟩ := h.word
  refine h.tail_fails (ends_productTail rest) (fun ds => sound_terminal fun es _ => ?_) ?_
  · exact sound_plusMinus es
  · exact fun u op v w' y hop hu hv hw' => hx.grow_product hop hu hv hw'

theorem sumTail_fails (h : Longest ops (w ++ rest) w) :
    TailFails ops mark '+' '-' timesDivision rest := by
  obtain ⟨x, hx⟩ := h.word
  refine h.tail_fails (ends_sumTail rest) (fun ds => sound_timesDivision fun es _ => ?_) ?_
  · exact sound_terminal fun fs _ => sound_plusMinus fs
  · exact fun u op v w' y hop hu hv hw' => ⟨_, hx.sum hop hu hv hw'⟩

/-- Nothing behind the longest word goes on with it, so it is read to its end and no further. -/
theorem derives (h : Longest ops (w ++ rest) w) (hx : Phrase ops .plusMinus w x) :
    Derives (body? ops) mark (.rule plusMinus) (w ++ rest) (.ok (.num x) rest) :=
  hx.reads rest rest [] h.follows h.productTail_fails h.sumTail_fails.stop

end Longest

theorem longest_self (h : Word ops w) : Longest ops w w :=
  ⟨h, List.prefix_rfl, fun _ _ hp => hp.length_le⟩

theorem complete_iff_phrase {source : String} {v : Value α} :
    (∃ fuel log, Parser.complete (Grammar.eval (env ops) fuel (.rule plusMinus)) source () =
        some ⟨.ok (.ok v), log, ()⟩) ↔
      ∃ x, v = .num x ∧ Phrase ops .plusMinus source.toList x := by
  unfold env
  rw [Grammar.complete_iff_derives]
  constructor
  · intro h
    obtain ⟨w, x, hw, rfl, hx⟩ := sound_plusMinus _ _ _ h
    rw [List.append_nil] at hw
    rw [← hw]
    exact ⟨x, rfl, hx⟩
  · rintro ⟨x, rfl, hx⟩
    have hl : Longest ops (source.toList ++ []) source.toList := by
      rw [List.append_nil]
      exact longest_self ⟨x, hx⟩
    have hd : Derives (body? ops) (Span.between source) (.rule plusMinus) (source.toList ++ [])
        (.ok (.num x) []) := hl.derives hx
    rw [List.append_nil] at hd
    exact hd

variable {c : Cursor}

/-- A word has one value only, since all its derivations lead to the answer of the parser. -/
theorem Longest.answers (hc : c.Valid) (h : Longest ops c.remaining.toList w) :
    ∃ x d, Answers (body? ops) (.rule plusMinus) c (.ok (.num x) d) ∧
      w ++ d.remaining.toList = c.remaining.toList ∧ ∀ y, Phrase ops .plusMinus w y ↔ y = x := by
  obtain ⟨x, hx⟩ := h.word
  obtain ⟨rest, hrest⟩ := h.isPrefix
  rw [← hrest] at h
  have hans : ∀ y, Phrase ops .plusMinus w y → ∃ d,
      Answers (body? ops) (.rule plusMinus) c (.ok (.num y) d) ∧ d.remaining.toList = rest := by
    intro y hy
    rw [Grammar.answers_ok_iff hc, ← hrest]
    exact h.derives hy
  obtain ⟨d, hd, hleft⟩ := hans x hx
  refine ⟨x, d, hd, by rw [hleft, hrest], fun y => ⟨fun hy => ?_, fun hy => hy ▸ hx⟩⟩
  obtain ⟨d', hd', -⟩ := hans y hy
  cases hd'.unique hd
  rfl

theorem answers_of_no_word (hc : c.Valid) (h : ∀ w, Word ops w → ¬ w <+: c.remaining.toList) :
    Answers (body? ops) (.rule plusMinus) c (.fail (.ofCursor .noAlternative c)) := by
  have hends : Ends (body? ops) (Span.between c.source) (.rule plusMinus) c.remaining.toList :=
    ends_plusMinus _
  obtain ⟨o, ho⟩ := hends
  cases o with
  | ok v rest =>
    obtain ⟨w, x, hw, -, hx⟩ := sound_plusMinus _ _ _ ho
    exact absurd ⟨rest, hw⟩ (h w ⟨x, hx⟩)
  | fail cause rest =>
    obtain ⟨rfl, rfl⟩ := fail_plusMinus ho
    refine (Grammar.answers_iff hc).2 ⟨_, ho, ?_⟩
    rw [Grammar.Outcome.answer, ← hc.eq_before]

theorem plusMinus_reads_longest (ops : Ops α) {c : Cursor} (hc : c.Valid) :
    (∃ a, Answers (body? ops) (.rule plusMinus) c a) ∧
    ((∃ w, Word ops w ∧ w <+: c.remaining.toList) →
      ∃ w x d, Longest ops c.remaining.toList w ∧
        Answers (body? ops) (.rule plusMinus) c (.ok (.num x) d) ∧
        w ++ d.remaining.toList = c.remaining.toList ∧
        ∀ y, Phrase ops .plusMinus w y ↔ y = x) ∧
    ((∀ w, Word ops w → ¬ w <+: c.remaining.toList) →
      Answers (body? ops) (.rule plusMinus) c (.fail (.ofCursor .noAlternative c))) ∧
    (∀ source v, (∃ fuel log, Parser.complete (Grammar.eval (env ops) fuel (.rule plusMinus))
        source () = some ⟨.ok (.ok v), log, ()⟩) ↔
      ∃ x, v = .num x ∧ Phrase ops .plusMinus source.toList x) := by
  refine ⟨?_, ?_, answers_of_no_word hc, fun _ _ => complete_iff_phrase⟩
  · obtain ⟨o, ho⟩ := ends_plusMinus c.remaining.toList
    exact ⟨_, (Grammar.answers_iff hc).2 ⟨o, ho, rfl⟩⟩
  · rintro ⟨w₀, hw₀, hp⟩
    obtain ⟨w, hw⟩ := exists_longest hw₀ hp
    obtain ⟨x, d, hd, hrest, hunique⟩ := hw.answers hc
    exact ⟨w, x, d, hw, hd, hrest, hunique⟩

def intOps : Ops Int where
  ofNat := Int.ofNat
  add := (· + ·)
  sub := (· - ·)
  mul := (· * ·)
  div := (· / ·)
  neg := (- ·)

/-- A sum of which the second operand is never closed. -/
theorem plusMinus_reads_longest_unclosed :
    (⟨"é-1 + (2", 2⟩ : Cursor).Valid ∧ Word intOps ['-', '1'] ∧
      ∃ w x d, Longest intOps ['-', '1', ' ', '+', ' ', '(', '2'] w ∧
        Answers (body? intOps) (.rule plusMinus) ⟨"é-1 + (2", 2⟩ (.ok (.num x) d) ∧
        w ++ d.remaining.toList = ['-', '1', ' ', '+', ' ', '(', '2'] := by
  have hc : (⟨"é-1 + (2", 2⟩ : Cursor).Valid := by decide
  have hword : Word intOps ['-', '1'] := ⟨_, .term (.factor (.number (.signed (.digit rfl))))⟩
  have hremaining : (⟨"é-1 + (2", 2⟩ : Cursor).remaining.toList =
      ['-', '1', ' ', '+', ' ', '(', '2'] := by decide
  obtain ⟨-, hlongest, -, -⟩ := plusMinus_reads_longest intOps hc
  rw [hremaining] at hlongest
  obtain ⟨w, x, d, hw, hd, hrest, -⟩ := hlongest ⟨_, hword, ⟨[' ', '+', ' ', '(', '2'], rfl⟩⟩
  exact ⟨hc, hword, w, x, d, hw, hd, hrest⟩

end Arithmetic
end Peg
