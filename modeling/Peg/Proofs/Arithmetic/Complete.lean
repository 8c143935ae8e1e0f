import Peg.Proofs.Arithmetic.Chain

/-!
# Peg.Proofs.Arithmetic.Complete

Each phrase of the language is read by the rule of its symbol, to its end and with its value, if the
text behind it does not go on with the phrase.

* `Follows w rest`: no digit follows a digit where `w` ends.
* `Reads ops mark sym w x`: what is derived from `w`. For sums and products it is said with the run of
  tails that is read behind `w`, so that it passes from a chain to one with one more operand.
* `Phrase.reads`: all phrases are read so.
-/

namespace Peg
namespace Arithmetic

open Grammar (Derives)

variable {α : Type} {ops : Ops α} {mark : List Char → List Char → Span} {w rest : List Char} {x : α}

/-! ## What may follow a phrase -/

def Follows (w rest : List Char) : Prop :=
  ∀ d ∈ w.getLast?, CharClass.isDigit (some d) = true →
    ∀ ch ∈ rest.head?, CharClass.isDigit (some ch) = false

theorem Follows.operand {u v w' : List Char} {op : Char}
    (h : Follows (w ++ (u ++ op :: (v ++ w'))) rest) (hne : w' ≠ []) : Follows w' rest := by
  unfold Follows at h
  rw [Phrase.getLast?_operation op hne] at h
  exact h

theorem follows_operator {u cs : List Char} {op : Char} (hu : Spaces u)
    (hop : CharClass.isDigit (some op) = false) : Follows w (u ++ op :: cs) := by
  intro d _ _ ch hch
  cases u with
  | nil =>
    cases hch
    exact hop
  | cons s u =>
    cases hch
    exact not_isDigit_of_isSpace (hu _ List.mem_cons_self)

theorem Follows.not_isDigit (h : Follows w rest) (hw : Phrase ops .digits w x) :
    ∀ ch ∈ rest.head?, CharClass.isDigit (some ch) = false := by
  obtain ⟨hne, hall, -⟩ := phrase_digits_iff.1 hw
  exact h _ (List.getLast?_eq_some_getLast hne) (hall _ (List.getLast_mem hne))

/-! ## Numbers -/

theorem derives_number_body {sign : Value α} {cs : List Char} (hw : Phrase ops .digits w x)
    (hrest : ∀ ch ∈ rest.head?, CharClass.isDigit (some ch) = false)
    (hsign : Derives (body? ops) mark (.optional (.char '-')) cs (.ok sign (w ++ rest))) :
    Derives (body? ops) mark (.rule number) cs
      (.ok (ofSignDigits ops (.pair sign (.list (w.map .char)))) rest) := by
  obtain ⟨hne, hall, -⟩ := phrase_digits_iff.1 hw
  have hdigits : Derives (body? ops) mark (.many1 (.single CharClass.isDigit)) (w ++ rest)
      (.ok (.list (w.map .char)) rest) := Derives.many1_single hne hall hrest
  exact .rule rfl (.map (hsign.andNext hdigits))

theorem derives_unsigned (hw : Phrase ops .digits w x)
    (hrest : ∀ ch ∈ rest.head?, CharClass.isDigit (some ch) = false) :
    Derives (body? ops) mark (.rule number) (w ++ rest) (.ok (.num x) rest) := by
  obtain ⟨hne, hall, hx⟩ := phrase_digits_iff.1 hw
  have hsign : Derives (body? ops) mark (.optional (.char '-')) (w ++ rest)
      (.ok .none (w ++ rest)) := by
    cases w with
    | nil => exact absurd rfl hne
    | cons d w =>
      refine .optionalNone (char_miss ?_)
      rintro rfl
      exact absurd (hall '-' List.mem_cons_self) (by decide)
  have hd := derives_number_body hw hrest hsign
  rw [ofSignDigits_none, ← hx] at hd
  exact hd

theorem derives_signed (hw : Phrase ops .digits w x)
    (hrest : ∀ ch ∈ rest.head?, CharClass.isDigit (some ch) = false) :
    Derives (body? ops) mark (.rule number) ('-' :: (w ++ rest)) (.ok (.num (ops.neg x)) rest) := by
  obtain ⟨-, -, hx⟩ := phrase_digits_iff.1 hw
  have hsign : Derives (body? ops) mark (.optional (.char '-')) ('-' :: (w ++ rest))
      (.ok (.some (.char '-')) (w ++ rest)) := .optionalSome char_ok
  have hd := derives_number_body hw hrest hsign
  rw [ofSignDigits_some, ← hx] at hd
  exact hd

theorem number_fails {cs : List Char} :
    Derives (body? ops) mark (.rule number) ('(' :: cs) (.fail .atLeastOne ('(' :: cs)) := by
  have hsign : Derives (body? ops) mark (.optional (.char '-')) ('(' :: cs)
      (.ok .none ('(' :: cs)) := .optionalNone (char_miss (by decide))
  have hdigits : Derives (body? ops) mark (.many1 (.single CharClass.isDigit)) ('(' :: cs)
      (.fail .atLeastOne ('(' :: cs)) := .many1Fail (.singleMiss rfl)
  exact .rule rfl (.map (hsign.andNext hdigits))

/-! ## Phrases -/

def TailFails (ops : Ops α) (mark : List Char → List Char → Span) (op₁ op₂ : Char) (operand : Rule)
    (rest : List Char) : Prop :=
  ∃ cause left, Derives (body? ops) mark (tail op₁ op₂ operand) rest (.fail cause left)

def Reads (ops : Ops α) (mark : List Char → List Char → Span) : Symbol → List Char → α → Prop
  | .digits, w, x => Phrase ops .digits w x
  | .number, w, x => ∀ rest, Follows w rest →
      Derives (body? ops) mark (.rule number) (w ++ rest) (.ok (.num x) rest)
  | .terminal, w, x => ∀ rest, Follows w rest →
      Derives (body? ops) mark (.rule terminal) (w ++ rest) (.ok (.num x) rest)
  | .timesDivision, w, x => ∀ rest left vs, Follows w rest →
      Derives (body? ops) mark (.many0 (tail '*' '/' terminal)) rest (.ok (.list vs) left) →
      Derives (body? ops) mark (.rule timesDivision) (w ++ rest)
        (.ok (.num (vs.foldl (applyTail ops fun c => if c = '*' then ops.mul else ops.div) x)) left)
  | .plusMinus, w, x => ∀ rest left vs, Follows w rest →
      TailFails ops mark '*' '/' terminal rest →
      Derives (body? ops) mark (.many0 (tail '+' '-' timesDivision)) rest (.ok (.list vs) left) →
      Derives (body? ops) mark (.rule plusMinus) (w ++ rest)
        (.ok (.num (vs.foldl (applyTail ops fun c => if c = '+' then ops.add else ops.sub) x)) left)

theorem TailFails.stop {op₁ op₂ : Char} {operand : Rule}
    (h : TailFails ops mark op₁ op₂ operand rest) :
    Derives (body? ops) mark (.many0 (tail op₁ op₂ operand)) rest (.ok (.list []) rest) := by
  obtain ⟨cause, left, h⟩ := h
  exact .many0Stop h

namespace Reads

variable {u v w' : List Char} {op : Char} {y : α}

theorem paren (h : Reads ops mark .plusMinus w x) :
    Reads ops mark .terminal ('(' :: (w ++ [')'])) x := by
  intro rest _
  have hfollows : Follows w (')' :: rest) := follows_operator (u := []) (by simp [Spaces]) rfl
  have hproduct : TailFails ops mark '*' '/' terminal (')' :: rest) :=
    tail_fails (u := []) (by simp [Spaces]) rfl (by decide) (by decide)
  have hsum : TailFails ops mark '+' '-' timesDivision (')' :: rest) :=
    tail_fails (u := []) (by simp [Spaces]) rfl (by decide) (by decide)
  have hinner := h (')' :: rest) (')' :: rest) [] hfollows hproduct hsum.stop
  have hparen : Derives (body? ops) mark
      (.map (fun v => v.first.second) (.and (.and (.char '(') (.rule plusMinus)) (.char ')')))
      ('(' :: (w ++ ')' :: rest)) (.ok (.num x) rest) :=
    .map ((char_ok.andNext hinner).andNext char_ok)
  have hshape : '(' :: (w ++ [')']) ++ rest = '(' :: (w ++ ')' :: rest) := by simp
  rw [hshape]
  exact .rule rfl (.alternativeNext number_fails (.alternativeHit hparen))

theorem product (h : Reads ops mark .timesDivision w x) (hop : op = '*' ∨ op = '/')
    (hu : Spaces u) (hv : Spaces v) (hp : Phrase ops .terminal w' y)
    (hy : Reads ops mark .terminal w' y) :
    Reads ops mark .timesDivision (w ++ (u ++ op :: (v ++ w')))
      ((if op = '*' then ops.mul else ops.div) x y) := by
  intro rest left vs hfollows htail
  have hdigit : CharClass.isDigit (some op) = false := by
    rcases hop with rfl | rfl <;> rfl
  have hspace : CharClass.isSpace (some op) = false := by
    rcases hop with rfl | rfl <;> rfl
  have hoperand := hy rest (hfollows.operand hp.ne_nil)
  have hstep := derives_tail hop hspace hu hv (hp.head_not_isSpace rest) hoperand
  have hd := h _ left _ (follows_operator hu hdigit) (hstep.many0More htail)
  simpa [applyTail, numOf] using hd

theorem sum (h : Reads ops mark .plusMinus w x) (hop : op = '+' ∨ op = '-')
    (hu : Spaces u) (hv : Spaces v) (hp : Phrase ops .timesDivision w' y)
    (hy : Reads ops mark .timesDivision w' y) :
    Reads ops mark .plusMinus (w ++ (u ++ op :: (v ++ w')))
      ((if op = '+' then ops.add else ops.sub) x y) := by
  intro rest left vs hfollows hproduct htail
  have hdigit : CharClass.isDigit (some op) = false := by
    rcases hop with rfl | rfl <;> rfl
  have hspace : CharClass.isSpace (some op) = false := by
    rcases hop with rfl | rfl <;> rfl
  have hoperand := hy rest rest [] (hfollows.operand hp.ne_nil) hproduct.stop
  have hstep := derives_tail hop hspace hu hv (hp.head_not_isSpace rest) hoperand
  have hbefore : TailFails ops mark '*' '/' terminal (u ++ op :: (v ++ (w' ++ rest))) := by
    rcases hop with rfl | rfl
    · exact tail_fails hu rfl (by decide) (by decide)
    · exact tail_fails hu rfl (by decide) (by decide)
  have hd := h _ left _ (follows_operator hu hdigit) hbefore (hstep.many0More htail)
  simpa [applyTail, numOf] using hd

end Reads

/-- By rule induction. An operator behind an operand is no digit, so the operand is read alone. -/
theorem Phrase.reads {sym : Symbol} (h : Phrase ops sym w x) : Reads ops mark sym w x := by
  induction h with
  | digit hd => exact .digit hd
  | moreDigits h hd _ => exact .moreDigits h hd
  | unsigned h _ => exact fun rest hfollows => derives_unsigned h (hfollows.not_isDigit h)
  | signed h _ =>
    intro rest hfollows
    unfold Follows at hfollows
    rw [List.getLast?_cons_of_ne_nil h.ne_nil] at hfollows
    exact derives_signed h (Follows.not_isDigit hfollows h)
  | number _ ih => exact fun rest hfollows => .rule rfl (.alternativeHit (ih rest hfollows))
  | paren _ ih => exact ih.paren
  | factor _ ih =>
    intro rest left vs hfollows htail
    exact .rule rfl (derives_chain (ih rest hfollows) htail)
  | times _ hu hv h' ih ih' => exact ih.product (.inl rfl) hu hv h' ih'
  | divide _ hu hv h' ih ih' => exact ih.product (.inr rfl) hu hv h' ih'
  | term _ ih =>
    intro rest left vs hfollows hproduct htail
    exact .rule rfl (derives_chain (ih rest rest [] hfollows hproduct.stop) htail)
  | plus _ hu hv h' ih ih' => exact ih.sum (.inl rfl) hu hv h' ih'
  | minus _ hu hv h' ih ih' => exact ih.sum (.inr rfl) hu hv h' ih'

end Arithmetic
end Peg
