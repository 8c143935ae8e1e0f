import Peg.Parser.Choice
import Peg.Parser.Lookahead
import Peg.Parser.Repeat
import Peg.Proofs.Cursor.Reaches
import Peg.Proofs.Parsing.Ensures

/-!
# Peg.Proofs.Parser.Confined

Parsers that stay in the text from their cursor on.

* `Parser.Confined E p`: from a valid cursor, `p` stops and fails only at places that the cursor
  reaches, enters rules only there, and aborts only at rules in `E`.

Every combinator keeps this. A parser that runs from a place which the first cursor reaches does
nothing that it could not do from the first cursor (`Confined.behind`); that carries the proof
through sequences, rewinds and repetitions alike.
-/

namespace Peg

/-- The answer stops or fails at a place that `c` reaches. -/
def Answer.From {β : Type} (c : Cursor) : Answer β → Prop
  | .ok _ d => c.Reaches d
  | .fail e => c.Reaches e.cursor

/-- If the record tells of a rule, the rule was entered at a place that `c` reaches. -/
def Record.From (c : Cursor) : Record → Prop
  | .entering _ o => c.Reaches ⟨c.source, o⟩
  | _ => True

theorem Answer.From.mono {β : Type} {c d : Cursor} (h : c.Reaches d) {a : Answer β}
    (ha : a.From d) : a.From c := by
  cases a with
  | ok v e => exact h.trans ha
  | fail e => exact h.trans ha

theorem Record.From.mono {c d : Cursor} (h : c.Reaches d) {e : Record} (he : e.From d) :
    e.From c := by
  cases e with
  | entering name o =>
    have hr := h.trans he
    rw [h.source] at hr
    exact hr
  | _ => trivial

namespace Parser

open Parsing (Ensures)

variable {σ β γ δ : Type} {E : Rule → Prop}

def Confined (E : Rule → Prop) (p : Parser σ β) : Prop :=
  ∀ c, c.Valid → Ensures (Record.From c) E (Answer.From c) (p c)

namespace Confined

variable {p : Parser σ β} {q : Parser σ γ} {c d : Cursor}

/-- Whatever `p` does from `d` is allowed from a cursor that reaches `d`. -/
theorem behind (hp : Confined E p) (h : c.Reaches d) :
    Ensures (Record.From c) E (Answer.From c) (p d) :=
  (hp d h.valid).mono (fun _ => Record.From.mono h) (fun _ => id) fun _ => Answer.From.mono h

theorem succeed (v : β) : Confined E (succeed v : Parser σ β) := fun _ hc => .pure (.refl hc)

theorem refuse (cause : Cause) : Confined E (refuse cause : Parser σ β) := by
  intro c hc
  exact .pure (Cursor.Reaches.refl hc)

theorem andThen {f : β → Parser σ γ} (hp : Confined E p) (hf : ∀ v, Confined E (f v)) :
    Confined E (p.andThen f) := by
  intro c hc
  refine (hp c hc).bind fun a ha => ?_
  cases a with
  | ok v d => exact (hf v).behind ha
  | fail e => exact .pure ha

theorem map (f : β → γ) (hp : Confined E p) : Confined E (p.map f) := by
  intro c hc
  refine Ensures.map _ ((hp c hc).mono (fun _ => id) (fun _ => id) fun a ha => ?_)
  cases a <;> exact ha

theorem single (test : Option Char → Bool) : Confined E (single test : Parser σ Char) := by
  intro c hc
  unfold Parser.single
  cases c.peek with
  | none => exact refuse .predicate c hc
  | some ch =>
    dsimp only
    split
    · exact (succeed ch).behind (.next hc)
    · exact refuse .predicate c hc

theorem eof : Confined E (eof : Parser σ Unit) := by
  intro c hc
  unfold Parser.eof
  split
  · exact succeed () c hc
  · exact refuse .endOfInput c hc

theorem and (hp : Confined E p) (hq : Confined E q) : Confined E (p.and q) :=
  hp.andThen fun _ => hq.map _

theorem seq {ps : List (Parser σ β)} (h : ∀ p ∈ ps, Confined E p) : Confined E (seq ps) := by
  induction ps with
  | nil => exact succeed []
  | cons p ps ih =>
    have hp := h p (by simp)
    have hps := ih fun q hq => h q (by simp [hq])
    exact hp.andThen fun _ => hps.map _

theorem withSpan (hp : Confined E p) : Confined E p.withSpan := by
  intro c hc
  refine (hp c hc).bind fun a ha => ?_
  cases a <;> exact .pure ha

theorem invoke {r : Rule} {body : Option (Parser σ β)} (hr : body = none → E r)
    (hb : ∀ p, body = some p → Confined E p) : Confined E (invoke r body) := by
  intro c hc
  cases body with
  | none => exact .abort (hr rfl)
  | some p =>
    have hrec : Record.From c (.entering r.name c.offset) := Cursor.Reaches.refl hc
    exact (Ensures.emit hrec).bind fun _ _ => hb p rfl c hc

theorem alternative {ps : List (Parser σ β)} (h : ∀ p ∈ ps, Confined E p) :
    Confined E (alternative ps) := by
  induction ps with
  | nil => exact refuse .noAlternative
  | cons p ps ih =>
    intro c hc
    refine (h p (by simp) c hc).bind fun a ha => ?_
    cases a with
    | ok v d => exact .pure ha
    | fail e => exact ih (fun q hq => h q (by simp [hq])) c hc

theorem or {q : Parser σ β} (hp : Confined E p) (hq : Confined E q) : Confined E (p.or q) := by
  intro c hc
  refine (hp c hc).bind fun a ha => ?_
  cases a with
  | ok v d => exact .pure ha
  | fail e =>
    refine (hq c hc).bind fun b hb => ?_
    cases b with
    | ok v d => exact .pure hb
    | fail e' => exact refuse .noAlternative c hc

theorem optional (hp : Confined E p) : Confined E p.optional := by
  intro c hc
  refine (hp c hc).bind fun a ha => ?_
  cases a with
  | ok v d => exact .pure ha
  | fail e => exact succeed none c hc

theorem not (hp : Confined E p) : Confined E p.not := by
  intro c hc
  refine (hp c hc).bind fun a _ => ?_
  cases a with
  | ok v d => exact refuse .unexpectedMatch c hc
  | fail e => exact succeed () c hc

/-- Each round starts where the one before it stopped, so all of them stay behind `c`. -/
theorem greedy (hp : Confined E p) (n : Nat) (hc : c.Valid) :
    Ensures (Record.From c) E (fun r => c.Reaches r.2) (greedy p n c) := by
  induction n generalizing c with
  | zero => exact .unfinished
  | succ n ih =>
    refine (hp c hc).bind fun a ha => ?_
    cases a with
    | ok v d =>
      refine Ensures.map _ ?_
      exact (ih ha.valid).mono (fun _ => Record.From.mono ha) (fun _ => id) fun _ hr => ha.trans hr
    | fail e => exact .pure (.refl hc)

theorem many0 (hp : Confined E p) (n : Nat) : Confined E (p.many0 n) := by
  intro c hc
  refine Ensures.map _ ?_
  exact hp.greedy n hc

theorem many1 (hp : Confined E p) (n : Nat) : Confined E (p.many1 n) := by
  intro c hc
  refine (hp.greedy n hc).bind fun r hr => ?_
  obtain ⟨vs, last⟩ := r
  dsimp only
  split
  · exact refuse .atLeastOne c hc
  · exact .pure hr

/-- The step of an arm may start behind the guard or where the guard started. -/
theorem lookahead {o : Option (Parser σ δ)} {arms : List (Arm σ β γ δ)}
    (ho : ∀ p, o = some p → Confined E p) (hl : ∀ a ∈ arms, Confined E a.look)
    (hs : ∀ a ∈ arms, Confined E a.step) : Confined E (lookahead o arms) := by
  induction arms with
  | nil =>
    cases o with
    | none => exact refuse .noAlternative
    | some p => exact ho p rfl
  | cons arm arms ih =>
    have hstep := hs arm (by simp)
    intro c hc
    refine (hl arm (by simp) c hc).bind fun a ha => ?_
    cases a with
    | ok v d =>
      have hstart : c.Reaches (if arm.consume then d else c) := by
        split
        · exact ha
        · exact .refl hc
      exact (hstep.map (arm.transform v)).behind hstart
    | fail e =>
      exact ih (fun a h => hl a (by simp [h])) (fun a h => hs a (by simp [h])) c hc

end Confined
end Parser
end Peg
