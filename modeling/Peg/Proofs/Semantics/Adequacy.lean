import Peg.Proofs.Grammar.Confined
import Peg.Proofs.Semantics.Realizes

/-!
# Peg.Proofs.Semantics.Adequacy

The parser of a grammar and the derivations of the grammar say the same.

* `Answers body? g c a`: the parser of `g` answers `a` from the cursor `c`.
* `answers_iff`: the answers from a valid cursor are the outcomes derived from the text that is left.
* `runs_iff_derives`: success, failure and coming to an end, each in terms of derivations.
-/

namespace Peg

namespace Grammar

open Parsing (Returns)
open Peg.Parser

variable {α : Type} {body? : Nat → Option (Grammar Empty Empty α)} {g : Grammar Empty Empty α}
  {c : Cursor}

def Answers (body? : Nat → Option (Grammar Empty Empty α)) (g : Grammar Empty Empty α) (c : Cursor)
    (a : Answer (Value α)) : Prop :=
  ∃ log, Runs (.ofBodies body?) g c () ⟨.ok a, log, ()⟩

theorem answers_iff_returns {a : Answer (Value α)} :
    Answers body? g c a ↔ ∃ n, Returns (eval (.ofBodies body?) n g c) a := by
  constructor
  · rintro ⟨log, n, h⟩
    exact ⟨n, log, h⟩
  · rintro ⟨n, log, h⟩
    exact ⟨log, n, h⟩

theorem Answers.unique {a b : Answer (Value α)} (ha : Answers body? g c a)
    (hb : Answers body? g c b) : a = b := by
  obtain ⟨log, ha⟩ := ha
  obtain ⟨log', hb⟩ := hb
  have hr := ha.unique (Foreign.monotone_of_isEmpty _) hb
  injection hr with hr
  injection hr

theorem answers_iff (hc : c.Valid) {a : Answer (Value α)} :
    Answers body? g c a ↔
      ∃ o, Derives body? (Span.between c.source) g c.remaining.toList o ∧
        o.answer c.source = a := by
  have hcs := hc.remaining_suffix
  rw [answers_iff_returns]
  constructor
  · rintro ⟨n, h⟩
    rw [hc.eq_before] at h
    exact reflects_eval n g _ hcs a h
  · rintro ⟨o, ho, rfl⟩
    obtain ⟨n, hn⟩ := ho.realizes hcs
    rw [← hc.eq_before] at hn
    exact ⟨n, hn n (Nat.le_refl n)⟩

theorem Derives.answers {source : String} {cs : List Char} {o : Outcome α}
    (h : Derives body? (Span.between source) g cs o) (hcs : cs <:+ source.toList) :
    Answers body? g (.before source cs) (o.answer source) := by
  obtain ⟨n, hn⟩ := h.realizes hcs
  exact answers_iff_returns.2 ⟨n, hn n (Nat.le_refl n)⟩

theorem Closed.answers_of_runs (hg : Closed body? g) (hc : c.Valid)
    {r : Run Unit (Answer (Value α))} (h : Runs (.ofBodies body?) g c () r) :
    ∃ a, Answers body? g c a := by
  obtain ⟨result, log, s⟩ := r
  cases result with
  | ok a => exact ⟨a, log, h⟩
  | error rule =>
    obtain ⟨hu, hnone⟩ := undefined_of_aborted hc h rfl
    have hsome := hg rule hu
    rw [hnone] at hsome
    cases hsome

theorem answers_ok_iff (hc : c.Valid) {v : Value α} {rest : List Char} :
    (∃ d, Answers body? g c (.ok v d) ∧ d.remaining.toList = rest) ↔
      Derives body? (Span.between c.source) g c.remaining.toList (.ok v rest) := by
  constructor
  · rintro ⟨d, h, rfl⟩
    obtain ⟨o, ho, ha⟩ := (answers_iff hc).1 h
    cases o with
    | ok w rest =>
      cases ha
      have hrest : rest <:+ c.remaining.toList := ho.rest_suffix
      rw [hc.remaining_before hrest]
      exact ho
    | fail cause rest => cases ha
  · intro h
    refine ⟨.before c.source rest, (answers_iff hc).2 ⟨_, h, rfl⟩, ?_⟩
    exact hc.remaining_before h.rest_suffix

theorem answers_fail_iff (hc : c.Valid) {cause : Cause} {rest : List Char} :
    (∃ e, Answers body? g c (.fail e) ∧ e.cause = cause ∧ e.cursor.remaining.toList = rest) ↔
      Derives body? (Span.between c.source) g c.remaining.toList (.fail cause rest) := by
  constructor
  · rintro ⟨e, h, rfl, rfl⟩
    obtain ⟨o, ho, ha⟩ := (answers_iff hc).1 h
    cases o with
    | ok w rest => cases ha
    | fail cause rest =>
      cases ha
      have hrest : rest <:+ c.remaining.toList := ho.rest_suffix
      change Derives body? _ g _ (.fail cause (Cursor.before c.source rest).remaining.toList)
      rw [hc.remaining_before hrest]
      exact ho
  · intro h
    refine ⟨.ofCursor cause (.before c.source rest), (answers_iff hc).2 ⟨_, h, rfl⟩, rfl, ?_⟩
    exact hc.remaining_before h.rest_suffix

theorem complete_iff_derives {source : String} {v : Value α} :
    (∃ fuel log, Parser.complete (eval (.ofBodies body?) fuel g) source () =
        some ⟨.ok (.ok v), log, ()⟩) ↔
      Derives body? (Span.between source) g source.toList (.ok v []) := by
  have hends : ∀ rest, rest <:+ source.toList →
      ((Cursor.before source rest).peek = none ↔ rest = []) := by
    intro rest hrest
    rw [Cursor.peek_before hrest, List.head?_eq_none_iff]
  constructor
  · rintro ⟨n, h⟩
    obtain ⟨d, hd, he⟩ := returns_complete_ok.1 h
    rw [← Cursor.before_toList] at hd
    obtain ⟨rest, hrest, rfl, ho⟩ := (reflects_eval n g).ok List.suffix_rfl hd
    rw [(hends rest hrest).1 he] at ho
    exact ho
  · intro h
    obtain ⟨n, hn⟩ := h.realizes List.suffix_rfl
    have hd := hn n (Nat.le_refl n)
    rw [Cursor.before_toList] at hd
    exact ⟨n, returns_complete_ok.2 ⟨_, hd, (hends [] List.nil_suffix).2 rfl⟩⟩

theorem runs_iff_derives (body? : Nat → Option (Grammar Empty Empty α))
    (g : Grammar Empty Empty α) {c : Cursor} (hc : c.Valid) :
    (∀ v rest, (∃ d, Answers body? g c (.ok v d) ∧ d.remaining.toList = rest) ↔
      Derives body? (Span.between c.source) g c.remaining.toList (.ok v rest)) ∧
    (∀ cause rest, (∃ e, Answers body? g c (.fail e) ∧ e.cause = cause ∧
        e.cursor.remaining.toList = rest) ↔
      Derives body? (Span.between c.source) g c.remaining.toList (.fail cause rest)) ∧
    (Closed body? g →
      ((∃ r, Runs (.ofBodies body?) g c () r) ↔
        ∃ o, Derives body? (Span.between c.source) g c.remaining.toList o)) ∧
    (∀ source v, (∃ fuel log, Parser.complete (eval (.ofBodies body?) fuel g) source () =
        some ⟨.ok (.ok v), log, ()⟩) ↔
      Derives body? (Span.between source) g source.toList (.ok v [])) := by
  refine ⟨fun _ _ => answers_ok_iff hc, fun _ _ => answers_fail_iff hc, fun hg => ?_,
    fun _ _ => complete_iff_derives⟩
  constructor
  · rintro ⟨r, hr⟩
    obtain ⟨a, ha⟩ := hg.answers_of_runs hc hr
    obtain ⟨o, ho, -⟩ := (answers_iff hc).1 ha
    exact ⟨o, ho⟩
  · rintro ⟨o, ho⟩
    obtain ⟨log, hr⟩ := (answers_iff hc).2 ⟨o, ho, rfl⟩
    exact ⟨_, hr⟩

/-- Reads itself once more while a digit follows; else it needs a closing parenthesis. -/
def nestedBody : Nat → Option (Grammar Empty Empty Nat)
  | 0 => some (.or (.and (.single CharClass.isDigit) (.rule ⟨"nested", 0⟩)) (.char ')'))
  | _ => none

theorem closed_nestedBody : Closed nestedBody (.rule ⟨"nested", 0⟩) := by
  have hpart : ∀ slot b r, nestedBody slot = some b → Part b (.rule r) → r.slot = 0 := by
    intro slot b r hb hp
    unfold nestedBody at hb
    split at hb
    · cases hb
      have hr : r = ⟨"nested", 0⟩ := by simpa using hp
      rw [hr]
    · cases hb
  intro r hr
  have hslot : r.slot = 0 := by
    rcases hr.part_or with hp | ⟨slot, b, hb, hp⟩
    · have hr' : r = ⟨"nested", 0⟩ := by simpa using hp
      rw [hr']
    · exact hpart slot b r hb hp
  rw [hslot]
  rfl

theorem runs_iff_derives_nested :
    (⟨"é7)", 2⟩ : Cursor).Valid ∧ Closed nestedBody (.rule ⟨"nested", 0⟩) ∧
      Derives nestedBody (Span.between "é7)") (.rule ⟨"nested", 0⟩) ['7', ')']
        (.ok (.pair (.char '7') (.char ')')) []) ∧
      ∃ r, Runs (.ofBodies nestedBody) (.rule ⟨"nested", 0⟩) ⟨"é7)", 2⟩ () r := by
  have hc : (⟨"é7)", 2⟩ : Cursor).Valid := by decide
  obtain ⟨hok, -, hends, -⟩ := runs_iff_derives nestedBody (.rule ⟨"nested", 0⟩) hc
  have hd : Derives nestedBody (Span.between "é7)") (.rule ⟨"nested", 0⟩) ['7', ')']
      (.ok (.pair (.char '7') (.char ')')) []) :=
    (hok _ _).1 ⟨⟨"é7)", 4⟩, ⟨_, 9, rfl⟩, rfl⟩
  exact ⟨hc, closed_nestedBody, hd, (hends closed_nestedBody).2 ⟨_, hd⟩⟩

end Grammar
end Peg
