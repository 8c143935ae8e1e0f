import Peg.Parsing.Extends
import Peg.Parser.Choice
import Peg.Parser.Drive
import Peg.Parser.Lookahead
import Peg.Parser.Repeat

/-!
# Peg.Proofs.Parser.Returns

The results of computations without state, records left aside.

* `Returns x a`: `x` ends with the result `a`. A computation that is aborted, or has no run, returns
  nothing.

For every combinator it is said exactly when it returns what, in terms of what its parsers return.
-/

namespace Peg
namespace Parsing

variable {α β : Type}

def Returns (x : Parsing Unit α) (a : α) : Prop := ∃ log, x () = some ⟨.ok a, log, ()⟩

@[simp] theorem returns_pure {a b : α} : Returns (pure a) b ↔ a = b := by
  simp [Returns, pure_apply]

@[simp] theorem returns_abort {r : Rule} {a : α} : ¬ Returns (abort r) a := by
  simp [Returns, abort_apply]

@[simp] theorem returns_unfinished {a : α} : ¬ Returns (unfinished : Parsing Unit α) a := by
  simp [Returns, unfinished_apply]

@[simp] theorem returns_emit {e : Record} {u : Unit} : Returns (emit e) u :=
  ⟨.single e, rfl⟩

theorem returns_bind {x : Parsing Unit α} {f : α → Parsing Unit β} {b : β} :
    Returns (x >>= f) b ↔ ∃ a, Returns x a ∧ Returns (f a) b := by
  constructor
  · rintro ⟨log, h⟩
    rcases bind_eq_some_iff.1 h with ⟨rule, log', s, -, he⟩ | ⟨a, log', s, r, hx, hf, he⟩
    · cases he
    · obtain ⟨result, log'', s'⟩ := r
      cases he
      exact ⟨a, ⟨log', hx⟩, ⟨log'', hf⟩⟩
  · rintro ⟨a, ⟨log, hx⟩, ⟨log', hf⟩⟩
    exact ⟨log ++ log', bind_eq_some_iff.2 (.inr ⟨a, log, (), _, hx, hf, rfl⟩)⟩

theorem returns_map {x : Parsing Unit α} {f : α → β} {b : β} :
    Returns (f <$> x) b ↔ ∃ a, Returns x a ∧ f a = b := by
  rw [map_eq_pure_bind, returns_bind]
  simp only [returns_pure]

theorem Returns.extends {x y : Parsing Unit α} (h : Extends x y) {a : α} (hx : Returns x a) :
    Returns y a := by
  obtain ⟨log, hx⟩ := hx
  exact ⟨log, h _ _ hx⟩

end Parsing

theorem Answer.exists {β : Type} {P : Answer β → Prop} :
    (∃ a, P a) ↔ (∃ v d, P (.ok v d)) ∨ ∃ e, P (.fail e) := by
  constructor
  · rintro ⟨v | e, h⟩
    · exact .inl ⟨_, _, h⟩
    · exact .inr ⟨_, h⟩
  · rintro (⟨v, d, h⟩ | ⟨e, h⟩)
    · exact ⟨_, h⟩
    · exact ⟨_, h⟩

namespace Parser

open Parsing

variable {β γ δ : Type} {p : Parser Unit β} {q : Parser Unit γ} {c : Cursor}

@[simp] theorem returns_succeed {v : β} {a : Answer β} :
    Returns (succeed v c) a ↔ .ok v c = a := by simp [succeed]

@[simp] theorem returns_refuse {cause : Cause} {a : Answer β} :
    Returns (refuse cause c) a ↔ .fail (.ofCursor cause c) = a := by simp [refuse]

theorem returns_andThen {f : β → Parser Unit γ} {a : Answer γ} :
    Returns (p.andThen f c) a ↔
      (∃ v d, Returns (p c) (.ok v d) ∧ Returns (f v d) a) ∨
        ∃ e, Returns (p c) (.fail e) ∧ .fail e = a := by
  simp [andThen, returns_bind, Answer.exists]

theorem returns_map {f : β → γ} {a : Answer γ} :
    Returns (p.map f c) a ↔ ∃ b, Returns (p c) b ∧ b.map f = a :=
  Parsing.returns_map

theorem returns_single {test : Option Char → Bool} {a : Answer Char} :
    Returns (single test c) a ↔
      (∃ ch, c.peek = some ch ∧ test (some ch) = true ∧ .ok ch c.next = a) ∨
        (∀ ch, c.peek = some ch → test (some ch) = false) ∧ .fail (.ofCursor .predicate c) = a := by
  unfold single
  cases c.peek with
  | none => simp
  | some ch => by_cases h : test (some ch) = true <;> simp [h]

theorem returns_eof {a : Answer Unit} :
    Returns (eof c) a ↔
      c.peek = none ∧ .ok () c = a ∨
        (∃ ch, c.peek = some ch) ∧ .fail (.ofCursor .endOfInput c) = a := by
  unfold eof
  cases c.peek with
  | none => simp
  | some ch => simp

theorem returns_and {a : Answer (β × γ)} :
    Returns (p.and q c) a ↔
      (∃ v d, Returns (p c) (.ok v d) ∧ Returns (q.map (v, ·) d) a) ∨
        ∃ e, Returns (p c) (.fail e) ∧ .fail e = a :=
  returns_andThen

theorem returns_seq_nil {a : Answer (List β)} :
    Returns (seq ([] : List (Parser Unit β)) c) a ↔ .ok [] c = a :=
  returns_succeed

theorem returns_seq_cons {ps : List (Parser Unit β)} {a : Answer (List β)} :
    Returns (seq (p :: ps) c) a ↔
      (∃ v d, Returns (p c) (.ok v d) ∧ Returns ((seq ps).map (v :: ·) d) a) ∨
        ∃ e, Returns (p c) (.fail e) ∧ .fail e = a :=
  returns_andThen

theorem returns_withSpan {a : Answer (β × Span)} :
    Returns (p.withSpan c) a ↔
      (∃ v d, Returns (p c) (.ok v d) ∧ .ok (v, ⟨c.source, c.offset, d.offset⟩) d = a) ∨
        ∃ e, Returns (p c) (.fail e) ∧ .fail e = a := by
  simp [withSpan, returns_bind, Answer.exists]

theorem returns_invoke {r : Rule} {body : Option (Parser Unit β)} {a : Answer β} :
    Returns (invoke r body c) a ↔ ∃ b, body = some b ∧ Returns (b c) a := by
  cases body with
  | none => simp [invoke]
  | some b => simp [invoke, returns_bind]

theorem returns_alternative_cons {ps : List (Parser Unit β)} {a : Answer β} :
    Returns (alternative (p :: ps) c) a ↔
      (∃ v d, Returns (p c) (.ok v d) ∧ .ok v d = a) ∨
        ∃ e, Returns (p c) (.fail e) ∧ Returns (alternative ps c) a := by
  simp [alternative, returns_bind, Answer.exists]

theorem returns_or {q : Parser Unit β} {a : Answer β} :
    Returns (p.or q c) a ↔
      (∃ v d, Returns (p c) (.ok v d) ∧ .ok v d = a) ∨
        ∃ e, Returns (p c) (.fail e) ∧
          ((∃ v d, Returns (q c) (.ok v d) ∧ .ok v d = a) ∨
            ∃ e', Returns (q c) (.fail e') ∧ .fail (.ofCursor .noAlternative c) = a) := by
  simp [Parser.or, returns_bind, Answer.exists]

theorem returns_optional {a : Answer (Option β)} :
    Returns (p.optional c) a ↔
      (∃ v d, Returns (p c) (.ok v d) ∧ .ok (some v) d = a) ∨
        ∃ e, Returns (p c) (.fail e) ∧ .ok none c = a := by
  simp [Parser.optional, returns_bind, Answer.exists]

theorem returns_not {a : Answer Unit} :
    Returns (p.not c) a ↔
      (∃ v d, Returns (p c) (.ok v d) ∧ .fail (.ofCursor .unexpectedMatch c) = a) ∨
        ∃ e, Returns (p c) (.fail e) ∧ .ok () c = a := by
  simp [Parser.not, returns_bind, Answer.exists]

theorem returns_greedy_succ {n : Nat} {vs : List β} {d : Cursor} :
    Returns (greedy p (n + 1) c) (vs, d) ↔
      (∃ v mid ws, Returns (p c) (.ok v mid) ∧ Returns (greedy p n mid) (ws, d) ∧ v :: ws = vs) ∨
        ∃ e, Returns (p c) (.fail e) ∧ [] = vs ∧ c = d := by
  simp [greedy, returns_bind, Parsing.returns_map, Answer.exists]

theorem returns_many0 {n : Nat} {a : Answer (List β)} :
    Returns (p.many0 n c) a ↔ ∃ vs d, Returns (greedy p n c) (vs, d) ∧ .ok vs d = a := by
  simp [many0, Parsing.returns_map]

theorem returns_many1 {n : Nat} {a : Answer (List β)} :
    Returns (p.many1 n c) a ↔
      (∃ v vs d, Returns (greedy p n c) (v :: vs, d) ∧ .ok (v :: vs) d = a) ∨
        ∃ d, Returns (greedy p n c) ([], d) ∧ .fail (.ofCursor .atLeastOne c) = a := by
  simp only [many1, returns_bind, Prod.exists]
  constructor
  · rintro ⟨vs, d, h, ha⟩
    cases vs with
    | nil => exact .inr ⟨d, h, by simpa using ha⟩
    | cons v vs => exact .inl ⟨v, vs, d, h, by simpa using ha⟩
  · rintro (⟨v, vs, d, h, ha⟩ | ⟨d, h, ha⟩)
    · exact ⟨v :: vs, d, h, by simpa using ha⟩
    · exact ⟨[], d, h, by simpa using ha⟩

theorem returns_lookahead_cons {o : Option (Parser Unit δ)} {arm : Arm Unit β γ δ}
    {arms : List (Arm Unit β γ δ)} {a : Answer δ} :
    Returns (lookahead o (arm :: arms) c) a ↔
      (∃ v d, Returns (arm.look c) (.ok v d) ∧
        Returns (arm.step.map (arm.transform v) (if arm.consume then d else c)) a) ∨
        ∃ e, Returns (arm.look c) (.fail e) ∧ Returns (lookahead o arms c) a := by
  simp [lookahead, returns_bind, Answer.exists]

theorem returns_drive {a : Answer β} : Returns (p.drive c) a ↔ Returns (p c) a := by
  simp only [drive, returns_bind, Answer.exists]
  cases a with
  | ok v d => simp
  | fail e => simp

theorem returns_complete_ok {source : String} {v : β} :
    Returns (p.complete source) (.ok v) ↔
      ∃ d, Returns (p (.start source)) (.ok v d) ∧ d.peek = none := by
  unfold complete
  rw [returns_bind]
  constructor
  · rintro ⟨a, ha, hv⟩
    rcases returns_andThen.1 ha with ⟨w, d, hw, hend⟩ | ⟨e, -, rfl⟩
    · obtain ⟨b, hb, rfl⟩ := returns_map.1 hend
      rcases returns_eof.1 hb with ⟨he, rfl⟩ | ⟨-, rfl⟩
      · cases returns_pure.1 hv
        exact ⟨d, returns_drive.1 hw, he⟩
      · cases returns_pure.1 hv
    · cases returns_pure.1 hv
  · rintro ⟨d, hd, he⟩
    have hend : Returns (Parser.map (fun _ => v) eof d) (.ok v d) :=
      returns_map.2 ⟨_, returns_eof.2 (.inl ⟨he, rfl⟩), rfl⟩
    exact ⟨_, returns_andThen.2 (.inl ⟨v, d, returns_drive.2 hd, hend⟩), returns_pure.2 rfl⟩

end Parser
end Peg
