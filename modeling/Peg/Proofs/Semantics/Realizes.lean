import Peg.Grammar.Fuel
import Peg.Proofs.Semantics.Reflects

/-!
# Peg.Proofs.Semantics.Realizes

Whatever a grammar derives, its parser returns, given enough fuel.

* `Realizes body? s g cs o`: with every fuel from some amount on, the parser of `g` answers as `o`
  says in front of the last characters `cs` of `s`.
* `Derives.realizes`: each outcome that is derived is realized.
-/

namespace Peg

namespace Parser

open Parsing (Returns)

variable {β γ : Type} {p : Parser Unit β} {c d : Cursor}

theorem returns_map_ok (f : β → γ) {v : β} (h : Returns (p c) (.ok v d)) :
    Returns (p.map f c) (.ok (f v) d) :=
  returns_map.2 ⟨_, h, rfl⟩

theorem returns_map_fail {f : β → γ} {e : ParseError} (h : Returns (p c) (.fail e)) :
    Returns (p.map f c) (.fail e) :=
  returns_map.2 ⟨_, h, rfl⟩

theorem returns_of_map_ok {f : β → γ} (hf : Function.Injective f) {v : β}
    (h : Returns (p.map f c) (.ok (f v) d)) : Returns (p c) (.ok v d) := by
  obtain ⟨b, hb, he⟩ := returns_map.1 h
  cases b with
  | ok w d' =>
    injection he with hw hd
    rw [hf hw, hd] at hb
    exact hb
  | fail e => cases he

theorem returns_of_map_fail {f : β → γ} {e : ParseError} (h : Returns (p.map f c) (.fail e)) :
    Returns (p c) (.fail e) := by
  obtain ⟨b, hb, he⟩ := returns_map.1 h
  cases b with
  | ok w d' => cases he
  | fail e' =>
    cases he
    exact hb

end Parser

theorem Value.list_injective {α : Type} : Function.Injective (Value.list (α := α)) := by
  intro vs ws h
  injection h

namespace Grammar

open Parsing (Returns)
open Peg.Parser

variable {α : Type} {body? : Nat → Option (Grammar Empty Empty α)} {s : String}

def Realizes (body? : Nat → Option (Grammar Empty Empty α)) (s : String)
    (g : Grammar Empty Empty α) (cs : List Char) (o : Outcome α) : Prop :=
  ∃ n, ∀ m, n ≤ m → Returns (eval (.ofBodies body?) m g (.before s cs)) (o.answer s)

namespace Realizes

variable {g a b : Grammar Empty Empty α} {cs mid rest : List Char} {o o' : Outcome α}

theorem base (h : ∀ m, Returns (eval (.ofBodies body?) (m + 1) g (.before s cs)) (o.answer s)) :
    Realizes body? s g cs o := by
  refine ⟨1, fun m hm => ?_⟩
  obtain ⟨k, rfl⟩ : ∃ k, m = k + 1 := ⟨m - 1, by omega⟩
  exact h k

theorem step {cs' : List Char} (h : Realizes body? s a cs' o')
    (hk : ∀ m, Returns (eval (.ofBodies body?) m a (.before s cs')) (o'.answer s) →
      Returns (eval (.ofBodies body?) (m + 1) g (.before s cs)) (o.answer s)) :
    Realizes body? s g cs o := by
  obtain ⟨n, hn⟩ := h
  refine ⟨n + 1, fun m hm => ?_⟩
  obtain ⟨k, rfl⟩ : ∃ k, m = k + 1 := ⟨m - 1, by omega⟩
  exact hk k (hn k (by omega))

/-- The second part is known one step later too: that is where the parser of a list of grammars
holds the parser of the list without its first element. -/
theorem step₂ {cs₁ cs₂ : List Char} {o₁ o₂ : Outcome α} (h₁ : Realizes body? s a cs₁ o₁)
    (h₂ : Realizes body? s b cs₂ o₂)
    (hk : ∀ m, Returns (eval (.ofBodies body?) m a (.before s cs₁)) (o₁.answer s) →
      Returns (eval (.ofBodies body?) m b (.before s cs₂)) (o₂.answer s) →
      Returns (eval (.ofBodies body?) (m + 1) b (.before s cs₂)) (o₂.answer s) →
      Returns (eval (.ofBodies body?) (m + 1) g (.before s cs)) (o.answer s)) :
    Realizes body? s g cs o := by
  obtain ⟨n₁, hn₁⟩ := h₁
  obtain ⟨n₂, hn₂⟩ := h₂
  refine ⟨max n₁ n₂ + 1, fun m hm => ?_⟩
  obtain ⟨k, rfl⟩ : ∃ k, m = k + 1 := ⟨m - 1, by omega⟩
  exact hk k (hn₁ k (by omega)) (hn₂ k (by omega)) (hn₂ (k + 1) (by omega))

theorem single {test : Option Char → Bool} {ch : Char} (hcs : ch :: cs <:+ s.toList)
    (ht : test (some ch) = true) :
    Realizes body? s (.single test) (ch :: cs) (.ok (.char ch) cs) := by
  refine base fun m => returns_map_ok Value.char (returns_single.2 (.inl ⟨ch, ?_, ht, ?_⟩))
  · exact Cursor.peek_before hcs
  · rw [Cursor.next_before hcs]

theorem singleMiss {test : Option Char → Bool} (hcs : cs <:+ s.toList)
    (ht : ∀ ch ∈ cs.head?, test (some ch) = false) :
    Realizes body? s (.single test) cs (.fail .predicate cs) := by
  refine base fun m => returns_map_fail (returns_single.2 (.inr ⟨fun ch hch => ht ch ?_, rfl⟩))
  rwa [Cursor.peek_before hcs] at hch

theorem eof (s : String) : Realizes body? s .eof [] (.ok .unit []) := by
  refine base fun m => returns_map_ok (fun _ => Value.unit) (returns_eof.2 (.inl ⟨?_, rfl⟩))
  exact Cursor.peek_before List.nil_suffix

theorem eofMiss {ch : Char} (hcs : ch :: cs <:+ s.toList) :
    Realizes body? s .eof (ch :: cs) (.fail .endOfInput (ch :: cs)) := by
  refine base fun m => returns_map_fail (returns_eof.2 (.inr ⟨⟨ch, ?_⟩, rfl⟩))
  exact Cursor.peek_before hcs

theorem seqCons {gs : List (Grammar Empty Empty α)} {v : Value α} {vs : List (Value α)}
    (h : Realizes body? s g cs (.ok v mid))
    (hs : Realizes body? s (.seq gs) mid (.ok (.list vs) rest)) :
    Realizes body? s (.seq (g :: gs)) cs (.ok (.list (v :: vs)) rest) := by
  refine h.step₂ hs fun m hv _ hvs => ?_
  have htail := returns_of_map_ok Value.list_injective hvs
  exact returns_map_ok Value.list
    (returns_seq_cons.2 (.inl ⟨v, _, hv, returns_map_ok (v :: ·) htail⟩))

theorem seqFail {gs : List (Grammar Empty Empty α)} {cause : Cause}
    (h : Realizes body? s g cs (.fail cause rest)) :
    Realizes body? s (.seq (g :: gs)) cs (.fail cause rest) :=
  h.step fun _ he => returns_map_fail (returns_seq_cons.2 (.inr ⟨_, he, rfl⟩))

theorem seqLater {gs : List (Grammar Empty Empty α)} {v : Value α} {cause : Cause}
    (h : Realizes body? s g cs (.ok v mid)) (hs : Realizes body? s (.seq gs) mid (.fail cause rest)) :
    Realizes body? s (.seq (g :: gs)) cs (.fail cause rest) := by
  refine h.step₂ hs fun m hv _ he => ?_
  have htail := returns_of_map_fail he
  exact returns_map_fail (returns_seq_cons.2 (.inl ⟨v, _, hv, returns_map_fail htail⟩))

theorem alternativeHit {gs : List (Grammar Empty Empty α)} {v : Value α}
    (h : Realizes body? s g cs (.ok v rest)) :
    Realizes body? s (.alternative (g :: gs)) cs (.ok v rest) :=
  h.step fun _ hv => returns_alternative_cons.2 (.inl ⟨v, _, hv, rfl⟩)

theorem alternativeNext {gs : List (Grammar Empty Empty α)} {cause : Cause}
    (h : Realizes body? s g cs (.fail cause rest)) (hs : Realizes body? s (.alternative gs) cs o) :
    Realizes body? s (.alternative (g :: gs)) cs o :=
  h.step₂ hs fun _ he _ ho => returns_alternative_cons.2 (.inr ⟨_, he, ho⟩)

theorem andFail {cause : Cause} (h : Realizes body? s a cs (.fail cause rest)) :
    Realizes body? s (.and a b) cs (.fail cause rest) :=
  h.step fun _ he => returns_map_fail (returns_and.2 (.inr ⟨_, he, rfl⟩))

theorem andNext {v : Value α} (ha : Realizes body? s a cs (.ok v mid))
    (hb : Realizes body? s b mid o) : Realizes body? s (.and a b) cs (o.map (.pair v)) := by
  refine ha.step₂ hb fun m hv ho _ => ?_
  cases o with
  | ok w rest =>
    exact returns_map_ok (fun v => Value.pair v.1 v.2)
      (returns_and.2 (.inl ⟨v, _, hv, returns_map_ok (v, ·) ho⟩))
  | fail cause rest =>
    exact returns_map_fail (returns_and.2 (.inl ⟨v, _, hv, returns_map_fail ho⟩))

theorem orRight {cause : Cause} {v : Value α} {left : List Char}
    (ha : Realizes body? s a cs (.fail cause left)) (hb : Realizes body? s b cs (.ok v rest)) :
    Realizes body? s (.or a b) cs (.ok v rest) :=
  ha.step₂ hb fun _ he hv _ => returns_or.2 (.inr ⟨_, he, .inl ⟨v, _, hv, rfl⟩⟩)

theorem orFail {cause cause' : Cause} {left right : List Char}
    (ha : Realizes body? s a cs (.fail cause left))
    (hb : Realizes body? s b cs (.fail cause' right)) :
    Realizes body? s (.or a b) cs (.fail .noAlternative cs) :=
  ha.step₂ hb fun _ he he' _ => returns_or.2 (.inr ⟨_, he, .inr ⟨_, he', rfl⟩⟩)

theorem many0Stop {cause : Cause} (h : Realizes body? s g cs (.fail cause rest)) :
    Realizes body? s (.many0 g) cs (.ok (.list []) cs) := by
  obtain ⟨n, hn⟩ := h
  refine ⟨n + 2, fun m hm => ?_⟩
  obtain ⟨k, rfl⟩ : ∃ k, m = k + 1 + 1 := ⟨m - 2, by omega⟩
  have he := hn (k + 1) (by omega)
  exact returns_map_ok Value.list
    (returns_many0.2 ⟨[], _, returns_greedy_succ.2 (.inr ⟨_, he, rfl, rfl⟩), rfl⟩)

/-- The rounds that follow were counted with less fuel; `Extends.greedy` adds it. -/
theorem greedy {v : Value α} {vs : List (Value α)} (h : Realizes body? s g cs (.ok v mid))
    (hs : Realizes body? s (.many0 g) mid (.ok (.list vs) rest)) :
    ∃ n, ∀ m, n ≤ m → Returns
      (Parser.greedy (eval (.ofBodies body?) m g) m (.before s cs)) (v :: vs, .before s rest) := by
  obtain ⟨n₁, hn₁⟩ := h
  obtain ⟨n₂, hn₂⟩ := hs
  refine ⟨max n₁ n₂ + 1, fun m hm => ?_⟩
  obtain ⟨k, rfl⟩ : ∃ k, m = k + 1 := ⟨m - 1, by omega⟩
  have hv := hn₁ (k + 1) (by omega)
  have hmany := returns_of_map_ok Value.list_injective (hn₂ (k + 1) (by omega))
  obtain ⟨ws, d, hvs, he⟩ := returns_many0.1 hmany
  cases he
  have hfuel : Parser.Extends (eval (.ofBodies body?) k g) (eval (.ofBodies body?) (k + 1) g) :=
    eval_extends (Foreign.monotone_of_isEmpty _) (Nat.le_succ k) g
  have hvs' := hvs.extends (hfuel.greedy (Nat.le_refl k) _)
  exact returns_greedy_succ.2 (.inl ⟨v, _, vs, hv, hvs', rfl⟩)

theorem many0More {v : Value α} {vs : List (Value α)} (h : Realizes body? s g cs (.ok v mid))
    (hs : Realizes body? s (.many0 g) mid (.ok (.list vs) rest)) :
    Realizes body? s (.many0 g) cs (.ok (.list (v :: vs)) rest) := by
  obtain ⟨n, hn⟩ := h.greedy hs
  refine ⟨n + 1, fun m hm => ?_⟩
  obtain ⟨k, rfl⟩ : ∃ k, m = k + 1 := ⟨m - 1, by omega⟩
  exact returns_map_ok Value.list (returns_many0.2 ⟨_, _, hn k (by omega), rfl⟩)

theorem many1 {v : Value α} {vs : List (Value α)} (h : Realizes body? s g cs (.ok v mid))
    (hs : Realizes body? s (.many0 g) mid (.ok (.list vs) rest)) :
    Realizes body? s (.many1 g) cs (.ok (.list (v :: vs)) rest) := by
  obtain ⟨n, hn⟩ := h.greedy hs
  refine ⟨n + 1, fun m hm => ?_⟩
  obtain ⟨k, rfl⟩ : ∃ k, m = k + 1 := ⟨m - 1, by omega⟩
  exact returns_map_ok Value.list (returns_many1.2 (.inl ⟨v, vs, _, hn k (by omega), rfl⟩))

theorem many1Fail {cause : Cause} (h : Realizes body? s g cs (.fail cause rest)) :
    Realizes body? s (.many1 g) cs (.fail .atLeastOne cs) := by
  obtain ⟨n, hn⟩ := h
  refine ⟨n + 2, fun m hm => ?_⟩
  obtain ⟨k, rfl⟩ : ∃ k, m = k + 1 + 1 := ⟨m - 2, by omega⟩
  have he := hn (k + 1) (by omega)
  exact returns_map_fail
    (returns_many1.2 (.inr ⟨_, returns_greedy_succ.2 (.inr ⟨_, he, rfl, rfl⟩), rfl⟩))

theorem map {f : Value α → Value α} (h : Realizes body? s g cs o) :
    Realizes body? s (.map f g) cs (o.map f) := by
  refine h.step fun m ho => ?_
  rw [Outcome.answer_map]
  exact returns_map.2 ⟨_, ho, rfl⟩

theorem span {v : Value α} (h : Realizes body? s g cs (.ok v rest)) :
    Realizes body? s (.span g) cs (.ok (.spanned v (Span.between s cs rest)) rest) :=
  h.step fun _ hv => returns_map_ok (fun v : Value α × Span => Value.spanned v.1 v.2)
    (returns_withSpan.2 (.inl ⟨v, _, hv, rfl⟩))

theorem spanFail {cause : Cause} (h : Realizes body? s g cs (.fail cause rest)) :
    Realizes body? s (.span g) cs (.fail cause rest) :=
  h.step fun _ he => returns_map_fail (returns_withSpan.2 (.inr ⟨_, he, rfl⟩))

section Arms

variable {arm : GuardedArm (Grammar Empty Empty α) (Value α → Value α)}
  {arms : List (GuardedArm (Grammar Empty Empty α) (Value α → Value α))}
  {ow : Option (Grammar Empty Empty α)}

theorem armStep {v : Value α} (hl : Realizes body? s arm.look cs (.ok v mid))
    (hs : Realizes body? s arm.step (if arm.consume then mid else cs) o) :
    Realizes body? s (.lookahead ⟨arm :: arms, ow⟩) cs
      (o.map fun w => arm.transform (.guarded v w)) := by
  refine hl.step₂ hs fun m hv ho _ => ?_
  have hstart : Cursor.before s (if arm.consume then mid else cs) =
      if arm.consume then .before s mid else .before s cs := by
    split <;> rfl
  rw [hstart] at ho
  rw [Outcome.answer_map]
  exact returns_lookahead_cons.2 (.inl ⟨v, _, hv, returns_map.2 ⟨_, ho, rfl⟩⟩)

theorem armNext {cause : Cause} (hl : Realizes body? s arm.look cs (.fail cause rest))
    (hs : Realizes body? s (.lookahead ⟨arms, ow⟩) cs o) :
    Realizes body? s (.lookahead ⟨arm :: arms, ow⟩) cs o :=
  hl.step₂ hs fun _ he _ ho => returns_lookahead_cons.2 (.inr ⟨_, he, ho⟩)

end Arms

theorem rule {r : Rule} (hb : body? r.slot = some b) (h : Realizes body? s b cs o) :
    Realizes body? s (.rule r) cs o := by
  refine h.step fun m ho => ?_
  refine returns_invoke.2 ⟨eval (.ofBodies body?) m b, ?_, ho⟩
  exact Option.map_eq_some_iff.2 ⟨b, hb, rfl⟩

end Realizes

theorem Derives.realizes {g : Grammar Empty Empty α} {cs : List Char} {o : Outcome α}
    (h : Derives body? (Span.between s) g cs o) (hcs : cs <:+ s.toList) :
    Realizes body? s g cs o := by
  induction h with
  | single ht => exact .single hcs ht
  | singleMiss ht => exact .singleMiss hcs (by simpa using ht)
  | singleEnd => exact .singleMiss hcs (by simp)
  | eof => exact .eof s
  | eofMiss => exact .eofMiss hcs
  | seqNil => exact .base fun _ => returns_map_ok Value.list (returns_seq_nil.2 rfl)
  | seqCons hd _ ih₁ ih₂ => exact (ih₁ hcs).seqCons (ih₂ (hd.rest_suffix.trans hcs))
  | seqFail _ ih => exact (ih hcs).seqFail
  | seqLater hd _ ih₁ ih₂ => exact (ih₁ hcs).seqLater (ih₂ (hd.rest_suffix.trans hcs))
  | alternativeNil => exact .base fun _ => returns_refuse.2 rfl
  | alternativeHit _ ih => exact (ih hcs).alternativeHit
  | alternativeNext _ _ ih₁ ih₂ => exact (ih₁ hcs).alternativeNext (ih₂ hcs)
  | andFail _ ih => exact (ih hcs).andFail
  | andNext hd _ ih₁ ih₂ => exact (ih₁ hcs).andNext (ih₂ (hd.rest_suffix.trans hcs))
  | orLeft _ ih => exact (ih hcs).step fun _ hv => returns_or.2 (.inl ⟨_, _, hv, rfl⟩)
  | orRight _ _ ih₁ ih₂ => exact (ih₁ hcs).orRight (ih₂ hcs)
  | orFail _ _ ih₁ ih₂ => exact (ih₁ hcs).orFail (ih₂ hcs)
  | optionalSome _ ih =>
    exact (ih hcs).step fun _ hv =>
      returns_map_ok Value.ofOption (returns_optional.2 (.inl ⟨_, _, hv, rfl⟩))
  | optionalNone _ ih =>
    exact (ih hcs).step fun _ he =>
      returns_map_ok Value.ofOption (returns_optional.2 (.inr ⟨_, he, rfl⟩))
  | many0Stop _ ih => exact (ih hcs).many0Stop
  | many0More hd _ ih₁ ih₂ => exact (ih₁ hcs).many0More (ih₂ (hd.rest_suffix.trans hcs))
  | many1 hd _ ih₁ ih₂ => exact (ih₁ hcs).many1 (ih₂ (hd.rest_suffix.trans hcs))
  | many1Fail _ ih => exact (ih hcs).many1Fail
  | not _ ih =>
    exact (ih hcs).step fun _ he =>
      returns_map_ok (fun _ => Value.unit) (returns_not.2 (.inr ⟨_, he, rfl⟩))
  | notFail _ ih =>
    exact (ih hcs).step fun _ hv => returns_map_fail (returns_not.2 (.inl ⟨_, _, hv, rfl⟩))
  | map _ ih => exact (ih hcs).map
  | span _ ih => exact (ih hcs).span
  | spanFail _ ih => exact (ih hcs).spanFail
  | noArm => exact .base fun _ => returns_refuse.2 rfl
  | otherwise _ ih => exact (ih hcs).step fun _ ho => ho
  | armStep hd _ ih₁ ih₂ =>
    refine (ih₁ hcs).armStep (ih₂ ?_)
    split
    · exact hd.rest_suffix.trans hcs
    · exact hcs
  | armNext _ _ ih₁ ih₂ => exact (ih₁ hcs).armNext (ih₂ hcs)
  | rule hb _ ih => exact (ih hcs).rule hb

end Grammar
end Peg
