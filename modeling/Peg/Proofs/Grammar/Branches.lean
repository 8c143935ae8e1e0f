import Peg.Proofs.Grammar.Comes

/-!
# Peg.Proofs.Grammar.Branches

What choices and tests come to, by what their first part does.

* `Parsing.Settles x P`: with growing fuel the computations `x` end with the outcomes `P`, and with
  no others.
* `Branch first hit miss`: the outcomes of a first part, and of what is run behind its success or its
  failure. An abort of the first part is final.
* `Fails env g c`: the grammar `g` comes to a failure at `c`.
* `comes_not`, `comes_or`, `comes_lookahead_cons`, `comes_lookahead_nil`: the laws. Here `not` and `or`
  drop the error of a part, and a lookahead drops that of a guard.
-/

namespace Peg

/-- The outcomes of a computation that branches on the answer of a first part. -/
inductive Branch {β γ : Type} (first : Except Rule (Answer β) → Prop)
    (hit : β → Cursor → Except Rule γ → Prop) (miss : Except Rule γ → Prop) :
    Except Rule γ → Prop
  | abort {r : Rule} : first (.error r) → Branch first hit miss (.error r)
  | hit {v : β} {d : Cursor} {o : Except Rule γ} :
      first (.ok (.ok v d)) → hit v d o → Branch first hit miss o
  | miss {e : ParseError} {o : Except Rule γ} :
      first (.ok (.fail e)) → miss o → Branch first hit miss o

theorem branch_ok {β γ : Type} {first : Except Rule (Answer β) → Prop}
    {hit : β → Cursor → Except Rule γ → Prop} {miss : Except Rule γ → Prop} {a : γ} :
    Branch first hit miss (.ok a) ↔
      (∃ v d, first (.ok (.ok v d)) ∧ hit v d (.ok a)) ∨
        (∃ e, first (.ok (.fail e))) ∧ miss (.ok a) := by
  constructor
  · rintro (_ | @⟨v, d, _, hv, ha⟩ | @⟨e, _, he, ha⟩)
    · exact .inl ⟨v, d, hv, ha⟩
    · exact .inr ⟨⟨e, he⟩, ha⟩
  · rintro (⟨v, d, hv, ha⟩ | ⟨⟨e, he⟩, ha⟩)
    · exact .hit hv ha
    · exact .miss he ha

namespace Parsing

variable {α β : Type} {x : Nat → Parsing Unit α} {P : Except Rule α → Prop}

/-- The outcomes `P` are those that `x` has with some fuel, and keeps with more. -/
structure Settles (x : Nat → Parsing Unit α) (P : Except Rule α → Prop) : Prop where
  sound : ∀ {n o}, EndsIn (x n) o → P o
  complete : ∀ {o}, P o → ∃ n, ∀ m, n ≤ m → EndsIn (x m) o

namespace Settles

theorem exists_iff (h : Settles x P) {o : Except Rule α} : (∃ n, EndsIn (x n) o) ↔ P o := by
  constructor
  · rintro ⟨n, hn⟩
    exact h.sound hn
  · intro ho
    obtain ⟨n, hn⟩ := h.complete ho
    exact ⟨n, hn n (Nat.le_refl n)⟩

theorem pure {a : α} : Settles (fun _ => Pure.pure a) (· = .ok a) where
  sound hn := endsIn_pure.1 hn
  complete ho := ⟨0, fun _ _ => endsIn_pure.2 ho⟩

theorem succ (h : Settles x P) : Settles (fun n => x (n + 1)) P where
  sound hn := h.sound hn
  complete ho := by
    obtain ⟨n, hn⟩ := h.complete ho
    exact ⟨n, fun m hnm => hn (m + 1) (Nat.le_succ_of_le hnm)⟩

theorem map (h : Settles x P) (f : α → β) :
    Settles (fun n => f <$> x n) fun o => ∃ o', P o' ∧ o = o'.map f where
  sound hn := by
    obtain ⟨o', ho', rfl⟩ := endsIn_map.1 hn
    exact ⟨o', h.sound ho', rfl⟩
  complete := by
    rintro _ ⟨o', ho', rfl⟩
    obtain ⟨n, hn⟩ := h.complete ho'
    exact ⟨n, fun m hnm => endsIn_map.2 ⟨o', hn m hnm, rfl⟩⟩

theorem branch {x : Nat → Parsing Unit (Answer α)} {P : Except Rule (Answer α) → Prop}
    {y : Nat → α → Cursor → Parsing Unit β} {z : Nat → Parsing Unit β}
    {hit : α → Cursor → Except Rule β → Prop} {miss : Except Rule β → Prop}
    (hx : Settles x P) (hy : ∀ v d, Settles (fun n => y n v d) (hit v d)) (hz : Settles z miss) :
    Settles (fun n => do match ← x n with | .ok v d => y n v d | .fail _ => z n)
      (Branch P hit miss) where
  sound hn := by
    rcases endsIn_bind.1 hn with ⟨r, hr, rfl⟩ | ⟨v | e, ha, ho⟩
    · exact .abort (hx.sound hr)
    · exact .hit (hx.sound ha) ((hy _ _).sound ho)
    · exact .miss (hx.sound ha) (hz.sound ho)
  complete ho := by
    cases ho with
    | abort hr =>
      obtain ⟨n, hn⟩ := hx.complete hr
      exact ⟨n, fun m hnm => endsIn_bind.2 (.inl ⟨_, hn m hnm, rfl⟩)⟩
    | hit hv ho =>
      obtain ⟨n, hn⟩ := eventually_and (hx.complete hv) ((hy _ _).complete ho)
      exact ⟨n, fun m hnm => endsIn_bind.2 (.inr ⟨_, hn m hnm⟩)⟩
    | miss he ho =>
      obtain ⟨n, hn⟩ := eventually_and (hx.complete he) (hz.complete ho)
      exact ⟨n, fun m hnm => endsIn_bind.2 (.inr ⟨_, hn m hnm⟩)⟩

end Settles
end Parsing

namespace Grammar

open Parsing (Settles bind_answer_congr not_endsIn_unfinished)

variable {κ ω α : Type} {env : Env κ ω Unit α} {g a b whole : Grammar κ ω α} {c d : Cursor}
  {v : Value α} {e : ParseError} {o : Except Rule (Answer (Value α))}

theorem settles_eval (hf : env.toForeign.Monotone) (g : Grammar κ ω α) (c : Cursor) :
    Settles (fun n => eval env n g c) (Comes env g c) where
  sound hn := ⟨_, hn⟩
  complete ho := ho.eventually hf

theorem comes_of_settles {x : Nat → Parsing Unit (Answer (Value α))}
    {P : Except Rule (Answer (Value α)) → Prop} (heq : ∀ n, eval env (n + 1) whole c = x n)
    (h : Settles x P) : Comes env whole c o ↔ P o := by
  rw [← h.exists_iff]
  constructor
  · rintro ⟨n, hn⟩
    cases n with
    | zero => exact absurd hn not_endsIn_unfinished
    | succ n => exact ⟨n, heq n ▸ hn⟩
  · rintro ⟨n, hn⟩
    exact ⟨n + 1, heq n ▸ hn⟩

section First

variable {hit : Value α → Cursor → Except Rule (Answer (Value α)) → Prop}
  {miss : Except Rule (Answer (Value α)) → Prop}

theorem branch_iff_hit (hf : env.toForeign.Monotone) (h : Comes env g c (.ok (.ok v d))) :
    Branch (Comes env g c) hit miss o ↔ hit v d o := by
  constructor
  · rintro (hr | ⟨hv, ho⟩ | ⟨he, -⟩)
    · cases h.unique hf hr
    · cases h.unique hf hv
      exact ho
    · cases h.unique hf he
  · exact .hit h

theorem branch_iff_miss (hf : env.toForeign.Monotone) (h : Comes env g c (.ok (.fail e))) :
    Branch (Comes env g c) hit miss o ↔ miss o := by
  constructor
  · rintro (hr | ⟨hv, -⟩ | ⟨he, ho⟩)
    · cases h.unique hf hr
    · cases h.unique hf hv
    · exact ho
  · exact .miss h

end First

/-! ## Tests and ordered choice -/

def Fails (env : Env κ ω Unit α) (g : Grammar κ ω α) (c : Cursor) : Prop :=
  ∃ e, Comes env g c (.ok (.fail e))

/-- The answer of a negative test at `c`. -/
def negated (c : Cursor) : Answer (Value α) → Answer (Value α)
  | .ok _ _ => .fail (.ofCursor .unexpectedMatch c)
  | .fail _ => .ok .unit c

theorem comes_not (hf : env.toForeign.Monotone) :
    Comes env (.not g) c o ↔ ∃ o', Comes env g c o' ∧ o = o'.map (negated c) := by
  refine comes_of_settles (fun n => ?_) ((settles_eval hf g c).map (negated c))
  simp only [eval, Parser.map, Parser.not, map_bind]
  rw [map_eq_pure_bind]
  exact bind_answer_congr (fun _ _ => rfl) fun _ => rfl

theorem comes_not_ok (hf : env.toForeign.Monotone) :
    Comes env (.not g) c (.ok (.ok v d)) ↔ Fails env g c ∧ v = .unit ∧ d = c := by
  rw [comes_not hf]
  constructor
  · rintro ⟨_ | _ | e, he, heq⟩
    · cases heq
    · cases heq
    · cases heq
      exact ⟨⟨e, he⟩, rfl, rfl⟩
  · rintro ⟨⟨e, he⟩, rfl, rfl⟩
    exact ⟨_, he, rfl⟩

theorem fails_not (hf : env.toForeign.Monotone) :
    Fails env (.not g) c ↔ ∃ v d, Comes env g c (.ok (.ok v d)) := by
  constructor
  · rintro ⟨e, h⟩
    obtain ⟨_ | ⟨v, d⟩ | _, hg, heq⟩ := (comes_not hf).1 h
    · cases heq
    · exact ⟨v, d, hg⟩
    · cases heq
  · rintro ⟨v, d, hg⟩
    exact ⟨_, (comes_not hf).2 ⟨_, hg, rfl⟩⟩

/-- The failure of an ordered choice lies where it was started, whatever its last part says. -/
def settled (c : Cursor) : Answer (Value α) → Answer (Value α)
  | .ok v d => .ok v d
  | .fail _ => .fail (.ofCursor .noAlternative c)

theorem comes_or (hf : env.toForeign.Monotone) :
    Comes env (.or a b) c o ↔
      Branch (Comes env a c) (fun v d o => o = .ok (.ok v d))
        (fun o => ∃ o', Comes env b c o' ∧ o = o'.map (settled c)) o := by
  refine comes_of_settles (fun n => ?_)
    ((settles_eval hf a c).branch (fun v d => .pure) ((settles_eval hf b c).map (settled c)))
  simp only [eval, Parser.or, map_eq_pure_bind]
  refine bind_answer_congr (fun _ _ => rfl) fun _ => ?_
  exact bind_answer_congr (fun _ _ => rfl) fun _ => rfl

theorem comes_or_ok (hf : env.toForeign.Monotone) :
    Comes env (.or a b) c (.ok (.ok v d)) ↔
      Comes env a c (.ok (.ok v d)) ∨ Fails env a c ∧ Comes env b c (.ok (.ok v d)) := by
  rw [comes_or hf, branch_ok]
  constructor
  · rintro (⟨_, _, ha, heq⟩ | ⟨he, _ | _ | _, hb, heq⟩)
    · cases heq
      exact .inl ha
    · cases heq
    · cases heq
      exact .inr ⟨he, hb⟩
    · cases heq
  · rintro (ha | ⟨he, hb⟩)
    · exact .inl ⟨v, d, ha, rfl⟩
    · exact .inr ⟨he, _, hb, rfl⟩

/-! ## Committed choice -/

theorem comes_lookahead_cons (hf : env.toForeign.Monotone)
    {arm : GuardedArm (Grammar κ ω α) (Value α → Value α)}
    {arms : List (GuardedArm (Grammar κ ω α) (Value α → Value α))} {ow : Option (Grammar κ ω α)} :
    Comes env (.lookahead ⟨arm :: arms, ow⟩) c o ↔
      Branch (Comes env arm.look c)
        (fun l d o => ∃ o', Comes env arm.step (if arm.consume then d else c) o' ∧
          o = o'.map (Answer.map fun w => arm.transform (.guarded l w)))
        (Comes env (.lookahead ⟨arms, ow⟩) c) o := by
  have hstep (l : Value α) (d : Cursor) :=
    (settles_eval hf arm.step (if arm.consume then d else c)).map
      (Answer.map fun w => arm.transform (.guarded l w))
  -- what is left of the arms runs on the fuel of the whole
  have hrest := (settles_eval hf (.lookahead ⟨arms, ow⟩) c).succ
  refine comes_of_settles (fun n => ?_) ((settles_eval hf arm.look c).branch hstep hrest)
  rw [eval_lookahead_cons]
  exact bind_answer_congr (fun _ _ => rfl) fun _ => rfl

/-- The outcome of a committed choice at `c` when no guard has succeeded. -/
def Otherwise (env : Env κ ω Unit α) (c : Cursor) :
    Option (Grammar κ ω α) → Except Rule (Answer (Value α)) → Prop
  | some g, o => Comes env g c o
  | none, o => o = .ok (.fail (.ofCursor .noAlternative c))

theorem comes_lookahead_nil (hf : env.toForeign.Monotone) {ow : Option (Grammar κ ω α)} :
    Comes env (.lookahead ⟨[], ow⟩) c o ↔ Otherwise env c ow o := by
  cases ow with
  | none => exact comes_of_settles (fun _ => rfl) .pure
  | some g => exact comes_of_settles (fun _ => rfl) (settles_eval hf g c)

end Grammar
end Peg
