import Peg.Proofs.Grammar.Comes

/-!
# Peg.Proofs.Grammar.Unbounded

The parser of a grammar without a bound, as one computation.

* `Parsing.Approaches x y`: with growing bounds the computations `x` come to have the runs of `y`, and
  never any other.
* `Grammar.unbounded env g`: what the parsers of `g` approach when their fuel grows. Its runs are the
  runs of `g` (`runs_iff_unbounded`).
* `unbounded_or`, `unbounded_alternative`, `unbounded_and`, `unbounded_seq`: it is made of the parsers
  of the parts by the combinator itself.

So what holds of a combinator for all parsers holds of the grammar, with records and state, and no
fuel has to be compared.
-/

namespace Peg
namespace Parsing

variable {σ α β : Type} {x : Nat → Parsing σ α} {y y' : Parsing σ α}

structure Approaches (x : Nat → Parsing σ α) (y : Parsing σ α) : Prop where
  below : ∀ n, Extends (x n) y
  reached : ∀ {s r}, y s = some r → ∃ n, ∀ m, n ≤ m → x m s = some r

namespace Approaches

theorem const (y : Parsing σ α) : Approaches (fun _ => y) y where
  below _ := .refl y
  reached h := ⟨0, fun _ _ => h⟩

theorem succ (h : Approaches x y) : Approaches (fun n => x (n + 1)) y where
  below n := h.below (n + 1)
  reached hr := by
    obtain ⟨n, hn⟩ := h.reached hr
    exact ⟨n, fun m hnm => hn (m + 1) (Nat.le_succ_of_le hnm)⟩

/-- What follows may run on the larger of the two bounds. -/
theorem bind {f : Nat → α → Parsing σ β} {g : α → Parsing σ β} (hx : Approaches x y)
    (hf : ∀ a, Approaches (fun n => f n a) (g a)) :
    Approaches (fun n => x n >>= f n) (y >>= g) where
  below n := (hx.below n).bind fun a => (hf a).below n
  reached hr := by
    rcases bind_eq_some_iff.1 hr with ⟨rule, log, s', h, he⟩ | ⟨a, log, s', r', h, h', he⟩
    · obtain ⟨n, hn⟩ := hx.reached h
      exact ⟨n, fun m hnm => bind_eq_some_iff.2 (.inl ⟨rule, log, s', hn m hnm, he⟩)⟩
    · obtain ⟨n, hn⟩ := eventually_and (hx.reached h) ((hf a).reached h')
      refine ⟨n, fun m hnm => bind_eq_some_iff.2 (.inr ⟨a, log, s', r', ?_⟩)⟩
      exact ⟨(hn m hnm).1, (hn m hnm).2, he⟩

theorem map (f : α → β) (hx : Approaches x y) : Approaches (fun n => f <$> x n) (f <$> y) := by
  simp only [map_eq_pure_bind]
  exact hx.bind fun a => const _

theorem extends_of (h : Approaches x y) (h' : Approaches x y') : Extends y y' := by
  intro s r hr
  obtain ⟨n, hn⟩ := h.reached hr
  exact h'.below n s r (hn n (Nat.le_refl n))

theorem unique (h : Approaches x y) (h' : Approaches x y') : y = y' := by
  ext1 s
  refine Option.ext fun r => ⟨?_, ?_⟩
  · exact h.extends_of h' s r
  · exact h'.extends_of h s r

end Approaches
end Parsing

namespace Grammar

open Parsing (Approaches)

variable {κ ω σ α : Type} {env : Env κ ω σ α} {g a b : Grammar κ ω α} {c : Cursor} {s : σ}
  {r : Run σ (Answer (Value α))}

open Classical in
noncomputable def unbounded (env : Env κ ω σ α) (g : Grammar κ ω α) : Parser σ (Value α) :=
  fun c s => if h : ∃ r, Runs env g c s r then some h.choose else none

section

variable (hf : env.toForeign.Monotone)

include hf

theorem runs_iff_unbounded : Runs env g c s r ↔ unbounded env g c s = some r := by
  unfold unbounded
  constructor
  · intro h
    rw [dif_pos ⟨r, h⟩, Option.some.injEq]
    exact Runs.unique hf (Exists.choose_spec ⟨r, h⟩) h
  · intro h
    split at h
    next hex =>
      cases h
      exact hex.choose_spec
    next => cases h

theorem approaches_unbounded (g : Grammar κ ω α) (c : Cursor) :
    Approaches (fun n => eval env n g c) (unbounded env g c) where
  below n s r h := (runs_iff_unbounded hf).1 ⟨n, h⟩
  reached h := by
    obtain ⟨n, hn⟩ := (runs_iff_unbounded hf).2 h
    exact ⟨n, fun m hnm => eval_extends hf hnm g c _ _ hn⟩

theorem unbounded_eq {y : Parser σ (Value α)}
    (h : ∀ c, Approaches (fun n => eval env (n + 1) g c) (y c)) : unbounded env g = y :=
  funext fun c => (approaches_unbounded hf g c).succ.unique (h c)

theorem unbounded_or :
    unbounded env (.or a b) = Parser.or (unbounded env a) (unbounded env b) := by
  refine unbounded_eq hf fun c => (approaches_unbounded hf a c).bind fun x => ?_
  cases x with
  | ok v d => exact .const _
  | fail e => exact (approaches_unbounded hf b c).bind fun _ => .const _

theorem unbounded_alternative (gs : List (Grammar κ ω α)) :
    unbounded env (.alternative gs) = Parser.alternative (gs.map (unbounded env)) := by
  refine unbounded_eq hf fun c => ?_
  induction gs with
  | nil => exact .const _
  | cons g gs ih =>
    simp only [eval_alternative_cons]
    refine (approaches_unbounded hf g c).bind fun x => ?_
    cases x with
    | ok v d => exact .const _
    | fail e => exact ih

theorem unbounded_and :
    unbounded env (.and a b) =
      (Parser.and (unbounded env a) (unbounded env b)).map fun v => .pair v.1 v.2 := by
  refine unbounded_eq hf fun c => Approaches.map _ ?_
  refine (approaches_unbounded hf a c).bind fun x => ?_
  cases x with
  | ok v d => exact (approaches_unbounded hf b d).map _
  | fail e => exact .const _

theorem unbounded_seq (gs : List (Grammar κ ω α)) :
    unbounded env (.seq gs) = (Parser.seq (gs.map (unbounded env))).map .list := by
  refine unbounded_eq hf fun c => Approaches.map _ ?_
  induction gs generalizing c with
  | nil => exact .const _
  | cons g gs ih =>
    refine (approaches_unbounded hf g c).bind fun x => ?_
    cases x with
    | ok v d => exact (ih d).map _
    | fail e => exact .const _

end
end Grammar
end Peg
