import Peg.Parser.Choice
import Peg.Parser.Drive
import Peg.Parser.Lookahead
import Peg.Parser.Repeat

/-!
# Peg.Parser.Congruence

Comparisons of computations that every combinator keeps.

A combinator runs its parsers one after the other and goes on with their answers. A comparison that
goes through such sequences (`Parsing.Congruence`) therefore goes through all combinators: parsers
that compare from every cursor (`Related`) make parsers that compare.
-/

namespace Peg

structure Parsing.Congruence (σ : Type) where
  Rel {β : Type} : Parsing σ β → Parsing σ β → Prop
  refl {β : Type} (x : Parsing σ β) : Rel x x
  bind {β γ : Type} {x y : Parsing σ β} {f g : β → Parsing σ γ} :
    Rel x y → (∀ a, Rel (f a) (g a)) → Rel (x >>= f) (y >>= g)

theorem Parsing.Congruence.map {σ β γ : Type} (C : Parsing.Congruence σ) (f : β → γ)
    {x y : Parsing σ β} (h : C.Rel x y) : C.Rel (f <$> x) (f <$> y) := by
  rw [map_eq_pure_bind, map_eq_pure_bind]
  exact C.bind h fun _ => C.refl _

namespace Parser

variable {σ β γ δ ι : Type} {C : Parsing.Congruence σ}

def Related (C : Parsing.Congruence σ) (p q : Parser σ β) : Prop := ∀ c, C.Rel (p c) (q c)

namespace Related

variable {p p' : Parser σ β} {q q' : Parser σ γ}

theorem refl (p : Parser σ β) : Related C p p := fun _ => C.refl _

theorem map (f : β → γ) (h : Related C p p') : Related C (p.map f) (p'.map f) :=
  fun c => C.map _ (h c)

theorem andThen {f f' : β → Parser σ γ} (h : Related C p p') (hf : ∀ v, Related C (f v) (f' v)) :
    Related C (p.andThen f) (p'.andThen f') := by
  intro c
  refine C.bind (h c) fun a => ?_
  cases a with
  | ok v d => exact hf v d
  | fail e => exact C.refl _

theorem and (hp : Related C p p') (hq : Related C q q') : Related C (p.and q) (p'.and q') :=
  hp.andThen fun _ => hq.map _

theorem seq {f f' : ι → Parser σ β} (xs : List ι) (h : ∀ x, Related C (f x) (f' x)) :
    Related C (seq (xs.map f)) (seq (xs.map f')) := by
  induction xs with
  | nil => exact refl _
  | cons x xs ih => exact (h x).andThen fun _ => ih.map _

theorem withSpan (h : Related C p p') : Related C p.withSpan p'.withSpan :=
  fun c => C.bind (h c) fun _ => C.refl _

theorem alternative {f f' : ι → Parser σ β} (xs : List ι) (h : ∀ x, Related C (f x) (f' x)) :
    Related C (alternative (xs.map f)) (alternative (xs.map f')) := by
  induction xs with
  | nil => exact refl _
  | cons x xs ih =>
    intro c
    refine C.bind (h x c) fun a => ?_
    cases a with
    | ok v d => exact C.refl _
    | fail e => exact ih c

theorem or {q q' : Parser σ β} (hp : Related C p p') (hq : Related C q q') :
    Related C (p.or q) (p'.or q') := by
  intro c
  refine C.bind (hp c) fun a => ?_
  cases a with
  | ok v d => exact C.refl _
  | fail e => exact C.bind (hq c) fun _ => C.refl _

theorem optional (h : Related C p p') : Related C p.optional p'.optional :=
  fun c => C.bind (h c) fun _ => C.refl _

theorem not (h : Related C p p') : Related C p.not p'.not :=
  fun c => C.bind (h c) fun _ => C.refl _

/-- With a larger bound the rounds go on where the others are cut off. -/
theorem greedy (h : Related C p p') {n m : Nat} (hnm : n ≤ m)
    (hcut : n = m ∨ ∀ x : Parsing σ (List β × Cursor), C.Rel .unfinished x) (c : Cursor) :
    C.Rel (greedy p n c) (greedy p' m c) := by
  induction n generalizing m c with
  | zero =>
    rcases hcut with rfl | hcut
    · exact C.refl _
    · exact hcut _
  | succ n ih =>
    obtain ⟨m, rfl⟩ : ∃ k, m = k + 1 := ⟨m - 1, by omega⟩
    refine C.bind (h c) fun a => ?_
    cases a with
    | ok v d => exact C.map _ (ih (by omega) (hcut.imp_left (by omega)) d)
    | fail e => exact C.refl _

theorem many0 (h : Related C p p') {n m : Nat} (hnm : n ≤ m)
    (hcut : n = m ∨ ∀ x : Parsing σ (List β × Cursor), C.Rel .unfinished x) :
    Related C (p.many0 n) (p'.many0 m) :=
  fun c => C.map _ (h.greedy hnm hcut c)

theorem many1 (h : Related C p p') {n m : Nat} (hnm : n ≤ m)
    (hcut : n = m ∨ ∀ x : Parsing σ (List β × Cursor), C.Rel .unfinished x) :
    Related C (p.many1 n) (p'.many1 m) :=
  fun c => C.bind (h.greedy hnm hcut c) fun _ => C.refl _

theorem lookahead {o o' : Option (Parser σ δ)} (f f' : ι → Arm σ β γ δ) (xs : List ι)
    (ho : Related C (o.getD (refuse .noAlternative)) (o'.getD (refuse .noAlternative)))
    (hl : ∀ x, Related C (f x).look (f' x).look) (hs : ∀ x, Related C (f x).step (f' x).step)
    (hc : ∀ x, (f x).consume = (f' x).consume) (ht : ∀ x, (f x).transform = (f' x).transform) :
    Related C (lookahead o (xs.map f)) (lookahead o' (xs.map f')) := by
  induction xs with
  | nil => exact ho
  | cons x xs ih =>
    intro c
    refine C.bind (hl x c) fun a => ?_
    cases a with
    | ok v d =>
      dsimp only
      rw [hc, ht]
      exact (hs x).map _ _
    | fail e => exact ih c

theorem drive (h : Related C p p') : Related C p.drive p'.drive :=
  fun c => C.bind (C.refl _) fun _ => C.bind (h c) fun _ => C.refl _

end Related
end Parser
end Peg
