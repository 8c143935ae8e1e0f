import Peg.Parser.Congruence
import Peg.Parsing.Extends

/-!
# Peg.Parser.Extends

One parser extends another if from every cursor it has at least the runs of the other. Every
combinator keeps this order in each of its parsers, and a repetition also in its bound
(`Extends.greedy`): more rounds allowed never change a run that ended within fewer.
-/

namespace Peg

/-- The order of computations by the runs that they have. -/
def Parsing.Extends.congruence {σ : Type} : Parsing.Congruence σ where
  Rel := Parsing.Extends
  refl := .refl
  bind := .bind

namespace Parser

variable {σ β γ δ ι : Type}

def Extends (p q : Parser σ β) : Prop := ∀ c, Parsing.Extends (p c) (q c)

namespace Extends

open Parsing.Extends (congruence)

variable {p p' : Parser σ β} {q q' : Parser σ γ}

theorem refl (p : Parser σ β) : Extends p p := Related.refl p (C := congruence)

theorem map (f : β → γ) (h : Extends p p') : Extends (p.map f) (p'.map f) :=
  Related.map f h (C := congruence)

theorem and (hp : Extends p p') (hq : Extends q q') : Extends (p.and q) (p'.and q') :=
  Related.and hp hq (C := congruence)

theorem seq {f f' : ι → Parser σ β} (xs : List ι) (h : ∀ x, Extends (f x) (f' x)) :
    Extends (seq (xs.map f)) (seq (xs.map f')) :=
  Related.seq xs h (C := congruence)

theorem withSpan (h : Extends p p') : Extends p.withSpan p'.withSpan :=
  Related.withSpan h (C := congruence)

theorem invoke (r : Rule) {f f' : ι → Parser σ β} (body : Option ι)
    (h : ∀ x, Extends (f x) (f' x)) :
    Extends (invoke r (body.map f)) (invoke r (body.map f')) := by
  cases body with
  | none => exact refl _
  | some x => exact fun c => (Parsing.Extends.refl _).bind fun _ => h x c

theorem alternative {f f' : ι → Parser σ β} (xs : List ι) (h : ∀ x, Extends (f x) (f' x)) :
    Extends (alternative (xs.map f)) (alternative (xs.map f')) :=
  Related.alternative xs h (C := congruence)

theorem or {q q' : Parser σ β} (hp : Extends p p') (hq : Extends q q') :
    Extends (p.or q) (p'.or q') :=
  Related.or hp hq (C := congruence)

theorem optional (h : Extends p p') : Extends p.optional p'.optional :=
  Related.optional h (C := congruence)

theorem not (h : Extends p p') : Extends p.not p'.not := Related.not h (C := congruence)

theorem greedy (h : Extends p p') {n m : Nat} (hnm : n ≤ m) (c : Cursor) :
    Parsing.Extends (greedy p n c) (greedy p' m c) :=
  Related.greedy h hnm (.inr .unfinished) c (C := congruence)

theorem many0 (h : Extends p p') {n m : Nat} (hnm : n ≤ m) : Extends (p.many0 n) (p'.many0 m) :=
  Related.many0 h hnm (.inr .unfinished) (C := congruence)

theorem many1 (h : Extends p p') {n m : Nat} (hnm : n ≤ m) : Extends (p.many1 n) (p'.many1 m) :=
  Related.many1 h hnm (.inr .unfinished) (C := congruence)

theorem lookahead {o o' : Option (Parser σ δ)} (f f' : ι → Arm σ β γ δ) (xs : List ι)
    (ho : Extends (o.getD (refuse .noAlternative)) (o'.getD (refuse .noAlternative)))
    (hl : ∀ x, Extends (f x).look (f' x).look) (hs : ∀ x, Extends (f x).step (f' x).step)
    (hc : ∀ x, (f x).consume = (f' x).consume) (ht : ∀ x, (f x).transform = (f' x).transform) :
    Extends (lookahead o (xs.map f)) (lookahead o' (xs.map f')) :=
  Related.lookahead f f' xs ho hl hs hc ht (C := congruence)

theorem drive (h : Extends p p') : Extends p.drive p'.drive := Related.drive h (C := congruence)

end Extends
end Parser
end Peg
