import Peg.Value

/-!
# Peg.Proofs.Value.Spans

The spans in a value.

* `Value.spans v`: the spans at any depth of `v`, the inner ones before the outer ones.
* `Value.mapSpans f v`: the value `v` with `f s` in place of every span `s`.

What a value holds besides its spans does not depend on them: `chars_mapSpans`, `join_mapSpans`,
`second_mapSpans`.
-/

namespace Peg
namespace Value

variable {α : Type}

mutual

def spans : Value α → List Span
  | unit | num _ | none | char _ | text _ => []
  | some v | tagged _ v => v.spans
  | spanned v s => v.spans ++ [s]
  | list vs => spansAll vs
  | pair a b | guarded a b => a.spans ++ b.spans

def spansAll : List (Value α) → List Span
  | [] => []
  | v :: vs => v.spans ++ spansAll vs

end

mutual

def mapSpans (f : Span → Span) : Value α → Value α
  | unit => unit
  | char c => char c
  | text s => text s
  | num n => num n
  | none => none
  | some v => some (v.mapSpans f)
  | list vs => list (mapSpansAll f vs)
  | pair a b => pair (a.mapSpans f) (b.mapSpans f)
  | guarded a b => guarded (a.mapSpans f) (b.mapSpans f)
  | spanned v s => spanned (v.mapSpans f) (f s)
  | tagged t v => tagged t (v.mapSpans f)

def mapSpansAll (f : Span → Span) : List (Value α) → List (Value α)
  | [] => []
  | v :: vs => v.mapSpans f :: mapSpansAll f vs

end

variable (f : Span → Span)

mutual

theorem spans_mapSpans (v : Value α) : (v.mapSpans f).spans = v.spans.map f := by
  cases v with
  | unit | num _ | none | char _ | text _ => rfl
  | some v | tagged _ v => exact spans_mapSpans v
  | spanned v s =>
    rw [mapSpans, spans, spans, spans_mapSpans v, List.map_append, List.map_singleton]
  | list vs => exact spansAll_mapSpansAll vs
  | pair a b | guarded a b =>
    rw [mapSpans, spans, spans, spans_mapSpans a, spans_mapSpans b, List.map_append]

theorem spansAll_mapSpansAll (vs : List (Value α)) :
    spansAll (mapSpansAll f vs) = (spansAll vs).map f := by
  cases vs with
  | nil => rfl
  | cons v vs =>
    rw [mapSpansAll, spansAll, spansAll, spans_mapSpans v, spansAll_mapSpansAll vs,
      List.map_append]

end

mutual

theorem chars_mapSpans (v : Value α) : (v.mapSpans f).chars = v.chars := by
  cases v with
  | unit | num _ | none | char _ | text _ => rfl
  | some v | tagged _ v | spanned v _ => exact chars_mapSpans v
  | list vs => exact charsAll_mapSpansAll vs
  | pair a b | guarded a b =>
    rw [mapSpans, chars, chars, chars_mapSpans a, chars_mapSpans b]

theorem charsAll_mapSpansAll (vs : List (Value α)) :
    charsAll (mapSpansAll f vs) = charsAll vs := by
  cases vs with
  | nil => rfl
  | cons v vs => rw [mapSpansAll, charsAll, charsAll, chars_mapSpans v, charsAll_mapSpansAll vs]

end

theorem join_mapSpans (v : Value α) : (v.mapSpans f).join = v.join.mapSpans f := by
  rw [join_eq, join_eq, chars_mapSpans, mapSpans]

theorem second_mapSpans (v : Value α) : (v.mapSpans f).second = v.second.mapSpans f := by
  cases v with
  | _ => rfl

theorem spans_second_subset (v : Value α) : v.second.spans ⊆ v.spans := by
  cases v with
  | pair a b | guarded a b => exact List.subset_append_right _ _
  | _ => exact List.Subset.refl _

end Value
end Peg
