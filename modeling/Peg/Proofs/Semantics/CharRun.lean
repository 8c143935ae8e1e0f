import Peg.Proofs.Semantics.Inversion

/-!
# Peg.Proofs.Semantics.CharRun

Runs of characters of one class, and the white space in front of a grammar.

* `many0_single`, `many1_single`: a repetition reads a run up to the first character outside the class.
* `spaceBefore`: white space in front is read and forgotten, also when the grammar behind it fails.

Both come with their converses.
-/

namespace Peg
namespace Grammar
namespace Derives

variable {α : Type} {body? : Nat → Option (Grammar Empty Empty α)}
  {mark : List Char → List Char → Span} {g : Grammar Empty Empty α}
  {test : Option Char → Bool} {u rest : List Char}

theorem many0_single (hu : ∀ ch ∈ u, test (some ch) = true)
    (hrest : ∀ ch ∈ rest.head?, test (some ch) = false) :
    Derives body? mark (.many0 (.single test)) (u ++ rest) (.ok (.list (u.map .char)) rest) := by
  induction u with
  | nil =>
    cases rest with
    | nil => exact .many0Stop .singleEnd
    | cons ch rest => exact .many0Stop (.singleMiss (hrest ch rfl))
  | cons ch u ih =>
    have hch := hu ch List.mem_cons_self
    exact .many0More (.single hch) (ih fun d hd => hu d (List.mem_cons_of_mem _ hd))

theorem many1_single (hne : u ≠ []) (hu : ∀ ch ∈ u, test (some ch) = true)
    (hrest : ∀ ch ∈ rest.head?, test (some ch) = false) :
    Derives body? mark (.many1 (.single test)) (u ++ rest) (.ok (.list (u.map .char)) rest) := by
  cases u with
  | nil => exact absurd rfl hne
  | cons ch u =>
    have hch := hu ch List.mem_cons_self
    exact .many1 (.single hch) (many0_single (fun d hd => hu d (List.mem_cons_of_mem _ hd)) hrest)

theorem of_many0_single {vs : List (Value α)} {cs : List Char}
    (h : Derives body? mark (.many0 (.single test)) cs (.ok (.list vs) rest)) :
    ∃ u, u ++ rest = cs ∧ (∀ ch ∈ u, test (some ch) = true) ∧ vs = u.map .char := by
  induction vs generalizing cs with
  | nil =>
    cases h with
    | many0Stop _ => exact ⟨[], rfl, by simp, rfl⟩
  | cons v vs ih =>
    cases h with
    | many0More hv hvs =>
      obtain ⟨ch, rfl, ht, rfl⟩ := hv.single_ok
      obtain ⟨u, rfl, hu, rfl⟩ := ih hvs
      exact ⟨ch :: u, rfl, List.forall_mem_cons.2 ⟨ht, hu⟩, rfl⟩

theorem of_many1_single {v : Value α} {cs : List Char}
    (h : Derives body? mark (.many1 (.single test)) cs (.ok v rest)) :
    ∃ u, u ≠ [] ∧ u ++ rest = cs ∧ (∀ ch ∈ u, test (some ch) = true) ∧
      v = .list (u.map .char) := by
  cases h with
  | many1 hv hvs =>
    obtain ⟨ch, rfl, ht, rfl⟩ := hv.single_ok
    obtain ⟨u, rfl, hu, rfl⟩ := hvs.of_many0_single
    exact ⟨ch :: u, by simp, rfl, List.forall_mem_cons.2 ⟨ht, hu⟩, rfl⟩

theorem spaceBefore {o : Outcome α} (hu : ∀ ch ∈ u, CharClass.isSpace (some ch) = true)
    (hrest : ∀ ch ∈ rest.head?, CharClass.isSpace (some ch) = false)
    (h : Derives body? mark g rest o) : Derives body? mark (spaceBefore g) (u ++ rest) o := by
  have hspaces : Derives body? mark (.many0 whitespace) (u ++ rest)
      (.ok (.list (u.map .char)) rest) := many0_single hu hrest
  have hd := Derives.map (f := Value.second) (hspaces.andNext h)
  cases o <;> exact hd

theorem of_spaceBefore {v : Value α} {cs : List Char}
    (h : Derives body? mark (Grammar.spaceBefore g) cs (.ok v rest)) :
    ∃ u mid, u ++ mid = cs ∧ (∀ ch ∈ u, CharClass.isSpace (some ch) = true) ∧
      Derives body? mark g mid (.ok v rest) := by
  obtain ⟨w, hw, rfl⟩ := h.map_ok
  obtain ⟨x, mid, y, hx, hy, rfl⟩ := hw.and_ok
  obtain ⟨vs, left, he⟩ := hx.list_of_many0
  cases he
  obtain ⟨u, rfl, hu, -⟩ := hx.of_many0_single
  exact ⟨u, mid, rfl, hu, hy⟩

end Derives
end Grammar
end Peg
