import Peg.Proofs.Grammar.WellFormed
import Peg.Proofs.Semantics.Adequacy
import Peg.Proofs.Semantics.Progress

/-!
# Peg.Proofs.Semantics.Terminates

Well-formed grammars come to an end on every input.

* `Ends body? mark g cs`: `g` derives some outcome from `cs`.
* `Ends.of_leftmost`: `g` ends at `cs` if the rules that it may invoke in front end there, and all
  grammars end on shorter input.
* `WellFormed.ends`: by induction on the length of the input, and for one input on the rank of rules.
-/

namespace Peg
namespace Grammar

variable {α : Type} {body? : Nat → Option (Grammar Empty Empty α)}
  {mark : List Char → List Char → Span}

def Ends (body? : Nat → Option (Grammar Empty Empty α)) (mark : List Char → List Char → Span)
    (g : Grammar Empty Empty α) (cs : List Char) : Prop :=
  ∃ o, Derives body? mark g cs o

namespace Ends

variable {g a b : Grammar Empty Empty α} {cs : List Char}

/-- Behind `a` the input is shorter, unless `a` is nullable. -/
theorem after {v : Value α} {mid : List Char} (ha : Derives body? mark a cs (.ok v mid))
    (hlater : ∀ ds, ds.length < cs.length → Ends body? mark b ds)
    (hnow : Nullable body? a → Ends body? mark b cs) : Ends body? mark b mid := by
  have hmid : mid <:+ cs := ha.rest_suffix
  by_cases hlt : mid.length < cs.length
  · exact hlater mid hlt
  · have heq : mid = cs := by
      apply hmid.eq_of_length
      have hle := hmid.length_le
      omega
    subst heq
    apply hnow
    rcases ha.nullable_or_lt with hn | hlt'
    · exact hn
    · exact absurd hlt' hlt

theorem single (test : Option Char → Bool) (cs : List Char) :
    Ends body? mark (.single test) cs := by
  cases cs with
  | nil => exact ⟨_, .singleEnd⟩
  | cons ch cs =>
    by_cases ht : test (some ch) = true
    · exact ⟨_, .single ht⟩
    · exact ⟨_, .singleMiss (by simpa using ht)⟩

theorem eof (cs : List Char) : Ends body? mark .eof cs := by
  cases cs with
  | nil => exact ⟨_, .eof⟩
  | cons ch cs => exact ⟨_, .eofMiss⟩

theorem seqCons {gs : List (Grammar Empty Empty α)} (hg : Ends body? mark g cs)
    (hs : ∀ v mid, Derives body? mark g cs (.ok v mid) → Ends body? mark (.seq gs) mid) :
    Ends body? mark (.seq (g :: gs)) cs := by
  obtain ⟨o, ho⟩ := hg
  cases o with
  | fail cause rest => exact ⟨_, .seqFail ho⟩
  | ok v mid =>
    obtain ⟨o', ho'⟩ := hs v mid ho
    cases o' with
    | fail cause rest => exact ⟨_, .seqLater ho ho'⟩
    | ok w rest =>
      obtain ⟨vs, rfl⟩ := ho'.list_of_seq
      exact ⟨_, .seqCons ho ho'⟩

theorem seq_of_le {gs : List (Grammar Empty Empty α)} {n : Nat}
    (h : ∀ g ∈ gs, ∀ ds, ds.length ≤ n → Ends body? mark g ds) :
    ∀ ds, ds.length ≤ n → Ends body? mark (.seq gs) ds := by
  induction gs with
  | nil => exact fun ds _ => ⟨_, .seqNil⟩
  | cons g gs ih =>
    intro ds hds
    have htail := ih fun k hk => h k (List.mem_cons_of_mem _ hk)
    refine seqCons (h g List.mem_cons_self ds hds) fun v mid ho => htail mid ?_
    have hmid := ho.length_le
    omega

theorem seq {gs : List (Grammar Empty Empty α)}
    (hlater : ∀ g ∈ gs, ∀ ds, ds.length < cs.length → Ends body? mark g ds)
    (hnow : ∀ g ∈ gs, (∀ r, Leftmost body? g r → Ends body? mark (.rule r) cs) →
      Ends body? mark g cs)
    (hrules : ∀ r, Leftmost body? (.seq gs) r → Ends body? mark (.rule r) cs) :
    Ends body? mark (.seq gs) cs := by
  induction gs with
  | nil => exact ⟨_, .seqNil⟩
  | cons g gs ih =>
    have hg := hnow g List.mem_cons_self fun r hr => hrules r (.seqHead hr)
    refine seqCons hg fun v mid ho => after ho ?_ ?_
    · intro ds hds
      refine seq_of_le (fun k hk es hes => ?_) ds (Nat.le_refl _)
      exact hlater k (List.mem_cons_of_mem _ hk) es (by omega)
    · intro hn
      apply ih
      · exact fun k hk => hlater k (List.mem_cons_of_mem _ hk)
      · exact fun k hk => hnow k (List.mem_cons_of_mem _ hk)
      · exact fun r hr => hrules r (.seqTail hn hr)

theorem alternative {gs : List (Grammar Empty Empty α)}
    (h : ∀ g ∈ gs, Ends body? mark g cs) : Ends body? mark (.alternative gs) cs := by
  induction gs with
  | nil => exact ⟨_, .alternativeNil⟩
  | cons g gs ih =>
    obtain ⟨o, ho⟩ := h g List.mem_cons_self
    cases o with
    | ok v rest => exact ⟨_, .alternativeHit ho⟩
    | fail cause rest =>
      obtain ⟨o', ho'⟩ := ih fun k hk => h k (List.mem_cons_of_mem _ hk)
      exact ⟨_, .alternativeNext ho ho'⟩

theorem and (ha : Ends body? mark a cs)
    (hb : ∀ v mid, Derives body? mark a cs (.ok v mid) → Ends body? mark b mid) :
    Ends body? mark (.and a b) cs := by
  obtain ⟨o, ho⟩ := ha
  cases o with
  | fail cause rest => exact ⟨_, .andFail ho⟩
  | ok v mid =>
    obtain ⟨o', ho'⟩ := hb v mid ho
    exact ⟨_, .andNext ho ho'⟩

theorem or (ha : Ends body? mark a cs) (hb : Ends body? mark b cs) :
    Ends body? mark (.or a b) cs := by
  obtain ⟨o, ho⟩ := ha
  obtain ⟨o', ho'⟩ := hb
  cases o with
  | ok v rest => exact ⟨_, .orLeft ho⟩
  | fail cause rest =>
    cases o' with
    | ok v rest => exact ⟨_, .orRight ho ho'⟩
    | fail cause rest => exact ⟨_, .orFail ho ho'⟩

theorem optional (h : Ends body? mark g cs) : Ends body? mark (.optional g) cs := by
  obtain ⟨o, ho⟩ := h
  cases o with
  | ok v rest => exact ⟨_, .optionalSome ho⟩
  | fail cause rest => exact ⟨_, .optionalNone ho⟩

theorem not (h : Ends body? mark g cs) : Ends body? mark (.not g) cs := by
  obtain ⟨o, ho⟩ := h
  cases o with
  | ok v rest => exact ⟨_, .notFail ho⟩
  | fail cause rest => exact ⟨_, .not ho⟩

theorem span (h : Ends body? mark g cs) : Ends body? mark (.span g) cs := by
  obtain ⟨o, ho⟩ := h
  cases o with
  | ok v rest => exact ⟨_, .span ho⟩
  | fail cause rest => exact ⟨_, .spanFail ho⟩

/-- By induction on the length of the input: each round that succeeds makes it shorter. -/
theorem many0 (hn : ¬ Nullable body? g) (hnow : Ends body? mark g cs)
    (hlater : ∀ ds, ds.length < cs.length → Ends body? mark g ds) :
    Ends body? mark (.many0 g) cs := by
  induction hlen : cs.length using Nat.strongRecOn generalizing cs with
  | ind n ih =>
    subst hlen
    obtain ⟨o, ho⟩ := hnow
    cases o with
    | fail cause rest => exact ⟨_, .many0Stop ho⟩
    | ok v mid =>
      have hlt : mid.length < cs.length := ho.nullable_or_lt.resolve_left hn
      obtain ⟨o', ho'⟩ := ih mid.length hlt (hlater mid hlt)
        (fun ds hds => hlater ds (by omega)) rfl
      obtain ⟨vs, rest, rfl⟩ := ho'.list_of_many0
      exact ⟨_, .many0More ho ho'⟩

theorem many1 (h : Ends body? mark (.many0 g) cs) : Ends body? mark (.many1 g) cs := by
  obtain ⟨o, ho⟩ := h
  cases ho with
  | many0Stop hg => exact ⟨_, .many1Fail hg⟩
  | many0More hg hs => exact ⟨_, .many1 hg hs⟩

theorem lookahead {ow : Option (Grammar Empty Empty α)}
    {arms : List (GuardedArm (Grammar Empty Empty α) (Value α → Value α))}
    (how : ∀ g, ow = some g → Ends body? mark g cs)
    (hlook : ∀ a ∈ arms, Ends body? mark a.look cs)
    (hstep : ∀ a ∈ arms, ∀ v mid, Derives body? mark a.look cs (.ok v mid) →
      Ends body? mark a.step (if a.consume then mid else cs)) :
    Ends body? mark (.lookahead ⟨arms, ow⟩) cs := by
  induction arms with
  | nil =>
    cases ow with
    | none => exact ⟨_, .noArm⟩
    | some g =>
      obtain ⟨o, ho⟩ := how g rfl
      exact ⟨_, .otherwise ho⟩
  | cons a arms ih =>
    obtain ⟨o, ho⟩ := hlook a List.mem_cons_self
    cases o with
    | ok v mid =>
      obtain ⟨o', ho'⟩ := hstep a List.mem_cons_self v mid ho
      exact ⟨_, .armStep ho ho'⟩
    | fail cause rest =>
      obtain ⟨o', ho'⟩ := ih (fun k hk => hlook k (List.mem_cons_of_mem _ hk))
        (fun k hk => hstep k (List.mem_cons_of_mem _ hk))
      exact ⟨_, .armNext ho ho'⟩

/-- The case of one grammar: what is run at the same place is a part of it or a rule in front. -/
theorem of_leftmost {g₀ : Grammar Empty Empty α} (hwf : WellFormed body? g₀)
    (hlater : ∀ h, Uses body? g₀ h → ∀ ds, ds.length < cs.length → Ends body? mark h ds)
    (g : Grammar Empty Empty α) (hg : Uses body? g₀ g)
    (hrules : ∀ r, Leftmost body? g r → Ends body? mark (.rule r) cs) : Ends body? mark g cs := by
  induction g using Grammar.induct with
  | step g ih =>
    have hpart : ∀ h ∈ g.children, Uses body? g₀ h := fun h hm => hg.part hm
    cases g with
    | single test => exact single test cs
    | eof => exact eof cs
    | seq gs =>
      exact seq (fun h hm => hlater h (hpart h hm)) (fun h hm => ih h hm (hpart h hm)) hrules
    | alternative gs =>
      exact alternative fun h hm =>
        ih h hm (hpart h hm) fun r hr => hrules r (.alternative hm hr)
    | and a b =>
      have ha : a ∈ (Grammar.and a b).children := by simp [children]
      have hb : b ∈ (Grammar.and a b).children := by simp [children]
      refine and (ih a ha (hpart a ha) fun r hr => hrules r (.andLeft hr)) fun v mid ho => ?_
      refine after ho (hlater b (hpart b hb)) fun hn => ?_
      exact ih b hb (hpart b hb) fun r hr => hrules r (.andRight hn hr)
    | or a b =>
      have ha : a ∈ (Grammar.or a b).children := by simp [children]
      have hb : b ∈ (Grammar.or a b).children := by simp [children]
      exact or (ih a ha (hpart a ha) fun r hr => hrules r (.orLeft hr))
        (ih b hb (hpart b hb) fun r hr => hrules r (.orRight hr))
    | optional g =>
      have hm : g ∈ (Grammar.optional g).children := by simp [children]
      exact optional (ih g hm (hpart g hm) fun r hr => hrules r (.optional hr))
    | many0 g =>
      have hm : g ∈ (Grammar.many0 g).children := by simp [children]
      have hnow := ih g hm (hpart g hm) fun r hr => hrules r (.many0 hr)
      exact many0 (hwf.many0 g hg) hnow (hlater g (hpart g hm))
    | many1 g =>
      have hm : g ∈ (Grammar.many1 g).children := by simp [children]
      have hnow := ih g hm (hpart g hm) fun r hr => hrules r (.many1 hr)
      exact many1 (many0 (hwf.many1 g hg) hnow (hlater g (hpart g hm)))
    | not g =>
      have hm : g ∈ (Grammar.not g).children := by simp [children]
      exact not (ih g hm (hpart g hm) fun r hr => hrules r (.not hr))
    | map f g =>
      have hm : g ∈ (Grammar.map f g).children := by simp [children]
      obtain ⟨o, ho⟩ := ih g hm (hpart g hm) fun r hr => hrules r (.map hr)
      exact ⟨_, .map ho⟩
    | span g =>
      have hm : g ∈ (Grammar.span g).children := by simp [children]
      exact span (ih g hm (hpart g hm) fun r hr => hrules r (.span hr))
    | lookahead l =>
      refine lookahead ?_ ?_ ?_
      · intro h ho
        have hm := otherwise_mem_children ho
        exact ih h hm (hpart h hm) fun r hr => hrules r (.otherwise ho hr)
      · intro a ha
        have hm := look_mem_children ha
        exact ih a.look hm (hpart _ hm) fun r hr => hrules r (.look ha hr)
      · intro a ha v mid ho
        have hm := step_mem_children ha
        have hnow : (a.consume = true → Nullable body? a.look) → Ends body? mark a.step cs :=
          fun hn => ih a.step hm (hpart _ hm) fun r hr => hrules r (.step ha hn hr)
        split
        · exact after ho (hlater a.step (hpart _ hm)) fun hn => hnow fun _ => hn
        · rename_i hc
          exact hnow fun ht => absurd ht hc
    | rule r => exact hrules r .rule
    | leaf k => exact k.elim
    | wrap w g => exact w.elim

end Ends

theorem WellFormed.ends {g₀ : Grammar Empty Empty α} (hwf : WellFormed body? g₀) {cs : List Char}
    {g : Grammar Empty Empty α} (hg : Uses body? g₀ g) : Ends body? mark g cs := by
  obtain ⟨rank, hrank⟩ := hwf.ranked
  induction hlen : cs.length using Nat.strongRecOn generalizing cs g with
  | ind n ih =>
    subst hlen
    have hlater : ∀ h, Uses body? g₀ h → ∀ ds, ds.length < cs.length → Ends body? mark h ds :=
      fun h hh ds hds => ih ds.length hds hh rfl
    -- on one input: rules of lower rank first, whose bodies are then the grammars in front
    have hrule : ∀ k r, rank r.slot = k → Uses body? g₀ (.rule r) →
        Ends body? mark (.rule r) cs := by
      intro k
      induction k using Nat.strongRecOn with
      | ind k ihk =>
        intro r hr hu
        obtain ⟨b, hb⟩ := Option.isSome_iff_exists.1 (hwf.closed r hu)
        have hub : Uses body? g₀ b := hu.body hb
        have hbody : Ends body? mark b cs := by
          refine .of_leftmost hwf hlater b hub fun r' hr' => ?_
          have hlt := hrank r b r' hu hb hr'
          rw [hr] at hlt
          exact ihk _ hlt r' rfl (hub.of_part hr'.part)
        obtain ⟨o, ho⟩ := hbody
        exact ⟨o, .rule hb ho⟩
    refine .of_leftmost hwf hlater g hg fun r hr => ?_
    exact hrule _ r rfl (hg.of_part hr.part)

theorem WellFormed.ends_and_advances {g : Grammar Empty Empty α} (hwf : WellFormed body? g) {c : Cursor}
    (hc : c.Valid) :
    (∃ a, Answers body? g c a) ∧
      (¬ Nullable body? g → ∀ v d, Answers body? g c (.ok v d) → c.offset < d.offset) := by
  constructor
  · obtain ⟨o, ho⟩ := hwf.ends .self
    exact ⟨_, (answers_iff hc).2 ⟨o, ho, rfl⟩⟩
  · intro hn v d h
    obtain ⟨o, ho, ha⟩ := (answers_iff hc).1 h
    cases o with
    | fail cause rest => cases ha
    | ok w rest =>
      cases ha
      have hlt := ho.nullable_or_lt.resolve_left hn
      have hoff := Cursor.offset_before_lt hc.remaining_suffix ho.rest_suffix hlt
      rw [← hc.eq_before] at hoff
      exact hoff

/-- A list in parentheses, and any number of lists and spaces. -/
def nestedLists : Nat → Option (Grammar Empty Empty Nat)
  | 0 => some (.and (.char '(') (.and (.rule ⟨"items", 1⟩) (.char ')')))
  | 1 => some (.many0 (.or (.rule ⟨"list", 0⟩) .whitespace))
  | _ => none

theorem not_nullable_list : ¬ Nullable nestedLists (.rule ⟨"list", 0⟩) := by
  rw [nullable_rule]
  rintro ⟨b, hb, hn⟩
  cases hb
  simp at hn

theorem wellFormed_nestedLists : WellFormed nestedLists (.rule ⟨"list", 0⟩) := by
  have hcases : ∀ slot b, nestedLists slot = some b →
      slot = 0 ∧ b = .and (.char '(') (.and (.rule ⟨"items", 1⟩) (.char ')')) ∨
        slot = 1 ∧ b = .many0 (.or (.rule ⟨"list", 0⟩) .whitespace) := by
    intro slot b hb
    unfold nestedLists at hb
    split at hb
    · exact .inl ⟨rfl, (Option.some.inj hb).symm⟩
    · exact .inr ⟨rfl, (Option.some.inj hb).symm⟩
    · cases hb
  apply WellFormed.of_bodies rfl
  · intro slot b r hb hp
    rcases hcases slot b hb with ⟨rfl, rfl⟩ | ⟨rfl, rfl⟩
    · have hr : r = ⟨"items", 1⟩ := by simpa using hp
      rw [hr]
      rfl
    · have hr : r = ⟨"list", 0⟩ := by simpa using hp
      rw [hr]
      rfl
  · intro slot b h hb hp
    rcases hcases slot b hb with ⟨rfl, rfl⟩ | ⟨rfl, rfl⟩
    · simp at hp
    · have hh : h = .or (.rule ⟨"list", 0⟩) .whitespace := by simpa using hp
      rw [hh]
      simpa using not_nullable_list
  · intro slot b h hb hp
    rcases hcases slot b hb with ⟨rfl, rfl⟩ | ⟨rfl, rfl⟩
    · simp at hp
    · simp at hp
  · refine ⟨id, fun slot b r hb hr => ?_⟩
    rcases hcases slot b hb with ⟨rfl, rfl⟩ | ⟨rfl, rfl⟩
    · simp at hr
    · have hr' : r = ⟨"list", 0⟩ := by simpa using hr
      rw [hr']
      decide

/-- The parse from behind the first character reads to the end. -/
theorem WellFormed.ends_and_advances_nested_lists :
    WellFormed nestedLists (.rule ⟨"list", 0⟩) ∧ (⟨"é(( ))", 2⟩ : Cursor).Valid ∧
      ¬ Nullable nestedLists (.rule ⟨"list", 0⟩) ∧
      (∃ a, Answers nestedLists (.rule ⟨"list", 0⟩) ⟨"é(( ))", 2⟩ a) ∧
      ∃ v, Answers nestedLists (.rule ⟨"list", 0⟩) ⟨"é(( ))", 2⟩ (.ok v ⟨"é(( ))", 7⟩) ∧ 2 < 7 := by
  have hc : (⟨"é(( ))", 2⟩ : Cursor).Valid := by decide
  obtain ⟨hends, hadvances⟩ := wellFormed_nestedLists.ends_and_advances hc
  have hrun : Answers nestedLists (.rule ⟨"list", 0⟩) ⟨"é(( ))", 2⟩ (.ok _ ⟨"é(( ))", 7⟩) :=
    ⟨_, 20, rfl⟩
  exact ⟨wellFormed_nestedLists, hc, not_nullable_list, hends, _, hrun,
    hadvances not_nullable_list _ _ hrun⟩

end Grammar
end Peg
