import Peg.Grammar.Basic
import Peg.ParseError

/-!
# Peg.Proofs.Semantics.Derives

What a grammar makes of a list of characters, without cursors and without bounds.

* `Derives body? mark g cs o`: from the characters `cs`, the grammar `g` succeeds with a value and
  leaves the rest, or fails with a cause in front of the rest, as `o` says.

`body?` is the table of rules. Nothing here knows of offsets: the span in a value is whatever `mark`
makes of what is left in front of a stretch and behind it.

A grammar without a derivation from `cs` is one that never comes to an end there, or that invokes a
rule without a body.
-/

namespace Peg
namespace Grammar

inductive Outcome (α : Type) where
  | ok (v : Value α) (rest : List Char)
  | fail (cause : Cause) (rest : List Char)

namespace Outcome

variable {α : Type}

def rest : Outcome α → List Char
  | ok _ rest | fail _ rest => rest

def map (f : Value α → Value α) : Outcome α → Outcome α
  | ok v rest => ok (f v) rest
  | fail cause rest => fail cause rest

@[simp] theorem rest_map (f : Value α → Value α) (o : Outcome α) : (o.map f).rest = o.rest := by
  cases o <;> rfl

end Outcome

variable {α : Type}

inductive Derives (body? : Nat → Option (Grammar Empty Empty α))
    (mark : List Char → List Char → Span) :
    Grammar Empty Empty α → List Char → Outcome α → Prop
  | single {test : Option Char → Bool} {ch : Char} {cs : List Char} :
      test (some ch) = true → Derives body? mark (.single test) (ch :: cs) (.ok (.char ch) cs)
  | singleMiss {test : Option Char → Bool} {ch : Char} {cs : List Char} :
      test (some ch) = false →
      Derives body? mark (.single test) (ch :: cs) (.fail .predicate (ch :: cs))
  | singleEnd {test : Option Char → Bool} :
      Derives body? mark (.single test) [] (.fail .predicate [])
  | eof : Derives body? mark .eof [] (.ok .unit [])
  | eofMiss {ch : Char} {cs : List Char} :
      Derives body? mark .eof (ch :: cs) (.fail .endOfInput (ch :: cs))
  | seqNil {cs : List Char} : Derives body? mark (.seq []) cs (.ok (.list []) cs)
  | seqCons {g : Grammar Empty Empty α} {gs : List (Grammar Empty Empty α)} {v : Value α}
      {vs : List (Value α)} {cs mid rest : List Char} :
      Derives body? mark g cs (.ok v mid) → Derives body? mark (.seq gs) mid (.ok (.list vs) rest) →
      Derives body? mark (.seq (g :: gs)) cs (.ok (.list (v :: vs)) rest)
  | seqFail {g : Grammar Empty Empty α} {gs : List (Grammar Empty Empty α)} {cause : Cause}
      {cs rest : List Char} :
      Derives body? mark g cs (.fail cause rest) →
      Derives body? mark (.seq (g :: gs)) cs (.fail cause rest)
  | seqLater {g : Grammar Empty Empty α} {gs : List (Grammar Empty Empty α)} {v : Value α}
      {cause : Cause} {cs mid rest : List Char} :
      Derives body? mark g cs (.ok v mid) → Derives body? mark (.seq gs) mid (.fail cause rest) →
      Derives body? mark (.seq (g :: gs)) cs (.fail cause rest)
  | alternativeNil {cs : List Char} :
      Derives body? mark (.alternative []) cs (.fail .noAlternative cs)
  | alternativeHit {g : Grammar Empty Empty α} {gs : List (Grammar Empty Empty α)} {v : Value α}
      {cs rest : List Char} :
      Derives body? mark g cs (.ok v rest) →
      Derives body? mark (.alternative (g :: gs)) cs (.ok v rest)
  | alternativeNext {g : Grammar Empty Empty α} {gs : List (Grammar Empty Empty α)} {cause : Cause}
      {cs rest : List Char} {o : Outcome α} :
      Derives body? mark g cs (.fail cause rest) → Derives body? mark (.alternative gs) cs o →
      Derives body? mark (.alternative (g :: gs)) cs o
  | andFail {a b : Grammar Empty Empty α} {cause : Cause} {cs rest : List Char} :
      Derives body? mark a cs (.fail cause rest) →
      Derives body? mark (.and a b) cs (.fail cause rest)
  | andNext {a b : Grammar Empty Empty α} {v : Value α} {cs mid : List Char} {o : Outcome α} :
      Derives body? mark a cs (.ok v mid) → Derives body? mark b mid o →
      Derives body? mark (.and a b) cs (o.map (.pair v))
  | orLeft {a b : Grammar Empty Empty α} {v : Value α} {cs rest : List Char} :
      Derives body? mark a cs (.ok v rest) → Derives body? mark (.or a b) cs (.ok v rest)
  | orRight {a b : Grammar Empty Empty α} {cause : Cause} {v : Value α} {cs left rest : List Char} :
      Derives body? mark a cs (.fail cause left) → Derives body? mark b cs (.ok v rest) →
      Derives body? mark (.or a b) cs (.ok v rest)
  | orFail {a b : Grammar Empty Empty α} {cause cause' : Cause} {cs left right : List Char} :
      Derives body? mark a cs (.fail cause left) → Derives body? mark b cs (.fail cause' right) →
      Derives body? mark (.or a b) cs (.fail .noAlternative cs)
  | optionalSome {g : Grammar Empty Empty α} {v : Value α} {cs rest : List Char} :
      Derives body? mark g cs (.ok v rest) →
      Derives body? mark (.optional g) cs (.ok (.some v) rest)
  | optionalNone {g : Grammar Empty Empty α} {cause : Cause} {cs rest : List Char} :
      Derives body? mark g cs (.fail cause rest) →
      Derives body? mark (.optional g) cs (.ok .none cs)
  | many0Stop {g : Grammar Empty Empty α} {cause : Cause} {cs rest : List Char} :
      Derives body? mark g cs (.fail cause rest) →
      Derives body? mark (.many0 g) cs (.ok (.list []) cs)
  | many0More {g : Grammar Empty Empty α} {v : Value α} {vs : List (Value α)}
      {cs mid rest : List Char} :
      Derives body? mark g cs (.ok v mid) → Derives body? mark (.many0 g) mid (.ok (.list vs) rest) →
      Derives body? mark (.many0 g) cs (.ok (.list (v :: vs)) rest)
  | many1 {g : Grammar Empty Empty α} {v : Value α} {vs : List (Value α)}
      {cs mid rest : List Char} :
      Derives body? mark g cs (.ok v mid) → Derives body? mark (.many0 g) mid (.ok (.list vs) rest) →
      Derives body? mark (.many1 g) cs (.ok (.list (v :: vs)) rest)
  | many1Fail {g : Grammar Empty Empty α} {cause : Cause} {cs rest : List Char} :
      Derives body? mark g cs (.fail cause rest) →
      Derives body? mark (.many1 g) cs (.fail .atLeastOne cs)
  | not {g : Grammar Empty Empty α} {cause : Cause} {cs rest : List Char} :
      Derives body? mark g cs (.fail cause rest) → Derives body? mark (.not g) cs (.ok .unit cs)
  | notFail {g : Grammar Empty Empty α} {v : Value α} {cs rest : List Char} :
      Derives body? mark g cs (.ok v rest) →
      Derives body? mark (.not g) cs (.fail .unexpectedMatch cs)
  | map {f : Value α → Value α} {g : Grammar Empty Empty α} {cs : List Char} {o : Outcome α} :
      Derives body? mark g cs o → Derives body? mark (.map f g) cs (o.map f)
  | span {g : Grammar Empty Empty α} {v : Value α} {cs rest : List Char} :
      Derives body? mark g cs (.ok v rest) →
      Derives body? mark (.span g) cs (.ok (.spanned v (mark cs rest)) rest)
  | spanFail {g : Grammar Empty Empty α} {cause : Cause} {cs rest : List Char} :
      Derives body? mark g cs (.fail cause rest) →
      Derives body? mark (.span g) cs (.fail cause rest)
  | noArm {cs : List Char} :
      Derives body? mark (.lookahead ⟨[], none⟩) cs (.fail .noAlternative cs)
  | otherwise {g : Grammar Empty Empty α} {cs : List Char} {o : Outcome α} :
      Derives body? mark g cs o → Derives body? mark (.lookahead ⟨[], some g⟩) cs o
  /-- The guard decides for its arm: what the step makes of the text is final. -/
  | armStep {a : GuardedArm (Grammar Empty Empty α) (Value α → Value α)}
      {arms : List (GuardedArm (Grammar Empty Empty α) (Value α → Value α))}
      {ow : Option (Grammar Empty Empty α)} {v : Value α} {cs mid : List Char} {o : Outcome α} :
      Derives body? mark a.look cs (.ok v mid) →
      Derives body? mark a.step (if a.consume then mid else cs) o →
      Derives body? mark (.lookahead ⟨a :: arms, ow⟩) cs (o.map fun w => a.transform (.guarded v w))
  | armNext {a : GuardedArm (Grammar Empty Empty α) (Value α → Value α)}
      {arms : List (GuardedArm (Grammar Empty Empty α) (Value α → Value α))}
      {ow : Option (Grammar Empty Empty α)} {cause : Cause} {cs rest : List Char} {o : Outcome α} :
      Derives body? mark a.look cs (.fail cause rest) →
      Derives body? mark (.lookahead ⟨arms, ow⟩) cs o →
      Derives body? mark (.lookahead ⟨a :: arms, ow⟩) cs o
  | rule {r : Rule} {b : Grammar Empty Empty α} {cs : List Char} {o : Outcome α} :
      body? r.slot = some b → Derives body? mark b cs o → Derives body? mark (.rule r) cs o

/-- A grammar leaves an end of the characters that it is given, also where it fails. -/
theorem Derives.rest_suffix {body? : Nat → Option (Grammar Empty Empty α)}
    {mark : List Char → List Char → Span} {g : Grammar Empty Empty α} {cs : List Char}
    {o : Outcome α} (h : Derives body? mark g cs o) : o.rest <:+ cs := by
  induction h with
  | single _ => exact List.suffix_cons _ _
  | seqCons _ _ ih₁ ih₂ => exact ih₂.trans ih₁
  | seqLater _ _ ih₁ ih₂ => exact ih₂.trans ih₁
  | seqFail _ ih => exact ih
  | alternativeHit _ ih => exact ih
  | alternativeNext _ _ _ ih => exact ih
  | andFail _ ih => exact ih
  | andNext _ _ ih₁ ih₂ =>
    rw [Outcome.rest_map]
    exact ih₂.trans ih₁
  | orLeft _ ih => exact ih
  | orRight _ _ _ ih => exact ih
  | optionalSome _ ih => exact ih
  | many0More _ _ ih₁ ih₂ => exact ih₂.trans ih₁
  | many1 _ _ ih₁ ih₂ => exact ih₂.trans ih₁
  | map _ ih =>
    rw [Outcome.rest_map]
    exact ih
  | span _ ih => exact ih
  | spanFail _ ih => exact ih
  | otherwise _ ih => exact ih
  | armStep _ _ ih₁ ih₂ =>
    rw [Outcome.rest_map]
    split at ih₂
    · exact ih₂.trans ih₁
    · exact ih₂
  | armNext _ _ _ ih => exact ih
  | rule _ _ ih => exact ih
  | _ => exact List.suffix_rfl

/-- The step of an arm starts at an end of what the lookahead is given. -/
theorem armStart_suffix (consume : Bool) {source cs mid : List Char} (hcs : cs <:+ source)
    (hmid : mid <:+ cs) : (if consume then mid else cs) <:+ source := by
  split
  · exact hmid.trans hcs
  · exact hcs

theorem Derives.length_le {body? : Nat → Option (Grammar Empty Empty α)}
    {mark : List Char → List Char → Span} {g : Grammar Empty Empty α} {cs rest : List Char}
    {v : Value α} (h : Derives body? mark g cs (.ok v rest)) : rest.length ≤ cs.length :=
  h.rest_suffix.length_le

section Values

variable {body? : Nat → Option (Grammar Empty Empty α)} {mark : List Char → List Char → Span}
  {cs : List Char}

theorem Derives.list_of_seq {gs : List (Grammar Empty Empty α)} {v : Value α} {rest : List Char}
    (h : Derives body? mark (.seq gs) cs (.ok v rest)) : ∃ vs, v = .list vs := by
  cases h with
  | seqNil => exact ⟨[], rfl⟩
  | seqCons _ _ => exact ⟨_, rfl⟩

/-- A repetition without a least number of rounds cannot fail. -/
theorem Derives.list_of_many0 {g : Grammar Empty Empty α} {o : Outcome α}
    (h : Derives body? mark (.many0 g) cs o) : ∃ vs rest, o = .ok (.list vs) rest := by
  cases h with
  | many0Stop _ => exact ⟨[], _, rfl⟩
  | many0More _ _ => exact ⟨_, _, rfl⟩

end Values

end Grammar
end Peg
