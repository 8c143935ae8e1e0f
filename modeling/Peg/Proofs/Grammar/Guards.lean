import Peg.Proofs.Grammar.Branches
import Peg.Proofs.Grammar.Confined

/-!
# Peg.Proofs.Grammar.Guards

Which arm of a lookahead is taken, and what the lookahead comes to then.

* `Lookahead.build first calls`: a lookahead made of the arms `first`, to which further arms and
  fallbacks are added call by call; `build_eq` says what its parts are.
* `Selects env l arms last c`: at `c`, the lookahead `l` does what the step of the first of `arms` does
  whose guard succeeds, and if all guards fail, what `last` does.
* `lookahead_selects`: every lookahead does, however it was made.

A guard that fails is forgotten together with what it has read (`comes_lookahead_append`); nothing is
tried behind a step that fails.
-/

namespace Peg

namespace Lookahead

variable {γ φ : Type}

inductive Call (γ φ : Type) where
  | arm (a : GuardedArm γ φ)
  | orElse (g : γ)

def Call.arm? : Call γ φ → Option (GuardedArm γ φ)
  | arm a => some a
  | orElse _ => none

def Call.fallback? : Call γ φ → Option γ
  | arm _ => none
  | orElse g => some g

def call (l : Lookahead γ φ) : Call γ φ → Lookahead γ φ
  | .arm a => l.arm a
  | .orElse g => l.orElse g

def build (first : List (GuardedArm γ φ)) (calls : List (Call γ φ)) : Lookahead γ φ :=
  calls.foldl call (ofArms first)

theorem foldl_call (l : Lookahead γ φ) (calls : List (Call γ φ)) :
    calls.foldl call l =
      ⟨l.arms ++ calls.filterMap Call.arm?,
        (calls.filterMap Call.fallback?).getLast?.or l.otherwise⟩ := by
  induction calls generalizing l with
  | nil => simp
  | cons x calls ih =>
    rw [List.foldl_cons, ih]
    cases x with
    | arm a => simp [call, arm, Call.arm?, Call.fallback?]
    | orElse g =>
      simp only [call, orElse, List.filterMap_cons, Call.arm?, Call.fallback?, List.getLast?_cons]
      cases (calls.filterMap Call.fallback?).getLast? with
      | none => rfl
      | some g' => rfl

theorem build_eq (first : List (GuardedArm γ φ)) (calls : List (Call γ φ)) :
    build first calls =
      ⟨first ++ calls.filterMap Call.arm?, (calls.filterMap Call.fallback?).getLast?⟩ := by
  rw [build, foldl_call, ofArms, Option.or_none]

/-- It is all the same whether arms are there from the start or are added at once. -/
theorem build_append (first more : List (GuardedArm γ φ)) (calls : List (Call γ φ)) :
    build (first ++ more) calls = build first (more.map .arm ++ calls) := by
  have harms : (more.map (Call.arm : GuardedArm γ φ → Call γ φ)).filterMap Call.arm? = more := by
    simp [List.filterMap_map, Function.comp_def, Call.arm?]
  have hnone : (more.map (Call.arm : GuardedArm γ φ → Call γ φ)).filterMap Call.fallback? = [] := by
    simp [List.filterMap_map, Function.comp_def, Call.fallback?]
  rw [build_eq, build_eq, List.filterMap_append, List.filterMap_append, harms, hnone,
    List.append_assoc, List.nil_append]

end Lookahead

namespace Grammar

variable {κ ω α : Type} {env : Env κ ω Unit α} {c d : Cursor} {v : Value α}
  {o : Except Rule (Answer (Value α))} {ow : Option (Grammar κ ω α)}
  {pre post arms : List (GuardedArm (Grammar κ ω α) (Value α → Value α))}
  {a : GuardedArm (Grammar κ ω α) (Value α → Value α)}

/-- By induction on the arms whose guards fail: each of them leaves the cursor where it is. -/
theorem comes_lookahead_append (hf : env.toForeign.Monotone)
    (hpre : ∀ b ∈ pre, Fails env b.look c) :
    Comes env (.lookahead ⟨pre ++ arms, ow⟩) c o ↔ Comes env (.lookahead ⟨arms, ow⟩) c o := by
  induction pre with
  | nil => exact Iff.rfl
  | cons b pre ih =>
    obtain ⟨⟨e, he⟩, hpre⟩ := List.forall_mem_cons.1 hpre
    rw [List.cons_append, comes_lookahead_cons hf, branch_iff_miss hf he]
    exact ih hpre

theorem comes_lookahead_taken (hf : env.toForeign.Monotone)
    (hpre : ∀ b ∈ pre, Fails env b.look c) (hv : Comes env a.look c (.ok (.ok v d))) :
    Comes env (.lookahead ⟨pre ++ a :: post, ow⟩) c o ↔
      ∃ o', Comes env a.step (if a.consume then d else c) o' ∧
        o = o'.map (Answer.map fun w => a.transform (.guarded v w)) := by
  rw [comes_lookahead_append hf hpre, comes_lookahead_cons hf, branch_iff_hit hf hv]

theorem comes_lookahead_refused (hf : env.toForeign.Monotone)
    (harms : ∀ b ∈ arms, Fails env b.look c) :
    Comes env (.lookahead ⟨arms, ow⟩) c o ↔ Otherwise env c ow o := by
  have h : Comes env (.lookahead ⟨arms ++ [], ow⟩) c o ↔ _ := comes_lookahead_append hf harms
  rwa [List.append_nil, comes_lookahead_nil hf] at h

structure Selects (env : Env κ ω Unit α) (l : Lookahead (Grammar κ ω α) (Value α → Value α))
    (arms : List (GuardedArm (Grammar κ ω α) (Value α → Value α))) (last : Option (Grammar κ ω α))
    (c : Cursor) : Prop where
  taken : ∀ pre a post v d, arms = pre ++ a :: post → (∀ b ∈ pre, Fails env b.look c) →
    Comes env a.look c (.ok (.ok v d)) → ∀ o, Comes env (.lookahead l) c o ↔
      ∃ o', Comes env a.step (if a.consume then d else c) o' ∧
        o = o'.map (Answer.map fun w => a.transform (.guarded v w))
  refused : (∀ a ∈ arms, Fails env a.look c) →
    ∀ o, Comes env (.lookahead l) c o ↔ Otherwise env c last o

theorem lookahead_selects (hf : env.toForeign.Monotone)
    (first : List (GuardedArm (Grammar κ ω α) (Value α → Value α)))
    (calls : List (Lookahead.Call (Grammar κ ω α) (Value α → Value α))) (c : Cursor) :
    Selects env (.build first calls) (first ++ calls.filterMap Lookahead.Call.arm?)
        (calls.filterMap Lookahead.Call.fallback?).getLast? c ∧
      ∀ more, Lookahead.build (first ++ more) calls = .build first (more.map .arm ++ calls) := by
  refine ⟨⟨?_, ?_⟩, fun more => Lookahead.build_append first more calls⟩
  · intro pre a post v d harms hpre hv o
    rw [Lookahead.build_eq, harms, comes_lookahead_taken hf hpre hv]
  · intro harms o
    rw [Lookahead.build_eq, comes_lookahead_refused hf harms]

/-- The guard reads any character, and then looks for a letter. -/
def anyThenX : GuardedArm (Grammar Unit Empty Nat) (Value Nat → Value Nat) :=
  ⟨.and (.leaf ()) (.char 'x'), true, .eof, id⟩

def tildeThenA : GuardedArm (Grammar Unit Empty Nat) (Value Nat → Value Nat) :=
  ⟨.char 'ñ', true, .char 'a', id⟩

def tildeCalls : List (Lookahead.Call (Grammar Unit Empty Nat) (Value Nat → Value Nat)) :=
  [.orElse .eof, .arm tildeThenA, .orElse (.leaf ())]

/-- The first guard has read a character when it fails. If the step behind the second fails too, it is
the failure of the whole, and the fallbacks are of no use; where both guards fail, the last fallback
takes the character. -/
theorem lookahead_selects_tilde :
    skipEnv.toForeign.Monotone ∧
      Comes skipEnv (.lookahead (.build [anyThenX] tildeCalls)) (.start "ñab")
        (.ok (.ok (.guarded (.char 'ñ') (.char 'a')) ⟨"ñab", 3⟩)) ∧
      Comes skipEnv (.lookahead (.build [anyThenX] tildeCalls)) (.start "ñb")
        (.ok (.fail ⟨.predicate, ⟨"ñb", 2⟩⟩)) ∧
      Comes skipEnv (.lookahead (.build [anyThenX] tildeCalls)) ⟨"ñab", 2⟩
        (.ok (.ok .unit ⟨"ñab", 3⟩)) := by
  have hf : skipEnv.toForeign.Monotone := Foreign.monotone_of_isEmpty _
  have hsel (c : Cursor) := (lookahead_selects hf [anyThenX] tildeCalls c).1
  have hpre (c : Cursor) (h : Fails skipEnv anyThenX.look c) :
      ∀ b ∈ [anyThenX], Fails skipEnv b.look c := List.forall_mem_singleton.2 h
  refine ⟨hf, ?_, ?_, ?_⟩
  · have htaken := (hsel (.start "ñab")).taken [anyThenX] tildeThenA [] _ _ rfl
      (hpre _ ⟨_, 3, _, rfl⟩) ⟨2, _, rfl⟩
    exact (htaken _).2 ⟨_, ⟨2, _, rfl⟩, rfl⟩
  · have htaken := (hsel (.start "ñb")).taken [anyThenX] tildeThenA [] _ _ rfl
      (hpre _ ⟨_, 3, _, rfl⟩) ⟨2, _, rfl⟩
    exact (htaken _).2 ⟨_, ⟨2, _, rfl⟩, rfl⟩
  · have hall : ∀ b ∈ [anyThenX, tildeThenA], Fails skipEnv b.look ⟨"ñab", 2⟩ :=
      List.forall_mem_cons.2 ⟨⟨_, 3, _, rfl⟩, List.forall_mem_singleton.2 ⟨_, 2, _, rfl⟩⟩
    exact ((hsel ⟨"ñab", 2⟩).refused hall _).2 ⟨2, _, rfl⟩

end Grammar
end Peg
