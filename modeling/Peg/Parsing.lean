import Peg.Log

/-!
# Peg.Parsing

Computations made while parsing. A computation may write records, use a state of type `σ` that the
parsers in it share, and abort because a rule without a body was invoked. An abort ends everything:
what follows in a sequence is not run, and there is no way to catch it. The records written and the
state reached until then remain.

A computation that has not ended within its bound has no run at all. `Parsing.bind` puts the records
of what follows behind those of what came first; it makes `Parsing σ` a lawful monad.
-/

namespace Peg

/-- A computation that has ended. -/
structure Run (σ α : Type) where
  /-- The result, or the rule without a body at which the computation was aborted. -/
  result : Except Rule α
  log : Log
  state : σ

/-- The same run, with earlier records in front of its own. -/
def Run.behind {σ α : Type} (log : Log) (r : Run σ α) : Run σ α := { r with log := log ++ r.log }

@[simp] theorem Run.log_behind {σ α : Type} (log : Log) (r : Run σ α) :
    (r.behind log).log = log ++ r.log := rfl

/-- From the state at its start a computation yields a run, or nothing if it has not ended. -/
def Parsing (σ α : Type) : Type := σ → Option (Run σ α)

namespace Parsing

variable {σ α β : Type}

@[inline] protected def pure (a : α) : Parsing σ α := fun s => some ⟨.ok a, .empty, s⟩

@[inline] protected def bind (x : Parsing σ α) (f : α → Parsing σ β) : Parsing σ β := fun s =>
  match x s with
  | none => none
  | some ⟨.error r, log, s'⟩ => some ⟨.error r, log, s'⟩
  | some ⟨.ok a, log, s'⟩ => (f a s').map (Run.behind log)

/-- Changes the result only; unlike a sequence it has no records to put together. -/
@[inline] protected def map (f : α → β) (x : Parsing σ α) : Parsing σ β := fun s =>
  (x s).map fun r => ⟨r.result.map f, r.log, r.state⟩

instance : Monad (Parsing σ) where
  pure := Parsing.pure
  bind := Parsing.bind
  map := Parsing.map

def emit (r : Record) : Parsing σ Unit := fun s => some ⟨.ok (), .single r, s⟩

def abort (r : Rule) : Parsing σ α := fun s => some ⟨.error r, .empty, s⟩

def unfinished : Parsing σ α := fun _ => none

def getState : Parsing σ σ := fun s => some ⟨.ok s, .empty, s⟩

def setState (s : σ) : Parsing σ Unit := fun _ => some ⟨.ok (), .empty, s⟩

/-! ## Equations -/

theorem pure_apply (a : α) (s : σ) : (pure a : Parsing σ α) s = some ⟨.ok a, .empty, s⟩ := rfl

theorem bind_apply (x : Parsing σ α) (f : α → Parsing σ β) (s : σ) :
    (x >>= f) s =
      match x s with
      | none => none
      | some ⟨.error r, log, s'⟩ => some ⟨.error r, log, s'⟩
      | some ⟨.ok a, log, s'⟩ => (f a s').map (Run.behind log) := rfl

theorem map_apply (f : α → β) (x : Parsing σ α) (s : σ) :
    (f <$> x) s = (x s).map fun r => ⟨r.result.map f, r.log, r.state⟩ := rfl

theorem emit_apply (r : Record) (s : σ) : emit r s = some ⟨.ok (), .single r, s⟩ := rfl

theorem abort_apply (r : Rule) (s : σ) : (abort r : Parsing σ α) s = some ⟨.error r, .empty, s⟩ := rfl

theorem unfinished_apply (s : σ) : (unfinished : Parsing σ α) s = none := rfl

@[simp] theorem abort_bind (r : Rule) (f : α → Parsing σ β) : (abort r >>= f) = abort r := rfl

@[simp] theorem unfinished_bind (f : α → Parsing σ β) :
    ((unfinished : Parsing σ α) >>= f) = unfinished := rfl

end Parsing

@[simp] theorem Run.behind_empty {σ α : Type} (r : Run σ α) : r.behind .empty = r := by
  simp [Run.behind]

namespace Parsing

variable {σ α β γ : Type}

@[ext] theorem ext {x y : Parsing σ α} (h : ∀ s, x s = y s) : x = y := funext h

private theorem map_id' (x : Parsing σ α) : x.map id = x := by
  ext1 s
  unfold Parsing.map
  cases x s with
  | none => rfl
  | some r =>
    obtain ⟨result, log, s'⟩ := r
    cases result <;> rfl

private theorem bind_pure_comp' (f : α → β) (x : Parsing σ α) :
    (x.bind fun a => Parsing.pure (f a)) = x.map f := by
  ext1 s
  unfold Parsing.bind Parsing.map
  cases x s with
  | none => rfl
  | some r =>
    obtain ⟨result, log, s'⟩ := r
    cases result <;> simp [Parsing.pure, Run.behind, Except.map]

private theorem bind_assoc' (x : Parsing σ α) (f : α → Parsing σ β) (g : β → Parsing σ γ) :
    (x.bind f).bind g = x.bind fun a => (f a).bind g := by
  ext1 s
  unfold Parsing.bind
  cases x s with
  | none => rfl
  | some r =>
    obtain ⟨result, log, s'⟩ := r
    cases result with
    | error => rfl
    | ok a =>
      dsimp only
      cases f a s' with
      | none => rfl
      | some r' =>
        obtain ⟨result', log', s''⟩ := r'
        cases result' with
        | error => rfl
        | ok b =>
          simp only [Option.map_some, Run.behind, Option.map_map]
          congr 1
          funext r''
          simp [Run.behind, Log.append_assoc]

private theorem pure_bind' (a : α) (f : α → Parsing σ β) : (Parsing.pure a).bind f = f a := by
  ext1 s
  simp only [Parsing.bind, Parsing.pure]
  cases f a s <;> simp

instance : LawfulMonad (Parsing σ) :=
  LawfulMonad.mk' (Parsing σ) map_id' pure_bind' bind_assoc'
    (fun _ _ => rfl) (fun _ _ => rfl) (fun _ _ => rfl) bind_pure_comp' (fun _ _ => rfl)

end Parsing
end Peg
