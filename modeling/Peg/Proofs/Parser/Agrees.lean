import Mathlib.Data.Option.Defs
import Peg.Parser.Congruence
import Peg.Request

/-!
# Peg.Proofs.Parser.Agrees

Computations that look alike from outside. Of an abort one sees the name of the rule without a body,
but not the slot in which the body is missing.

* `Run.Agrees`, `Parsing.Agrees`, `Parser.Agrees`: the same results, records and states, and the
  same names of rules at aborts. A computation that does not end agrees with another such one.
* `Parsing.Agrees.congruence`: every combinator makes parsers that agree of parsers that agree.
* `Request.run_agrees`: so whoever asks for a parse cannot tell them apart.
-/

namespace Peg

inductive Run.Agrees {σ β : Type} : Run σ β → Run σ β → Prop
  | ok {a : β} {log : Log} {s : σ} : Agrees ⟨.ok a, log, s⟩ ⟨.ok a, log, s⟩
  | aborted {r r' : Rule} {log : Log} {s : σ} :
      r.name = r'.name → Agrees ⟨.error r, log, s⟩ ⟨.error r', log, s⟩

theorem Run.Agrees.refl {σ β : Type} (r : Run σ β) : r.Agrees r := by
  obtain ⟨result, log, s⟩ := r
  cases result with
  | ok a => exact .ok
  | error rule => exact .aborted rfl

theorem Run.Agrees.behind {σ β : Type} {r r' : Run σ β} (h : r.Agrees r') (log : Log) :
    (r.behind log).Agrees (r'.behind log) := by
  cases h with
  | ok => exact .ok
  | aborted h => exact .aborted h

namespace Parsing

variable {σ β γ : Type}

def Agrees (x y : Parsing σ β) : Prop := ∀ s, Option.Rel Run.Agrees (x s) (y s)

namespace Agrees

theorem refl (x : Parsing σ β) : Agrees x x := by
  intro s
  cases x s with
  | none => exact .none
  | some r => exact .some (.refl r)

theorem abort {r r' : Rule} (h : r.name = r'.name) :
    Agrees (Parsing.abort r : Parsing σ β) (Parsing.abort r') := fun _ => .some (.aborted h)

theorem bind {x y : Parsing σ β} {f f' : β → Parsing σ γ} (hx : Agrees x y)
    (hf : ∀ a, Agrees (f a) (f' a)) : Agrees (x >>= f) (y >>= f') := by
  intro s
  have hrel := hx s
  rw [bind_apply, bind_apply]
  generalize x s = o, y s = o' at hrel
  cases hrel with
  | none => exact .none
  | some hr =>
    cases hr with
    | aborted hname => exact .some (.aborted hname)
    | @ok a log s' =>
      have hnext := hf a s'
      dsimp only
      generalize f a s' = p, f' a s' = p' at hnext
      cases hnext with
      | none => exact .none
      | some hr => exact .some (hr.behind log)

def congruence : Congruence σ where
  Rel := Agrees
  refl := refl
  bind := bind

end Agrees
end Parsing

namespace Parser

variable {σ β ι : Type}

def Agrees (p q : Parser σ β) : Prop := Related Parsing.Agrees.congruence p q

namespace Agrees

/-- Rules of one name, with bodies that agree or without any. -/
theorem invoke {r r' : Rule} (hname : r.name = r'.name) {f f' : ι → Parser σ β} (body : Option ι)
    (h : ∀ x, Agrees (f x) (f' x)) :
    Agrees (invoke r (body.map f)) (invoke r' (body.map f')) := by
  intro c
  cases body with
  | none => exact .abort hname
  | some x =>
    simp only [Option.map_some, Parser.invoke, hname]
    exact (Parsing.Agrees.refl _).bind fun _ => h x c

theorem complete {p p' : Parser σ β} (h : Agrees p p') (source : String) :
    Parsing.Agrees (p.complete source) (p'.complete source) := by
  have hwhole : Agrees (andThen (drive p) fun v => map (fun _ => v) eof)
      (andThen (drive p') fun v => map (fun _ => v) eof) :=
    h.drive.andThen fun _ => .refl _
  exact (hwhole _).bind fun _ => .refl _

end Agrees
end Parser

namespace Request

variable {σ β γ : Type}

theorem conclude_agrees (s : σ) (reply : γ → Reply β) {o o' : Option (Run σ γ)}
    (h : Option.Rel Run.Agrees o o') : conclude s reply o = conclude s reply o' := by
  cases h with
  | none => rfl
  | some hr =>
    cases hr with
    | ok => rfl
    | aborted hname => simp only [conclude, hname]

theorem run_agrees (req : Request) {p q : Parser σ β} (h : p.Agrees q) (s : σ) :
    req.run p s = req.run q s := by
  unfold run
  cases req.mode with
  | driven => exact congrArg (req.fromStart s) (funext fun c => conclude_agrees s _ (h.drive c s))
  | direct => exact congrArg (req.fromStart s) (funext fun c => conclude_agrees s _ (h c s))
  | complete => exact conclude_agrees s _ (h.complete req.source s)

end Request
end Peg
