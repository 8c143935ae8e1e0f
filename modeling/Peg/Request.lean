import Peg.Parser.Drive

/-!
# Peg.Request

What a parser is asked to do: on which source, from where, and in which mode. The reply tells all the
ways in which that can end.
-/

namespace Peg

inductive Mode where
  /-- Run once, with records of how the parse began and ended. -/
  | driven
  /-- Run once, without those records. -/
  | direct
  /-- Read the whole source, from its start. -/
  | complete
deriving DecidableEq

structure Request where
  source : String
  /-- Byte offset at which to start; the start of the source if absent. -/
  offset : Option Nat
  mode : Mode

inductive Reply (β : Type) where
  /-- The parser stopped at `rest`, which is absent if it was to read everything. -/
  | ok (value : β) (rest : Option Cursor)
  | fail (e : ParseError)
  /-- The library was misused, and nothing was run. -/
  | misused (e : UsageError)
  /-- The parse was aborted, because a rule without a body was invoked. -/
  | aborted (e : UsageError)
  /-- The parse did not end within its bound. -/
  | unfinished

/-- A reply, the records written on the way, and the state left behind. -/
structure Reply.Logged (σ β : Type) where
  reply : Reply β
  log : List Record
  state : σ

namespace Request

variable {σ β : Type}

def startCursor (req : Request) : Except UsageError Cursor :=
  match req.offset with
  | none => .ok (.start req.source)
  | some o => Cursor.startingAt? req.source o

/-- The reply that corresponds to a run from the state `s`. -/
def conclude {α : Type} (s : σ) (reply : α → Reply β) : Option (Run σ α) → Reply.Logged σ β
  | none => ⟨.unfinished, [], s⟩
  | some ⟨.ok a, log, s'⟩ => ⟨reply a, log.toList, s'⟩
  | some ⟨.error r, log, s'⟩ => ⟨.aborted (.undefinedRule r.name), log.toList, s'⟩

def ofAnswer : Answer β → Reply β
  | .ok v d => .ok v (some d)
  | .fail e => .fail e

def ofWhole : Except ParseError β → Reply β
  | .ok v => .ok v none
  | .error e => .fail e

/-- Runs `go` from the cursor at which the request starts, if there is one. -/
def fromStart (req : Request) (s : σ) (go : Cursor → Reply.Logged σ β) : Reply.Logged σ β :=
  match req.startCursor with
  | .ok c => go c
  | .error e => ⟨.misused e, [], s⟩

/-- Carries out a request with the parser `p`. A request to read the whole source starts at its
beginning, whatever offset it gives. -/
def run (req : Request) (p : Parser σ β) (s : σ) : Reply.Logged σ β :=
  match req.mode with
  | .driven => req.fromStart s fun c => conclude s ofAnswer (Parser.drive p c s)
  | .direct => req.fromStart s fun c => conclude s ofAnswer (p c s)
  | .complete => conclude s ofWhole (Parser.complete p req.source s)

end Request
end Peg
