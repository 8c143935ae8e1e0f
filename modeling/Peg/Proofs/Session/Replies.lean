import Peg.Proofs.Grammar.Driven
import Peg.Session.Basic

/-!
# Peg.Proofs.Session.Replies

What a parse in a session comes to, in terms of the run of its grammar.

* `Request.origin`: the cursor from which a request runs its parser.
* `Request.replyTo`, `Request.records`: the reply to what the parser came to, and the records around
  those of the parser.
* `Request.run_eq`: the parser is run once, and nothing else decides what a request comes to. There
  is no run if the offset is no place in the source.
* `Session.parse_eq`: so a session answers a parse with the run of its grammar, with the bodies that
  are in the slots at that time.
-/

namespace Peg

/-- What an answer comes to where all of the source was to be read. -/
def Answer.whole {β : Type} : Answer β → Except ParseError β
  | .ok v d =>
    match d.peek with
    | none => .ok v
    | some _ => .error (.ofCursor .endOfInput d)
  | .fail e => .error e

namespace Parser

variable {σ β : Type}

theorem eof_apply (d : Cursor) (s : σ) :
    (eof d : Parsing σ (Answer Unit)) s =
      match d.peek with
      | none => some ⟨.ok (.ok () d), .empty, s⟩
      | some _ => some ⟨.ok (.fail (.ofCursor .endOfInput d)), .empty, s⟩ := by
  unfold eof
  cases d.peek with
  | none => rfl
  | some ch => rfl

theorem complete_apply (p : Parser σ β) (source : String) (s : σ) :
    complete p source s = (p (.start source) s).map fun run =>
      ⟨run.result.map Answer.whole,
        .single (.started (Cursor.start source).offset) ++ (run.log ++ closing run.result),
        run.state⟩ := by
  simp only [complete, andThen, Parsing.bind_apply, drive_apply]
  rcases p (.start source) s with _ | ⟨_ | ⟨v, d⟩ | e, log, s'⟩
  · rfl
  · rfl
  · -- the records are complete before what is left is looked at
    simp only [Option.map_some, Parser.map, Parsing.map_apply, eof_apply, Except.map, Answer.whole]
    cases d.peek with
    | none => simp [Parsing.pure_apply, Run.behind, Answer.map]
    | some ch => simp [Parsing.pure_apply, Run.behind, Answer.map]
  · simp [Parsing.pure_apply, Run.behind, Except.map, Answer.whole]

end Parser

namespace Request

variable {σ β : Type}

/-- Reading the whole source starts at its beginning, whatever offset the request gives. -/
def origin (req : Request) : Except UsageError Cursor :=
  match req.mode with
  | .driven | .direct => req.startCursor
  | .complete => .ok (.start req.source)

def replyTo (req : Request) : Except Rule (Answer β) → Reply β
  | .error r => .aborted (.undefinedRule r.name)
  | .ok a =>
    match req.mode with
    | .driven | .direct => ofAnswer a
    | .complete => ofWhole a.whole

def records (req : Request) (c : Cursor) (run : Run σ (Answer β)) : List Record :=
  match req.mode with
  | .direct => run.log.toList
  | .driven | .complete =>
    .started c.offset :: (run.log.toList ++ (Parser.closing run.result).toList)

/-- What the request comes to if its parser has the run `run` from the cursor `c`. -/
def report (req : Request) (c : Cursor) (run : Run σ (Answer β)) : Reply.Logged σ β :=
  ⟨req.replyTo run.result, req.records c run, run.state⟩

theorem run_eq (req : Request) (p : Parser σ β) (s : σ) :
    req.run p s =
      match req.origin with
      | .error e => ⟨.misused e, [], s⟩
      | .ok c =>
        match p c s with
        | none => ⟨.unfinished, [], s⟩
        | some run => req.report c run := by
  obtain ⟨source, offset, mode⟩ := req
  cases mode with
  | direct =>
    simp only [run, origin, fromStart]
    cases startCursor _ with
    | error e => rfl
    | ok c =>
      dsimp only
      rcases p c s with _ | ⟨_ | a, log, s'⟩
      · rfl
      · rfl
      · rfl
  | driven =>
    simp only [run, origin, fromStart, Parser.drive_apply]
    cases startCursor _ with
    | error e => rfl
    | ok c =>
      dsimp only
      rcases p c s with _ | ⟨_ | a, log, s'⟩
      · rfl
      · simp [conclude, report, replyTo, records]
      · simp [conclude, report, replyTo, records]
  | complete =>
    simp only [run, origin, Parser.complete_apply]
    rcases p (.start source) s with _ | ⟨_ | a, log, s'⟩
    · rfl
    · simp [conclude, report, replyTo, records, Except.map]
    · simp [conclude, report, replyTo, records, Except.map]

end Request

namespace Session

variable {κ ω σ α : Type}

/-- What a parse leads to if its grammar has the run `run` from the cursor `c`. -/
def reported (s : Session κ ω σ α) (req : Request) (c : Cursor) (run : Run σ (Answer (Value α))) :
    Effect κ ω σ α :=
  ⟨.replied (req.replyTo run.result), req.records c run, { s with state := run.state }⟩

theorem parse_eq (s : Session κ ω σ α) (foreign : Foreign κ ω σ α) (g : Grammar κ ω α)
    (req : Request) :
    s.parse foreign g req =
      match req.origin with
      | .error e => ⟨.replied (.misused e), [], s⟩
      | .ok c =>
        match Grammar.eval (s.env foreign) Grammar.ampleFuel g c s.state with
        | none => ⟨.replied .unfinished, [], s⟩
        | some run => s.reported req c run := by
  simp only [parse, Request.run_eq, Grammar.parser]
  cases req.origin with
  | error e => rfl
  | ok c =>
    dsimp only
    cases Grammar.eval (s.env foreign) Grammar.ampleFuel g c s.state with
    | none => rfl
    | some run => rfl

/-- A parse replies and records what some run of its grammar comes to, and passes on the state which
that run leaves, unless there was no end within the bound. -/
theorem exists_parse (s : Session κ ω σ α) (foreign : Foreign κ ω σ α) (g : Grammar κ ω α)
    {req : Request} {c : Cursor} (hc : req.origin = .ok c) :
    ∃ e, s.step? foreign (.parse g req) = some e ∧
      ((∃ run, Grammar.Runs (s.env foreign) g c s.state run ∧ e = s.reported req c run) ∨
        Grammar.eval (s.env foreign) Grammar.ampleFuel g c s.state = none ∧
          e = ⟨.replied .unfinished, [], s⟩) := by
  refine ⟨s.parse foreign g req, rfl, ?_⟩
  rw [parse_eq, hc]
  dsimp only
  cases h : Grammar.eval (s.env foreign) Grammar.ampleFuel g c s.state with
  | none => exact .inr ⟨rfl, rfl⟩
  | some run => exact .inl ⟨run, ⟨_, h⟩, rfl⟩

end Session
end Peg
