import Peg.Parser.Drive
import Peg.Proofs.Plan.Course

/-!
# Peg.Proofs.Grammar.Driven

The log of a driven parse.

* `Parser.closing o`: the record behind a parse that came to `o`; none if it was aborted.
* `drive_apply`: driving a parser is running it, with one record in front of its own and the closing
  record behind them.
* `driven_log`: the records in between are those of the invocations in the course of the run, also in
  the parts of it that have failed.
-/

namespace Peg
namespace Parser

variable {σ β : Type} {p : Parser σ β} {c : Cursor} {s : σ} {r : Run σ (Answer β)}

def closing : Except Rule (Answer β) → Log
  | .ok (.ok _ d) => .single (.succeeded d.offset)
  | .ok (.fail e) => .single (.failed e)
  | .error _ => .empty

theorem drive_apply :
    drive p c s = (p c s).map fun r =>
      ⟨r.result, .single (.started c.offset) ++ (r.log ++ closing r.result), r.state⟩ := by
  simp only [drive, Parsing.bind_apply, Parsing.emit_apply]
  rcases p c s with _ | ⟨rule | v | e, log, s'⟩
  · rfl
  · simp [Run.behind, closing]
  · simp [Parsing.bind_apply, Parsing.emit_apply, Parsing.pure_apply, Run.behind, closing]
  · simp [Parsing.bind_apply, Parsing.emit_apply, Parsing.pure_apply, Run.behind, closing]

theorem drive_eq_some_iff :
    drive p c s = some r ↔ ∃ log, p c s = some ⟨r.result, log, r.state⟩ ∧
      r.log.toList = .started c.offset :: (log.toList ++ (closing r.result).toList) := by
  rw [drive_apply, Option.map_eq_some_iff]
  constructor
  · rintro ⟨r', h, rfl⟩
    exact ⟨r'.log, h, by simp⟩
  · rintro ⟨log, h, hlog⟩
    refine ⟨_, h, ?_⟩
    have hlog' : .single (.started c.offset) ++ (log ++ closing r.result) = r.log :=
      Log.ext (by simp [hlog])
    rw [hlog']

end Parser

namespace Grammar

open Course (entries Occurs)

theorem exists_drive_iff {κ ω σ α : Type} {env : Env κ ω σ α} {g : Grammar κ ω α} {c : Cursor} {s : σ}
    {r : Run σ (Answer (Value α))} :
    (∃ fuel, Parser.drive (eval env fuel g) c s = some r) ↔
      ∃ log, Runs env g c s ⟨r.result, log, r.state⟩ ∧
        r.log.toList = .started c.offset :: (log.toList ++ (Parser.closing r.result).toList) := by
  simp only [Parser.drive_eq_some_iff, Runs]
  constructor
  · rintro ⟨fuel, log, h, hlog⟩
    exact ⟨log, ⟨fuel, h⟩, hlog⟩
  · rintro ⟨log, ⟨fuel, h⟩, hlog⟩
    exact ⟨fuel, log, h, hlog⟩

variable {α : Type}

/-- A part of a course is a run in its own right. What it has written stands in one piece among the
records of the whole, whether or not the part has failed. -/
theorem Plan.Proceeds.exists_part_run {body? : Nat → Option (Grammar Empty Empty α)} {p : Plan α}
    {o o' : Except Rule (Answer (Value α))} {ts inner : List (Course α)}
    {g : Grammar Empty Empty α} {c : Cursor} (h : p.Proceeds body? o ts)
    (ht : Occurs (.part g c o' inner) ts) :
    ∃ log, Runs (.ofBodies body?) g c () ⟨o', log, ()⟩ ∧ log.toList = entries inner ∧
      log.toList <:+: entries ts := by
  obtain ⟨log, hperf, hlog⟩ := (h.occurs ht).performs
  exact ⟨log, runs_iff_performs.2 hperf, hlog, hlog ▸ ht.entries_infix⟩

theorem driven_log (body? : Nat → Option (Grammar Empty Empty α)) (g : Grammar Empty Empty α)
    (c : Cursor) :
    (∀ r, (∃ fuel, Parser.drive (eval (.ofBodies body?) fuel g) c () = some r) ↔
      ∃ log, Runs (.ofBodies body?) g c () ⟨r.result, log, r.state⟩ ∧
        r.log.toList = .started c.offset :: (log.toList ++ (Parser.closing r.result).toList)) ∧
    ∀ o log, Runs (.ofBodies body?) g c () ⟨o, log, ()⟩ ↔
      ∃ ts, (∀ o' ts', (plan g c).Proceeds body? o' ts' ↔ o' = o ∧ ts' = ts) ∧
        log.toList = entries ts ∧
        ∀ h d o' inner, Occurs (.part h d o' inner) ts →
          ∃ log', Runs (.ofBodies body?) h d () ⟨o', log', ()⟩ ∧ log'.toList = entries inner ∧
            log'.toList <:+: entries ts := by
  refine ⟨fun r => exists_drive_iff, fun o log => ⟨fun h => ?_, ?_⟩⟩
  · obtain ⟨ts, hts, hlog⟩ := performs_iff_proceeds.1 (runs_iff_performs.1 h)
    refine ⟨ts, fun o' ts' => ⟨hts.unique, ?_⟩, hlog, fun h d o' inner => hts.exists_part_run⟩
    rintro ⟨rfl, rfl⟩
    exact hts
  · rintro ⟨ts, hts, hlog, -⟩
    have hts' := (hts o ts).2 ⟨rfl, rfl⟩
    exact runs_iff_performs.2 (performs_iff_proceeds.2 ⟨ts, hts', hlog⟩)

/-- Both alternatives fail; what they have entered stays in the log. -/
example :
    let body? : Nat → Option (Grammar Empty Empty Nat) := fun _ => some (.char 'b')
    let pair := .and (.rule ⟨"b", 0⟩) (.rule ⟨"b", 0⟩)
    (Parser.drive (eval (.ofBodies body?) 4 (.or pair (.not (.rule ⟨"b", 0⟩)))) (.start "bc") ()).map
        (fun r => r.log.toList.map Record.line) =
      some ["DEBUG parse started at 0", "TRACE entering rule `b` at 0",
        "TRACE entering rule `b` at 1", "TRACE entering rule `b` at 0",
        "DEBUG parse failed: no alternative matches at line 1, byte offset 0 (position 0)"] := by
  decide

end Grammar
end Peg
