import Peg.Cursor.Basic

/-!
# Peg.Cursor.Registers

Named cursors and the steps that make and move them. A step that fails leaves every register as it
was. Reading a register that was never written has no result.

`branch` copies a cursor under another name; `commit` makes a register take over another cursor, its
source included. Both are copies of a plain value, so a branch never moves the cursor it came from.
-/

namespace Peg
namespace Cursor

/-- The latest entry under a name is in force. -/
abbrev Registers := List (String × Cursor)

inductive Step where
  | start (name source : String)
  | startingAt (name source : String) (offset : Nat)
  | advance (name : String) (times : Nat)
  | next (name of : String)
  | branch (name of : String)
  | commit (name of : String)

namespace Step

/-- The register that the step writes. -/
def target : Step → String
  | .start n _ | .startingAt n _ _ | .advance n _ | .next n _ | .branch n _ | .commit n _ => n

/-- The cursor that the step stores, if the registers it reads are filled. -/
def value? (regs : Registers) : Step → Option (Except UsageError Cursor)
  | .start _ source => some (.ok (Cursor.start source))
  | .startingAt _ source offset => some (startingAt? source offset)
  | .advance name times => (regs.lookup name).map fun c => .ok (Cursor.advance times c)
  | .next _ of => (regs.lookup of).map fun c => .ok c.next
  | .branch _ of => (regs.lookup of).map .ok
  | .commit name of =>
    match regs.lookup name, regs.lookup of with
    | some _, some c => some (.ok c)
    | _, _ => none

end Step

namespace Registers

/-- Carries out a step; the result is the cursor that was stored, or why none was. -/
def step? (regs : Registers) (s : Step) : Option (Except UsageError Cursor × Registers) :=
  match s.value? regs with
  | none => none
  | some (.error e) => some (.error e, regs)
  | some (.ok c) => some (.ok c, (s.target, c) :: regs)

/-- The registers after a list of steps; a step without a result is left out. -/
def run (regs : Registers) : List Step → Registers
  | [] => regs
  | s :: rest =>
    match regs.step? s with
    | some (_, regs') => run regs' rest
    | none => run regs rest

end Registers
end Cursor
end Peg
