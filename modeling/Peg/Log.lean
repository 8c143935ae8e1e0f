import Peg.Record

/-!
# Peg.Log

The records that a computation has written, kept as the function that puts them in front of others:
two logs are put together in constant time, however long they are. `Log.toList` gives the records in
their order. Everything else is said of it, and logs that have the same list are equal (`Log.ext`).
-/

namespace Peg

structure Log where
  /-- The records of the log, and behind them the given ones. -/
  onto : List Record → List Record
  isEmpty : Bool
  onto_eq : ∀ rest, onto rest = onto [] ++ rest
  isEmpty_eq : isEmpty = (onto []).isEmpty

namespace Log

def toList (l : Log) : List Record := l.onto []

def empty : Log := ⟨id, true, fun _ => rfl, rfl⟩

def single (r : Record) : Log := ⟨(r :: ·), false, fun _ => rfl, rfl⟩

/-- The records of `a`, then those of `b`. Most computations write nothing, and then nothing is put
together. -/
def append (a b : Log) : Log :=
  if b.isEmpty then a
  else if ha : a.isEmpty then b
  else
    { onto := fun rest => a.onto (b.onto rest)
      isEmpty := false
      onto_eq := fun rest => by rw [b.onto_eq, a.onto_eq, a.onto_eq (b.onto []), List.append_assoc]
      isEmpty_eq := by
        rw [a.onto_eq]
        cases h : a.onto [] with
        | nil => exact absurd (by rw [a.isEmpty_eq, h]; rfl) ha
        | cons _ _ => rfl }

instance : Append Log := ⟨append⟩

@[ext] theorem ext {a b : Log} (h : a.toList = b.toList) : a = b := by
  have ho : a.onto = b.onto := funext fun rest => by
    rw [a.onto_eq, b.onto_eq]
    exact congrArg (· ++ rest) h
  have he : a.isEmpty = b.isEmpty := by rw [a.isEmpty_eq, b.isEmpty_eq, ho]
  cases a
  cases b
  subst ho he
  rfl

theorem toList_of_isEmpty {l : Log} (h : l.isEmpty = true) : l.toList = [] :=
  List.isEmpty_iff.1 (l.isEmpty_eq.symm.trans h)

@[simp] theorem toList_empty : empty.toList = [] := rfl

@[simp] theorem toList_single (r : Record) : (single r).toList = [r] := rfl

@[simp] theorem toList_append (a b : Log) : (a ++ b).toList = a.toList ++ b.toList := by
  change (append a b).toList = _
  unfold append
  split
  · next hb => rw [toList_of_isEmpty hb, List.append_nil]
  · split
    · next ha => rw [toList_of_isEmpty ha, List.nil_append]
    · exact a.onto_eq b.toList

@[simp] theorem empty_append (l : Log) : empty ++ l = l := ext (by simp)

@[simp] theorem append_empty (l : Log) : l ++ empty = l := ext (by simp)

theorem append_assoc (a b c : Log) : a ++ b ++ c = a ++ (b ++ c) := ext (by simp)

end Log
end Peg
