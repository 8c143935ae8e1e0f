import Peg.Rule.Basic
import Peg.UsageError

/-!
# Peg.Rule.Store

The slots of all declared rules. A fresh rule gets an empty slot of its own (`declare`), a slot is
filled at most once (`define`), and a filled slot never changes.
-/

namespace Peg

/-- One slot for each rule declared so far; `none` is a rule whose body is still missing. -/
structure Store (β : Type) where
  slots : List (Option β)

namespace Store

variable {β : Type}

def empty : Store β := ⟨[]⟩

/-- The body in a slot, if there is one. -/
def body? (st : Store β) (slot : Nat) : Option β := st.slots[slot]?.join

def isDefined (st : Store β) (r : Rule) : Bool := (st.body? r.slot).isSome

/-- Adds an empty slot and returns a rule that refers to it. -/
def declare (st : Store β) (name : String) : Rule × Store β :=
  (⟨name, st.slots.length⟩, ⟨st.slots ++ [none]⟩)

/-- Fills the slot of a rule, unless it is filled already. -/
def define (st : Store β) (r : Rule) (body : β) : Except UsageError (Store β) :=
  if st.isDefined r then .error (.alreadyDefined r.name)
  else .ok ⟨st.slots.set r.slot (some body)⟩

theorem isDefined_eq (st : Store β) (r : Rule) : st.isDefined r = (st.body? r.slot).isSome := rfl

theorem body?_declare (st : Store β) (name : String) (i : Nat) :
    (st.declare name).2.body? i = st.body? i := by
  simp only [body?, declare, List.getElem?_append]
  split
  · rfl
  · rename_i h
    rw [List.getElem?_eq_none (Nat.le_of_not_lt h)]
    cases h' : i - st.slots.length <;> simp

theorem define_eq_error {st : Store β} {r : Rule} {body : β} (h : st.isDefined r = true) :
    st.define r body = .error (.alreadyDefined r.name) := by
  simp [define, h]

theorem define_eq_ok {st : Store β} {r : Rule} {body : β} (h : st.isDefined r = false) :
    st.define r body = .ok ⟨st.slots.set r.slot (some body)⟩ := by
  simp [define, h]

/-- After a rule has been defined its slot holds the body, and every other slot is as it was. -/
theorem body?_define {st st' : Store β} {r : Rule} {body : β} (hr : r.slot < st.slots.length)
    (h : st.define r body = .ok st') (i : Nat) :
    st'.body? i = if i = r.slot then some body else st.body? i := by
  unfold define at h
  split at h <;> cases h
  simp only [body?, List.getElem?_set]
  split
  · next he => subst he; simp
  · next he => rw [if_neg (Ne.symm he)]

end Store
end Peg
