import Peg.Span

/-!
# Peg.Value

The values that grammars produce. Numbers are of a type `α` of the grammar's choosing.

`chars` reads a value as the text that went into it: the characters and texts inside it, from left to
right. The other functions look at one layer of a value, and leave a value alone that is not of the
shape they ask for.
-/

namespace Peg

inductive Value (α : Type) where
  | unit
  | char (c : Char)
  | text (s : String)
  | num (n : α)
  | none
  | some (v : Value α)
  | list (vs : List (Value α))
  | pair (a b : Value α)
  /-- What the guard and the step of a lookahead arm have found. -/
  | guarded (look step : Value α)
  | spanned (v : Value α) (span : Span)
  | tagged (tag : String) (v : Value α)

namespace Value

variable {α : Type}

def ofOption : Option (Value α) → Value α
  | .none => none
  | .some v => some v

mutual

/-- The characters in a value, from left to right. -/
def chars : Value α → List Char
  | unit | num _ | none => []
  | char c => [c]
  | text s => s.toList
  | some v | spanned v _ | tagged _ v => v.chars
  | list vs => charsAll vs
  | pair a b | guarded a b => a.chars ++ b.chars

def charsAll : List (Value α) → List Char
  | [] => []
  | v :: vs => v.chars ++ charsAll vs

end

mutual

/-- The text `s`, and behind it the characters in a value. -/
def writeTo (s : String) : Value α → String
  | unit | num _ | none => s
  | char c => s.push c
  | text t => s ++ t
  | some v | spanned v _ | tagged _ v => v.writeTo s
  | list vs => writeAllTo s vs
  | pair a b | guarded a b => b.writeTo (a.writeTo s)

def writeAllTo (s : String) : List (Value α) → String
  | [] => s
  | v :: vs => writeAllTo (v.writeTo s) vs

end

/-- The characters in a value as one text. -/
def join (v : Value α) : Value α := text (v.writeTo "")

/-- The first component of a pair, or what a guard found. -/
def first : Value α → Value α
  | pair a _ | guarded a _ => a
  | v => v

/-- The second component of a pair, or what the step behind a guard found. -/
def second : Value α → Value α
  | pair _ b | guarded _ b => b
  | v => v

/-! ## The text of a value -/

mutual

theorem writeTo_eq (s : String) (v : Value α) : v.writeTo s = s ++ String.ofList v.chars := by
  cases v with
  | unit | num _ | none => simp only [writeTo, chars, String.ofList_nil, String.append_empty]
  | char c => rw [writeTo, chars, String.push_eq_append, String.singleton_eq_ofList]
  | text t => rw [writeTo, chars, String.ofList_toList]
  | some v | spanned v _ | tagged _ v => simpa only [writeTo, chars] using writeTo_eq s v
  | list vs => simpa only [writeTo, chars] using writeAllTo_eq s vs
  | pair a b | guarded a b =>
    simp only [writeTo, chars, writeTo_eq _ a, writeTo_eq _ b, String.ofList_append,
      String.append_assoc]

theorem writeAllTo_eq (s : String) (vs : List (Value α)) :
    writeAllTo s vs = s ++ String.ofList (charsAll vs) := by
  cases vs with
  | nil => rw [writeAllTo, charsAll, String.ofList_nil, String.append_empty]
  | cons v vs =>
    simp only [writeAllTo, charsAll, writeTo_eq s v, writeAllTo_eq _ vs, String.ofList_append,
      String.append_assoc]

end

theorem join_eq (v : Value α) : v.join = text (String.ofList v.chars) := by
  rw [join, writeTo_eq, String.empty_append]

theorem chars_list_char (cs : List Char) : (list (cs.map (char (α := α)))).chars = cs := by
  induction cs with
  | nil => rfl
  | cons c cs ih => simpa [chars, charsAll] using ih

end Value
end Peg
