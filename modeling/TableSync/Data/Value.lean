import TableSync.Text.Numeral

/-!
# Values and records

A field of an extracted table holds a `Value`.  Next to integers, strings, lists and nested
records there is the `Conditional`: a choice between two values by a comparison of two symbolic
constants, kept unevaluated until a table of constants is known.

A `Record` is an ordered list of named values.  Its order is part of it: two records with the
same fields in another order differ.
-/

set_option autoImplicit false

namespace TableSync

/-- A comparison of two integers. -/
inductive Comparison
  | eq
  | ne
  | gt
  | ge
  | lt
  | le
  deriving DecidableEq, Repr

namespace Comparison

/-- The operator as it is written. -/
def text : Comparison → String
  | eq => "=="
  | ne => "!="
  | gt => ">"
  | ge => ">="
  | lt => "<"
  | le => "<="

/-- The comparison an operator stands for. -/
def ofText? (s : String) : Option Comparison :=
  [eq, ne, gt, ge, lt, le].find? fun c => c.text == s

/-- Whether the comparison is true of two integers. -/
def holds (c : Comparison) (lhs rhs : Int) : Bool :=
  match c with
  | eq => lhs == rhs
  | ne => lhs != rhs
  | gt => lhs > rhs
  | ge => lhs ≥ rhs
  | lt => lhs < rhs
  | le => lhs ≤ rhs

end Comparison

mutual

/-- What a field holds. -/
inductive Value
  | int (n : Int)
  | str (s : String)
  | list (items : List Value)
  | conditional (e : Conditional)
  | record (r : Record)

/-- A choice by comparison: `whenTrue` if `left comparison right` holds and `whenFalse`
otherwise, and to a chosen integer `toAdd` is added and `toSubtract` taken from it. -/
structure Conditional where
  /-- The name or number on the left of the comparison. -/
  left : String
  /-- How the two sides are compared. -/
  comparison : Comparison
  /-- The name or number on the right of the comparison. -/
  right : String
  /-- The branch if the comparison holds. -/
  whenTrue : Value
  /-- The branch if it does not. -/
  whenFalse : Value
  /-- What is added to an integer that was chosen. -/
  toAdd : Int
  /-- What is taken from an integer that was chosen. -/
  toSubtract : Int

/-- Named values in a fixed order. -/
structure Record where
  /-- The keys with their values, in their order. -/
  fields : List (String × Value)

end

instance : Inhabited Value := ⟨.int 0⟩
instance : Inhabited Record := ⟨⟨[]⟩⟩

/-! ## Equality is decidable -/

mutual

/-- Equality of values. -/
def Value.beq : Value → Value → Bool
  | .int m, .int n => m == n
  | .str s, .str t => s == t
  | .list xs, .list ys => beqItems xs ys
  | .conditional ⟨l, c, r, t, f, a, s⟩, .conditional ⟨l', c', r', t', f', a', s'⟩ =>
    l == l' && c == c' && r == r' && t.beq t' && f.beq f' && a == a' && s == s'
  | .record ⟨xs⟩, .record ⟨ys⟩ => beqFields xs ys
  | _, _ => false
termination_by structural v => v

/-- Equality of lists of values. -/
def beqItems : List Value → List Value → Bool
  | [], [] => true
  | x :: xs, y :: ys => x.beq y && beqItems xs ys
  | _, _ => false
termination_by structural xs => xs

/-- Equality of lists of named values, in order. -/
def beqFields : List (String × Value) → List (String × Value) → Bool
  | [], [] => true
  | (k, x) :: xs, (l, y) :: ys => k == l && x.beq y && beqFields xs ys
  | _, _ => false
termination_by structural xs => xs

end

mutual

theorem Value.beq_iff : ∀ v w : Value, v.beq w = true ↔ v = w
  | .int m, w => by cases w <;> simp [Value.beq]
  | .str s, w => by cases w <;> simp [Value.beq]
  | .list xs, w => by cases w <;> simp [Value.beq, beqItems_iff xs]
  | .conditional ⟨l, c, r, t, f, a, s⟩, w => by
    cases w with
    | conditional e =>
      obtain ⟨l', c', r', t', f', a', s'⟩ := e
      simp [Value.beq, Value.beq_iff t, Value.beq_iff f, and_assoc]
    | _ => simp [Value.beq]
  | .record ⟨xs⟩, w => by
    cases w with
    | record r =>
      obtain ⟨ys⟩ := r
      simp [Value.beq, beqFields_iff xs]
    | _ => simp [Value.beq]

theorem beqItems_iff : ∀ xs ys : List Value, beqItems xs ys = true ↔ xs = ys
  | [], ys => by cases ys <;> simp [beqItems]
  | x :: xs, ys => by cases ys <;> simp [beqItems, Value.beq_iff x, beqItems_iff xs]

theorem beqFields_iff : ∀ xs ys : List (String × Value), beqFields xs ys = true ↔ xs = ys
  | [], ys => by cases ys <;> simp [beqFields]
  | (k, x) :: xs, ys => by
    cases ys with
    | nil => simp [beqFields]
    | cons y ys =>
      obtain ⟨l, y⟩ := y
      simp [beqFields, Value.beq_iff x, beqFields_iff xs, and_assoc]

end

instance : DecidableEq Value := fun v w =>
  decidable_of_iff (v.beq w = true) (Value.beq_iff v w)

instance : DecidableEq Record := fun r s =>
  decidable_of_iff (beqFields r.fields s.fields = true) <| by
    obtain ⟨xs⟩ := r
    obtain ⟨ys⟩ := s
    simp [beqFields_iff]

instance : DecidableEq Conditional := fun e f =>
  decidable_of_iff (Value.conditional e = Value.conditional f) (by simp)

/-! ## Looking into a value -/

namespace Value

/-- A string value from text. -/
def ofText (t : Text) : Value := .str (String.ofList t)

/-- The integer, if the value is one. -/
def int? : Value → Option Int
  | .int n => some n
  | _ => none

/-- The string, if the value is one. -/
def str? : Value → Option String
  | .str s => some s
  | _ => none

/-- The items, if the value is a list. -/
def items? : Value → Option (List Value)
  | .list items => some items
  | _ => none

/-- The record, if the value is one. -/
def record? : Value → Option Record
  | .record r => some r
  | _ => none

/-- The integer of a scalar; a string counts as the integer it writes between blanks. -/
def toInt? : Value → Option Int
  | .int n => some n
  | .str s => readInt? (trim s.toList)
  | _ => none

/-- A bare token: an integer if it writes one, and otherwise its trimmed text. -/
def scalar (t : Text) : Value :=
  match readInt? (trim t) with
  | some n => .int n
  | none => ofText (trim t)

end Value

end TableSync
