import TableSync.Data.Document
import TableSync.Text.Search

/-!
# Conditionals over symbolic constants

A text such as `P_UPDATED_TYPES >= GEN_6 ? TYPE_FAIRY : TYPE_NORMAL` is taken apart when a table
is extracted and decided when it is written back.

* `Conditional.find?` takes apart the first conditional in a text, with an amount added to it or
  taken from it at the end of the text; all else in the text is dropped.
* `Conditional.resolve?` decides a conditional by a table of constants.  Its sums are meant for
  branches and amounts with which they are 64-bit integers, see `Conditional.withAmounts`.
* `Conditional.literal` writes a conditional as text.
* `Value.resolve` decides every conditional in a value that can be decided.
-/

set_option autoImplicit false

namespace TableSync

/-- The values of symbolic constants; of two entries for a name the first counts. -/
abbrev ConstantTable := List (String × Int)

/-- The generations `GEN_1` to `GEN_9`, counted from zero, and `GEN_LATEST`, the last of them. -/
def generationConstants : ConstantTable :=
  [("GEN_1", 0), ("GEN_2", 1), ("GEN_3", 2), ("GEN_4", 3), ("GEN_5", 4), ("GEN_6", 5),
    ("GEN_7", 6), ("GEN_8", 7), ("GEN_9", 8), ("GEN_LATEST", 8)]

/-! ## The branches of a conditional -/

/-- Whether only blanks stand before a closing parenthesis or the end of the text. -/
def closes (s : Text) : Bool :=
  match trimStart s with
  | [] => true
  | c :: _ => c = ')'

/-- The shortest start of a text, not empty and on one line, that ends where the rest `closes`. -/
def untilClose : Text → Option Text
  | [] => none
  | c :: r => if c = '\n' then none else if closes r then some [c] else (untilClose r).map (c :: ·)

/-- Whether a text starts with a blank other than a line feed, line feeds aside. -/
def hasBlankStart (s : Text) : Bool := (s.takeWhile isBlank).any (· ≠ '\n')

/-- The second branch, which follows the colon: it reaches to the first point that `closes`, and
may consist of blanks alone. -/
def secondBranch (s : Text) : Option Text :=
  match untilClose (trimStart s) with
  | some branch => some branch
  | none => if closes s && hasBlankStart s then some [] else none

/-- The second branch, if a colon comes next, blanks aside. -/
def afterColon (s : Text) : Option Text :=
  match trimStart s with
  | ':' :: r => secondBranch r
  | _ => none

/-- The branches, of which the first is the shortest start, not empty and on one line, that a colon
and a second branch follow. -/
def branchesFrom : Text → Option (Text × Text)
  | [] => none
  | c :: r =>
    if c = '\n' then none
    else
      match afterColon r with
      | some second => some ([c], second)
      | none => (branchesFrom r).map fun (first, second) => (c :: first, second)

/-- The two branches, which follow the question mark; the first may consist of blanks alone. -/
def branches (s : Text) : Option (Text × Text) :=
  match branchesFrom (trimStart s) with
  | some found => some found
  | none => if hasBlankStart s then (afterColon s).map ([], ·) else none

/-! ## Taking a conditional apart -/

/-- A comparison operator at the start of a text. -/
def comparisonAt? : Text → Option (Comparison × Text)
  | '=' :: '=' :: r => some (.eq, r)
  | '!' :: '=' :: r => some (.ne, r)
  | '>' :: '=' :: r => some (.ge, r)
  | '<' :: '=' :: r => some (.le, r)
  | '>' :: r => some (.gt, r)
  | '<' :: r => some (.lt, r)
  | _ => none

/-- What follows the question mark that comes next; a closing parenthesis may stand before it. -/
def afterQuestion? (s : Text) : Option Text :=
  let s := trimStart s
  match trimStart ((dropStart? [')'] s).getD s) with
  | '?' :: r => some r
  | _ => none

/-- A conditional that starts with the word at the start of the text. -/
def conditionalAt? (s : Text) : Option Conditional := do
  let (left, s) ← wordAt? s
  let (comparison, s) ← comparisonAt? (trimStart s)
  let (right, s) ← wordAt? s
  let (whenTrue, whenFalse) ← branches (← afterQuestion? s)
  return ⟨String.ofList left, comparison, String.ofList right, .scalar whenTrue,
    .scalar whenFalse, 0, 0⟩

/-- The first conditional in the rest of a text; `inWord` says that a word goes on here. -/
def conditionalIn? : (inWord : Bool) → Text → Option Conditional
  | _, [] => none
  | inWord, c :: r =>
    if !isWordChar c then conditionalIn? false r
    else if inWord then conditionalIn? true r
    else (conditionalAt? (c :: r)).or (conditionalIn? true r)

/-- An amount at the end of a text: what precedes it, whether it is added, and its digits.  Blanks
stand around the sign, and what precedes is on one line. -/
def amountAtEnd? (s : Text) : Option (Text × Bool × Text) :=
  let (digits, r) := (s.reverse.dropWhile isBlank).span isDecimal
  let (gap, r) := r.span isBlank
  match r with
  | sign :: r =>
    let (gap', r) := r.span isBlank
    if (sign = '+' ∨ sign = '-') ∧ digits ≠ [] ∧ gap ≠ [] ∧ gap' ≠ [] ∧ '\n' ∉ r then
      some (r.reverse, sign = '+', digits.reverse)
    else none
  | [] => none

namespace Conditional

/-- The first conditional in a text, with the amount at its end. -/
def find? (s : Text) : Option Conditional :=
  match amountAtEnd? s with
  | some (body, isAdded, digits) =>
    match conditionalIn? false body with
    | some e =>
      (readInt? digits).map fun n =>
        if isAdded then { e with toAdd := n } else { e with toSubtract := n }
    | none => conditionalIn? false s
  | none => conditionalIn? false s

/-! ## Deciding and writing -/

/-- The integer of an operand: a known constant, or a numeral. -/
def operand? (constants : ConstantTable) (name : String) : Option Int :=
  (constants.lookup name).or (readInt? name.toList)

/-- Whether the comparison is true, if both operands are known. -/
def holds? (e : Conditional) (constants : ConstantTable) : Option Bool := do
  let lhs ← operand? constants e.left
  let rhs ← operand? constants e.right
  return e.comparison.holds lhs rhs

/-- The branch that a comparison chooses. -/
def branch (e : Conditional) (holds : Bool) : Value := if holds then e.whenTrue else e.whenFalse

/-- A branch after the amounts have been applied, if it is an integer.  The sum is taken in the
integers.  It is that of the program as long as `n + e.toAdd` and the result are 64-bit integers; on
other sums the program stops, or goes on with what is left of them in 64 bits, and nothing is said
of it here. -/
def withAmounts (e : Conditional) (chosen : Value) : Value :=
  match chosen.toInt? with
  | some n => .int (n + e.toAdd - e.toSubtract)
  | none => chosen

/-- The value of a conditional, if both operands are known. -/
def resolve? (e : Conditional) (constants : ConstantTable) : Option Value :=
  (e.holds? constants).map fun holds => e.withAmounts (e.branch holds)

/-- A comparison of operands and two branches, with an amount outside parentheses. -/
def literalOf (left comparison right whenTrue whenFalse : Text) (toAdd toSubtract : Int) : Text :=
  let base := left ++ [' '] ++ comparison ++ [' '] ++ right ++ " ? ".toList ++ whenTrue
    ++ " : ".toList ++ whenFalse
  if toAdd ≠ 0 then ['('] ++ base ++ ") + ".toList ++ showInt toAdd
  else if toSubtract ≠ 0 then ['('] ++ base ++ ") - ".toList ++ showInt toSubtract
  else base

end Conditional

/-- A branch as text; a conditional in it stands in parentheses. -/
def Value.branchText : Value → Text
  | .int n => showInt n
  | .str s => s.toList
  | .conditional ⟨left, comparison, right, whenTrue, whenFalse, toAdd, toSubtract⟩ =>
    ['('] ++ Conditional.literalOf left.toList comparison.text.toList right.toList
      whenTrue.branchText whenFalse.branchText toAdd toSubtract ++ [')']
  | .list items => (Value.list items).text
  | .record r => (Value.record r).text
termination_by structural v => v

/-- A conditional as text. -/
def Conditional.literal (e : Conditional) : Text :=
  literalOf e.left.toList e.comparison.text.toList e.right.toList e.whenTrue.branchText
    e.whenFalse.branchText e.toAdd e.toSubtract

mutual

/-- The value with its conditionals decided, where the constants are known; lists are entered,
records are not. -/
def Value.resolve (constants : ConstantTable) : Value → Value
  | .conditional e => (e.resolve? constants).getD (.conditional e)
  | .list items => .list (resolveItems constants items)
  | .int n => .int n
  | .str s => .str s
  | .record r => .record r
termination_by structural v => v

/-- Each item with its conditionals decided. -/
def resolveItems (constants : ConstantTable) : List Value → List Value
  | [] => []
  | v :: vs => v.resolve constants :: resolveItems constants vs
termination_by structural vs => vs

end

end TableSync
