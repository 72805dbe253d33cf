import TableSync.Data.Record
import TableSync.Json.Parser

/-!
# Records as documents

Values are written as JSON without tags.  A conditional is an object with its seven parts as
members; every other object is a record.

* `Value.text` is a value on one line, `Record.document` a record as it stands in its file.
* `Value.parse?` and `Record.parse?` read them.  An object is a conditional exactly when its keys
  are the parts of a conditional, each once, the two amounts being optional, and the parts have
  their types; any other object is a record, in which a repeated key keeps its first place and its
  last value.
-/

set_option autoImplicit false

namespace TableSync

/-! ## Writing -/

mutual

/-- A value as a JSON tree. -/
def Value.toJson : Value → Json
  | .int n => .num n
  | .str s => .str s
  | .list items => .arr (itemsToJson items)
  | .conditional ⟨left, comparison, right, whenTrue, whenFalse, toAdd, toSubtract⟩ =>
    .obj [("param1", .str left), ("condition", .str comparison.text), ("param2", .str right),
      ("true_value", whenTrue.toJson), ("false_value", whenFalse.toJson),
      ("to_add", .num toAdd), ("to_subtract", .num toSubtract)]
  | .record ⟨fields⟩ => .obj (fieldsToJson fields)
termination_by structural v => v

/-- A list of values as JSON trees. -/
def itemsToJson : List Value → List Json
  | [] => []
  | v :: vs => v.toJson :: itemsToJson vs
termination_by structural vs => vs

/-- Named values as members of an object. -/
def fieldsToJson : List (String × Value) → List (String × Json)
  | [] => []
  | (k, v) :: fs => (k, v.toJson) :: fieldsToJson fs
termination_by structural fs => fs

end

/-- A record as a JSON tree. -/
def Record.toJson (r : Record) : Json := .obj (fieldsToJson r.fields)

/-- A value on one line. -/
def Value.text (v : Value) : Text := v.toJson.compact

/-- A record on one line. -/
def Record.text (r : Record) : Text := r.toJson.compact

/-- A record as the content of its document. -/
def Record.document (r : Record) : Text := r.toJson.pretty 0 ++ ['\n']

/-! ## Reading -/

/-- The comparison a tree stands for: the operator, alone or as the only key of an object that
holds `null`. -/
def Comparison.ofJson? : Json → Option Comparison
  | .str s => Comparison.ofText? s
  | .obj [(s, .null)] => Comparison.ofText? s
  | _ => none

/-- The keys of a conditional. -/
def conditionalKeys : List String :=
  ["param1", "condition", "param2", "true_value", "false_value", "to_add", "to_subtract"]

/-- A member of an object that has been read in two ways: as a tree, and as a value if it is
one. -/
abbrev ReadMember := Json × Option Value

/-- An amount of a conditional, zero if it is left out. -/
def amount? : Option ReadMember → Option Int
  | none => some 0
  | some (.num n, _) => some n
  | some _ => none

/-- A conditional from its parts. -/
def conditionalOfParts? (left comparison right whenTrue whenFalse : ReadMember)
    (toAdd toSubtract : Option ReadMember) : Option Conditional :=
  match left.1, right.1 with
  | .str l, .str r => do
    let c ← Comparison.ofJson? comparison.1
    let t ← whenTrue.2
    let f ← whenFalse.2
    let a ← amount? toAdd
    let s ← amount? toSubtract
    return ⟨l, c, r, t, f, a, s⟩
  | _, _ => none

/-- The conditional that the members of an object make up. -/
def conditionalOfMembers? (members : List (String × ReadMember)) : Option Conditional := do
  guard ((members.all fun (k, _) => conditionalKeys.contains k)
    && (members.map Prod.fst).eraseDups.length == members.length)
  let part := fun key => members.lookup key
  conditionalOfParts? (← part "param1") (← part "condition") (← part "param2")
    (← part "true_value") (← part "false_value") (part "to_add") (part "to_subtract")

/-- The conditional that a list of five to seven parts makes up. -/
def conditionalOfItems? : List ReadMember → Option Conditional
  | [l, c, r, t, f] => conditionalOfParts? l c r t f none none
  | [l, c, r, t, f, a] => conditionalOfParts? l c r t f (some a) none
  | [l, c, r, t, f, a, s] => conditionalOfParts? l c r t f (some a) (some s)
  | _ => none

/-- All values, if each part is one. -/
def allValues? : List ReadMember → Option (List Value)
  | [] => some []
  | (_, v?) :: rest => do return (← v?) :: (← allValues? rest)

/-- All named values, if each member is one. -/
def allFields? : List (String × ReadMember) → Option (List (String × Value))
  | [] => some []
  | (k, _, v?) :: rest => do return (k, ← v?) :: (← allFields? rest)

mutual

/-- The value a tree stands for. -/
def Value.ofJson? : Json → Option Value
  | .null => none
  | .num n => some (.int n)
  | .str s => some (.str s)
  | .arr items =>
    let parts := readItems items
    match allValues? parts with
    | some vs => some (.list vs)
    | none => (conditionalOfItems? parts).map .conditional
  | .obj members =>
    let parts := readMembers members
    match conditionalOfMembers? parts with
    | some e => some (.conditional e)
    | none => (allFields? parts).map fun fs => .record (Record.ofFields fs)
termination_by structural j => j

/-- Each item with the value it stands for. -/
def readItems : List Json → List ReadMember
  | [] => []
  | j :: js => (j, Value.ofJson? j) :: readItems js
termination_by structural js => js

/-- Each member with the value it stands for. -/
def readMembers : List (String × Json) → List (String × ReadMember)
  | [] => []
  | (k, j) :: ms => (k, j, Value.ofJson? j) :: readMembers ms
termination_by structural ms => ms

end

/-- The record a tree stands for. -/
def Record.ofJson? : Json → Option Record
  | .obj members => (allFields? (readMembers members)).map Record.ofFields
  | _ => none

/-- The value a text writes. -/
def Value.parse? (s : Text) : Option Value := (Json.parse? s).bind Value.ofJson?

/-- The record a text writes. -/
def Record.parse? (s : Text) : Option Record := (Json.parse? s).bind Record.ofJson?

/-- The value a user wrote: what the text writes, or else the text itself. -/
def Value.ofInput (s : Text) : Value := (Value.parse? s).getD (.ofText s)

end TableSync
