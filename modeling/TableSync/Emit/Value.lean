import TableSync.Error
import TableSync.Expr.Symbolic
import TableSync.Text.Quoted

/-!
# Writing values

The written form of a field, the inverse of the parsers of fields.

* `Emit.value` writes integers, strings, lists and conditionals; a nested record has no form.
* `Emit.braceList`, `Emit.localized`, `Emit.compoundString`, `Emit.coordsSize`, `Emit.flags` and
  `Emit.evolutions` write the special kinds.
* `Emit.block` writes an entity as a block of designated initializers.
-/

set_option autoImplicit false

namespace TableSync.Emit

/-- The failure of a field that cannot be written. -/
def unrenderable {α : Type} (entity field reason : String) : Result α :=
  fail (.unrenderable entity field reason)

/-- The items of a brace list: `{ A, B }`. -/
def braceList (items : List Text) : Text :=
  if items.isEmpty then ['{', ' ', '}']
  else ['{', ' '] ++ joinWith [',', ' '] items ++ [' ', '}']

mutual

/-- A scalar, list or conditional.  A conditional is decided if its operands are known and the
chosen branch is no conditional; otherwise it is written as it stands. -/
def value (entity field : String) (constants : ConstantTable) : Value → Result Text
  | .int n => .ok (showInt n)
  | .str s => .ok s.toList
  | .list xs => (items entity field constants xs).map braceList
  | .conditional ⟨left, comparison, right, whenTrue, whenFalse, toAdd, toSubtract⟩ =>
    let e : Conditional := ⟨left, comparison, right, whenTrue, whenFalse, toAdd, toSubtract⟩
    match e.holds? constants with
    | none => .ok e.literal
    | some holds =>
      match e.withAmounts (e.branch holds) with
      | .int n => .ok (showInt n)
      | .conditional _ => .ok e.literal
      | _ =>
        if holds then value entity field constants whenTrue
        else value entity field constants whenFalse
  | .record _ => unrenderable entity field "nested record"
termination_by structural v => v

/-- Values in turn; the first that cannot be written is the failure. -/
def items (entity field : String) (constants : ConstantTable) : List Value → Result (List Text)
  | [] => .ok []
  | v :: vs => do return (← value entity field constants v) :: (← items entity field constants vs)
termination_by structural vs => vs

end

/-- A localized string. -/
def localized (s : Text) : Text := "_(\"".toList ++ escape s ++ "\")".toList

/-- The indent of a line inside the value of a field. -/
def continuationIndent : Text := List.replicate 12 ' '

/-- The lines of a text, as quoted segments on lines of their own.  All but the last keep their
line feed. -/
def segmentLines : List Text → Text
  | [] => []
  | [line] => '\n' :: continuationIndent ++ ['"'] ++ escape line ++ ['"']
  | line :: rest =>
    '\n' :: continuationIndent ++ ['"'] ++ escape line ++ "\\n\"".toList ++ segmentLines rest

/-- A string literal with one quoted segment a line. -/
def compoundString (s : Text) : Text :=
  if s.isEmpty then "COMPOUND_STRING(\"\")".toList
  else "COMPOUND_STRING(".toList ++ segmentLines (splitOn ['\n'] s) ++ [')']

/-- The two sizes of a picture. -/
def coordsSize (entity field : String) (constants : ConstantTable) : Value → Result Text
  | .list [w, h] => do
    let w ← value entity field constants w
    let h ← value entity field constants h
    return "MON_COORDS_SIZE(".toList ++ w ++ [',', ' '] ++ h ++ [')']
  | _ => unrenderable entity field "expected a [width, height] pair"

/-- A union of flags; a value that is no list is written as it is. -/
def flags (entity field : String) (constants : ConstantTable) : Value → Result Text
  | .list [] => .ok ['0']
  | .list xs => (items entity field constants xs).map (joinWith " | ".toList)
  | v => value entity field constants v

/-- A part of an evolution, which must be there. -/
def evolutionPart (entity field : String) (constants : ConstantTable) (evolution : Record)
    (key reason : String) : Result Text :=
  match evolution.get? key with
  | some v => value entity field constants v
  | none => unrenderable entity field reason

/-- An evolution in braces. -/
def evolutionGroup (entity field : String) (constants : ConstantTable) (evolution : Record) :
    Result Text := do
  let part := evolutionPart entity field constants evolution
  let method ← part "method" "evolution without a method"
  let rest ← match evolution.items? "args" with
    | some args => items entity field constants args
    | none => do
      let parameter ← part "param" "evolution without param"
      let target ← part "targetSpecies" "evolution without targetSpecies"
      pure [parameter, target]
  return ['{'] ++ joinWith [',', ' '] (method :: rest) ++ ['}']

/-- Evolutions in turn. -/
def evolutionGroups (entity field : String) (constants : ConstantTable) :
    List Value → Result (List Text)
  | [] => .ok []
  | .record evolution :: rest => do
    let group ← evolutionGroup entity field constants evolution
    return group :: (← evolutionGroups entity field constants rest)
  | _ :: _ => unrenderable entity field "evolution is not a record"

/-- The evolutions of a species; without any, only the end of the list is written. -/
def evolutions (entity field : String) (constants : ConstantTable) : Value → Result Text
  | .list [] => .ok "(const struct Evolution[]) \x7b \x7bEVOLUTIONS_END\x7d, \x7d".toList
  | .list xs => do
    let groups ← evolutionGroups entity field constants xs
    return "EVOLUTION(".toList ++ joinWith [',', ' '] groups ++ [')']
  | v => value entity field constants v

/-! ## Blocks -/

/-- The indent of the header of a block. -/
def blockIndent : Text := List.replicate 4 ' '

/-- The indent of a field in a block. -/
def fieldIndent : Text := List.replicate 8 ' '

/-- The line of a field.  It holds line feeds if the value does. -/
def fieldLine (key : String) (written : Text) : Text :=
  fieldIndent ++ ['.'] ++ key.toList ++ " = ".toList ++ written ++ [',']

/-- The lines of an entity. -/
def block (id : String) (fields : List (String × Text)) : List Text :=
  [blockIndent ++ ['['] ++ id.toList ++ "] =".toList, blockIndent ++ ['{']]
    ++ fields.map (fun (key, written) => fieldLine key written) ++ [blockIndent ++ ['}', ',']]

end TableSync.Emit
