import TableSync.Scan.Table
import TableSync.Text.LetterCase
import TableSync.Text.Search

/-!
# Moves

The ids of moves with the constants around them, the texts that describe them, and their battle
data, from three files.

* `Moves.parse` reads all three into one document.
* `Moves.Names.resolve` finds the integer that a text stands for, through sums and names.
* `Moves.description?` looks up the text that describes a move.
-/

set_option autoImplicit false

namespace TableSync.Moves

/-- The header with the ids of moves. -/
def header : String := "include/constants/moves.h"

/-- The texts that describe moves, and which move each belongs to. -/
def descriptionsFile : String := "src/data/text/move_descriptions.h"

/-- The configuration that the descriptions depend on. -/
def configHeader : String := "include/config/battle.h"

/-- The table of battle data. -/
def battleFile : String := "src/data/battle_moves.h"

/-- The stem of the names of moves. -/
def stem : Text := "MOVE_".toList

/-- The definition that is no move although it is named like one. -/
def unavailable : String := "MOVE_UNAVAILABLE"

/-! ## Ids -/

/-- The definitions of the header in order: moves, and other constants. -/
structure Names where
  /-- The names with the stem of moves, each with what it is defined as. -/
  moves : List (String × Text)
  /-- The other names. -/
  constants : List (String × Text)

/-- The last text under a name. -/
def lastText (name : String) (pairs : List (String × Text)) : Option Text :=
  pairs.reverse.lookup name

namespace Names

/-- The definitions on the lines of a header. -/
def read (text : Text) : Names :=
  let defines := ((lines text).filterMap parseDefine?).filter fun d => d.name ≠ unavailable
  let (moves, constants) := defines.partition fun d => startsWith stem d.name.toList
  ⟨moves.map fun d => (d.name, d.value), constants.map fun d => (d.name, d.value)⟩

/-- What a name stands for; constants come before moves. -/
def definition? (names : Names) (name : Text) : Option Text :=
  (lastText (String.ofList name) names.constants).or (lastText (String.ofList name) names.moves)

/-- A text without the blanks around it, the parentheses around that, and the blanks inside
them. -/
def bare (text : Text) : Text :=
  let text := trim text
  trim ((((dropStart? ['('] text).bind fun inner => dropEnd? [')'] inner)).getD text)

/-- The integer that a text stands for, found in at most `steps` steps: a numeral, a sum, or a
name. -/
def resolveWithin (names : Names) : (steps : Nat) → Text → Option Int
  | 0, _ => none
  | steps + 1, text =>
    let text := bare text
    match readInt? text with
    | some n => some n
    | none =>
      match cut? " + ".toList text with
      | some (lhs, rhs) => do
        let a ← names.resolveWithin steps lhs
        let b ← names.resolveWithin steps rhs
        int64? (a + b)
      | none => (names.definition? text).bind (names.resolveWithin steps)

/-- Chains of names longer than this have no value. -/
def maxDepth : Nat := 16

/-- The integer that a text stands for, at a given depth of a chain of names. -/
def resolve (names : Names) (text : Text) (depth : Nat) : Option Int :=
  names.resolveWithin (maxDepth + 1 - depth) text

/-- The value of a definition: the integer it stands for, or its text. -/
def value (names : Names) (text : Text) : Value :=
  match names.resolve text 0 with
  | some n => .int n
  | none => .scalar text

end Names

/-- A text without any number of stems at its start. -/
def dropStems : Text → Text
  | 'M' :: 'O' :: 'V' :: 'E' :: '_' :: rest => dropStems rest
  | s => s

/-- A move before its description and battle data are known. -/
def entry (names : Names) (name : String) (text : Text) : Value :=
  .record ⟨[("name", .ofText (titleCase (dropStems name.toList))), ("id", names.value text),
    ("battle_data", .record .empty), ("contest_data", .record .empty),
    ("description_var", .str "")]⟩

/-- The moves of the header. -/
def Names.moveRecords (names : Names) : Record :=
  Record.ofFields (names.moves.map fun (name, text) => (name, entry names name text))

/-- The constants of the header. -/
def Names.constantRecords (names : Names) : Record :=
  Record.ofFields (names.constants.map fun (name, text) => (name, names.value text))

/-! ## Descriptions -/

/-- The line that opens the text of a variable, `static const u8 x[] = _(`: the name of the
variable, and what follows. -/
def textOpener? (line : Text) : Option (String × Text) := do
  let s ← dropStart? "static const u8 ".toList (trimStart line)
  let (name, s) ← nameAt? [] s
  let s ← dropStart? "[]".toList s
  let s ← afterBlanks? ['='] s
  let s ← afterBlanks? "_(".toList s
  return (name, s)

/-- A line `[MOVE_X - 1] = text,`: the move, and the text. -/
def descriptionEntry? (line : Text) : Option (String × Text) := do
  let s ← dropStart? ['['] (trimStart line)
  let (name, s) ← nameAt? stem s
  let s ← dropStart? " - 1]".toList s
  let s ← afterBlanks? ['='] s
  let (text, _) ← cut? [','] (trimStart s)
  return (name, trim text)

/-- The reading of descriptions: the variable whose text is open, the texts so far, the moves, and
the tally. -/
structure Descriptions where
  /-- The variable whose text goes on, with what has been read of it. -/
  open? : Option (String × Text) := none
  /-- The texts of the variables that are complete. -/
  texts : Record := .empty
  /-- The moves with the descriptions that have been found. -/
  moves : Record
  /-- The tally so far. -/
  report : Report := {}

namespace Descriptions

/-- Puts the text of a variable among the texts. -/
def close (d : Descriptions) (name : String) (read : Text) : Descriptions :=
  { d with open? := none, texts := d.texts.insert name (.ofText (unescape read)) }

/-- One line. -/
def step (d : Descriptions) (line : Text) : Descriptions :=
  match d.open? with
  | some (name, read) =>
    let seg := segments line
    let read := read ++ seg.text
    if Scanner.endsVariable seg line then d.close name read
    else { d with open? := some (name, read) }
  | none =>
    match textOpener? line with
    | some (name, rest) =>
      let seg := segments rest
      if seg.closed then d.close name seg.text else { d with open? := some (name, seg.text) }
    | none =>
      match descriptionEntry? line with
      | none => d
      | some (move, text) =>
        match d.moves.modifyRecord? move fun r => r.insert "description_var" (.ofText text) with
        | some moves =>
          { d with moves, report := { d.report with fields := d.report.fields + 1 } }
        | none => { d with report := d.report.skipLine }

/-- The end of the text closes a variable that is still open. -/
def finish (d : Descriptions) : Descriptions :=
  match d.open? with
  | some (name, read) => d.close name read
  | none => d

/-- The descriptions of a text, added to the moves. -/
def read (text : Text) (moves : Record) : Descriptions :=
  ((lines text).foldl step { moves }).finish

end Descriptions

/-! ## Battle data -/

/-- How the table of battle data is scanned. -/
def scanner : Scanner where
  header := headerAt? stem
  fields := []

/-- The moves with the battle data of one more entity; a move that is not known has no place. -/
def attach (moves : Record) (e : Entity) : Record :=
  (moves.modifyRecord? e.id fun r => r.insert "battle_data" (.record e.fields)).getD moves

/-- The document of moves. -/
def parse (ids descriptions battle : Text) : Extraction :=
  let names := Names.read ids
  let described := Descriptions.read descriptions names.moveRecords
  let scan := scanner.scan battle
  let moves := scan.entities.foldl attach described.moves
  ⟨⟨[("moves", .record moves), ("move_descriptions", .record described.texts),
      ("constants", .record names.constantRecords)]⟩,
    { described.report.merge scan.report with records := moves.size }⟩

/-- The text that describes a move. -/
def description? (records : Record) (move : String) : Option String := do
  let name ← (records.getPath? ["moves", move, "description_var"]).bind Value.str?
  (records.getPath? ["move_descriptions", name]).bind Value.str?

end TableSync.Moves
