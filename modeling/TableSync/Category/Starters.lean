import TableSync.Emit.Splice
import TableSync.Emit.Value
import TableSync.Scan.Line
import TableSync.Scan.Report
import TableSync.Text.Search

/-!
# Starters

The choice of starters stands in two places: an array of species, and a function that gives the
chosen one, with its level, item, move and ability.

* `Starters.parse` reads both, `Starters.arrayRecords` the array and `Starters.applyGiving` the
  function.
* `Starters.spliceArray` and `Starters.spliceGiving` write them into the pristine texts.
-/

set_option autoImplicit false

namespace TableSync.Starters

/-- The file with the array of species. -/
def arrayFile : String := "src/starter_choose.c"

/-- The file with the function that gives the chosen starter. -/
def givingFile : String := "src/battle_setup.c"

/-- What marks the start of the array. -/
def arrayMark : Text := "const u16 sStarterMon".toList

/-- What marks the start of the function. -/
def functionMark : Text := "static void CB2_GiveStarter(void)".toList

/-- What marks the declaration in the function. -/
def declarationMark : Text := "u16 starterMon".toList

/-- What marks the call that gives the starter. -/
def givingMark : Text := "ScriptGiveMon(starterMon".toList

/-- The level of a starter for which none is recorded. -/
def defaultLevel : Int := 5

/-- The item of a starter without an item. -/
def noItem : String := "ITEM_NONE"

/-- The move of a starter without an extra move. -/
def noMove : String := "MOVE_NONE"

/-- The species of a starter for which none is recorded. -/
def noSpecies : String := "SPECIES_NONE"

/-- The ability number of a starter that keeps the ability of its species. -/
def defaultAbility : Int := -1

/-- The fields of a starter. -/
def fieldNames : List String := ["species", "level", "item", "custom_move", "ability_num"]

/-- A starter of a species as the array alone gives it. -/
def starter (species : String) : Record :=
  ⟨[("species", .str species), ("level", .int defaultLevel), ("item", .str noItem),
    ("custom_move", .str noMove), ("ability_num", .int defaultAbility)]⟩

/-! ## Reading -/

/-- The species on a line of the array. -/
def arrayEntry? (line : Text) : Option String := do
  let (name, rest) ← nameAt? "SPECIES_".toList (trimStart line)
  if startsWith [','] rest then some name else none

/-- The species of the array, up to the first closing brace; `inside` says that the line with its
mark has been passed. -/
def arraySpecies : (inside : Bool) → List Text → List String
  | _, [] => []
  | inside, line :: rest =>
    if contains arrayMark line then arraySpecies true rest
    else if !inside then arraySpecies false rest
    else if line.contains '}' then []
    else
      match arrayEntry? line with
      | some species => species :: arraySpecies true rest
      | none => arraySpecies true rest

/-- The key of a slot. -/
def slotKey (slot : Nat) : String := String.ofList (showNat slot)

/-- The starters of the array, by slot. -/
def arrayRecords (text : Text) : Record :=
  ⟨(arraySpecies false (lines text)).zipIdx.map fun (species, slot) =>
    (slotKey slot, .record (starter species))⟩

/-- The slot of a line `case N:`. -/
def caseSlot? (line : Text) : Option String := do
  let s ← dropStart? "case".toList (trimStart line)
  guard (s.head?.any isBlank)
  let (slot, s) ← digitsAt? s
  let _ ← afterBlanks? [':'] s
  return String.ofList slot

/-- The level and item of a call that gives the starter. -/
def givenMonAt? (s : Text) : Option (Value × String) := do
  let s ← dropStart? "ScriptGiveMon(starterMon,".toList s
  let (level, s) ← digitsAt? s
  let s ← dropStart? [','] s
  let (item, _) ← wordAt? s
  return (.scalar level, String.ofList item)

/-- The move of a call that teaches one. -/
def givenMoveAt? (s : Text) : Option String := do
  let s ← dropStart? "GiveMoveToMon(&gPlayerParty[0],".toList s
  let (move, s) ← wordAt? s
  let _ ← dropStart? [')'] s
  return String.ofList move

/-- The ability number of an assignment. -/
def givenAbilityAt? (s : Text) : Option Value := do
  let s ← dropStart? "abilityNum".toList s
  let s := trimStart (← afterBlanks? ['='] s)
  let (sign, s) := match dropStart? ['-'] s with
    | some s => (['-'], s)
    | none => ([], s)
  match s.span isDecimal with
  | ([], _) => none
  | (digits, s) =>
    let _ ← dropStart? [';'] s
    return .scalar (sign ++ digits)

/-- A starter with the settings that a line makes. -/
def applyLine (line : Text) (starter : Record) : Record :=
  match search? givenMonAt? line with
  | some (level, item) => (starter.insert "level" level).insert "item" (.str item)
  | none =>
    match search? givenMoveAt? line with
    | some move => starter.insert "custom_move" (.str move)
    | none =>
      match search? givenAbilityAt? line with
      | some number => starter.insert "ability_num" number
      | none => starter

/-- The starters with the settings of the function's lines, up to the first line that starts with a
closing brace; `inside` says that the function's first line has been passed, and `slot?` is the
slot of the last `case`. -/
def applyLines : (inside : Bool) → (slot? : Option String) → Record → List Text → Record
  | _, _, starters, [] => starters
  | inside, slot?, starters, line :: rest =>
    if startsWith functionMark line then applyLines true slot? starters rest
    else if !inside then applyLines false slot? starters rest
    else if startsWith ['}'] line then starters
    else
      match caseSlot? line with
      | some slot => applyLines true (some slot) starters rest
      | none =>
        let changed? := slot?.bind fun slot => starters.modifyRecord? slot (applyLine line)
        applyLines true slot? (changed?.getD starters) rest

/-- The starters with the settings of the function that gives them. -/
def applyGiving (text : Text) (starters : Record) : Record :=
  applyLines false none starters (lines text)

/-- The document of starters. -/
def parse (arrayText givingText : Text) : Extraction :=
  let records := applyGiving givingText (arrayRecords arrayText)
  ⟨records, { records := records.size, fields := records.size * fieldNames.length }⟩

/-! ## Writing -/

/-- The starters of a document, by slot. -/
def slots (records : Record) : List (String × Record) :=
  records.fields.filterMap fun (slot, v) => v.record?.map fun starter => (slot, starter)

/-- A text of a starter. -/
def textField (starter : Record) (key default : String) : Text :=
  ((starter.str? key).getD default).toList

/-- A number of a starter. -/
def intField (starter : Record) (key : String) (default : Int) : Int :=
  ((starter.get? key).bind Value.toInt?).getD default

/-- The ability number of a starter. -/
def abilityOf (starter : Record) : Int := intField starter "ability_num" defaultAbility

/-- The lines of the array. -/
def arrayBody (records : Record) : List Text :=
  (slots records).map fun (_, starter) =>
    List.replicate 4 ' ' ++ textField starter "species" noSpecies ++ [',']

/-- The indent of a statement in a case. -/
def statementIndent : Text := List.replicate 12 ' '

/-- The lines of a case. -/
def caseLines (slot : String) (starter : Record) : List Text :=
  let move := textField starter "custom_move" noMove
  let ability := abilityOf starter
  ["        case ".toList ++ slot.toList ++ ": // ".toList
      ++ textField starter "species" noSpecies,
    statementIndent ++ "ScriptGiveMon(starterMon, ".toList
      ++ showInt (intField starter "level" defaultLevel) ++ ", ".toList
      ++ textField starter "item" noItem ++ ", 0, 0, 0);".toList]
    ++ (if move = noMove.toList then []
      else [statementIndent ++ "GiveMoveToMon(&gPlayerParty[0], ".toList ++ move ++ ");".toList])
    ++ (if ability = defaultAbility then []
      else [statementIndent ++ "abilityNum = ".toList ++ showInt ability ++ [';'],
        statementIndent
          ++ "SetMonData(&gPlayerParty[0], MON_DATA_ABILITY_NUM, &abilityNum);".toList])
    ++ [statementIndent ++ "break;".toList]

/-- The lines that take the place of the single call that gives the starter. -/
def switchLines (records : Record) : List Text :=
  ["    switch(gSpecialVar_Result)".toList, "    \x7b".toList]
    ++ (slots records).flatMap (fun (slot, starter) => caseLines slot starter)
    ++ ["    \x7d".toList]

/-- Whether some starter has an ability number of its own. -/
def needsAbility (records : Record) : Bool :=
  (slots records).any fun (_, starter) => abilityOf starter ≠ defaultAbility

/-- The text with the array of the starters. -/
def spliceArray (pristine : Text) (records : Record) : Result Text :=
  spliceRegion pristine arrayFile [.contains arrayMark, .trimmedStartsWith ['{']]
    (.contains ['}']) (arrayBody records)

/-- The text with the function that gives the starters.  The ability number is declared if some
starter has one. -/
def spliceGiving (pristine : Text) (records : Record) : Result Text := do
  let text ← editLine pristine givingFile (.startsWith functionMark) (.contains givingMark)
    (.replace (switchLines records))
  if needsAbility records then
    editLine text givingFile (.startsWith functionMark) (.contains declarationMark)
      (.append ["    u16 abilityNum;".toList])
  else return text

end TableSync.Starters
