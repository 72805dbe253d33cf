import TableSync.Category.Abilities
import TableSync.Emit.Splice
import TableSync.Emit.Value
import TableSync.Scan.Table

/-!
# Species

The national dex enumeration gives the index of species; the species table gives each of them,
and its forms, a record of fields.

    SPECIES_X: {name, dex_num, dex_constant, forms: {SPECIES_X_Y: {name, species_info}}, species_info}

* `Species.parse` reads both into one document.
* `Species.generatedTable` writes the records of all species and forms as one table, and
  `Species.collapseIncludes` makes the hand-written table include it.
* `Species.infoValue` and `Species.ability` look up a field with defaults.
-/

set_option autoImplicit false

namespace TableSync.Species

/-- The header with the national dex. -/
def dexHeader : String := "include/constants/pokedex.h"

/-- The hand-written species table. -/
def tableFile : String := "src/data/pokemon/species_info.h"

/-- The configuration that the species table depends on. -/
def configHeader : String := "include/config/pokemon.h"

/-- The generated species table. -/
def generatedFile : String := "src/data/pokemon/species_info/pory_species.h"

/-- How the include of the table of a generation starts. -/
def generationInclude : Text := "#include \"species_info/gen_".toList

/-- The include of the generated table. -/
def generatedInclude : Text := "    #include \"species_info/pory_species.h\"".toList

/-- Entities of the species table that are no species. -/
def skippedIds : List String := ["SPECIES_NONE", "SPECIES_EGG"]

/-- The order of fields in a written species; other fields follow in the order of the record. -/
def fieldOrder : List String :=
  ["baseHP", "baseAttack", "baseDefense", "baseSpeed", "baseSpAttack", "baseSpDefense", "types",
    "catchRate", "expYield", "evYield_HP", "evYield_Attack", "evYield_Defense", "evYield_Speed",
    "evYield_SpAttack", "evYield_SpDefense", "itemCommon", "itemRare", "genderRatio", "eggCycles",
    "friendship", "growthRate", "eggGroups", "abilities", "safariZoneFleeRate", "categoryName",
    "speciesName", "cryId", "natDexNum", "height", "weight", "pokemonScale", "pokemonOffset",
    "trainerScale", "trainerOffset", "description", "bodyColor", "noFlip", "frontPic",
    "frontPicSize", "frontPicFemale", "frontPicSizeFemale", "frontPicYOffset", "frontAnimFrames",
    "frontAnimId", "enemyMonElevation", "frontAnimDelay", "backPic", "backPicSize",
    "backPicFemale", "backPicSizeFemale", "backPicYOffset", "backAnimId", "palette",
    "shinyPalette", "paletteFemale", "shinyPaletteFemale", "iconSprite", "iconSpriteFemale",
    "iconPalIndex", "iconPalIndexFemale", "footprint", "levelUpLearnset", "teachableLearnset",
    "evolutions", "formSpeciesIdTable", "formChangeTable", "isLegendary", "isMythical",
    "isUltraBeast", "isParadoxForm", "isMegaEvolution", "isPrimalReversion", "isUltraBurst",
    "isGigantamax", "isAlolanForm", "isGalarianForm", "isHisuianForm", "isPaldeanForm",
    "cannotBeTraded", "allPerfectIVs"]

/-- The parsers of the fields of a species. -/
def fieldTable : FieldTable :=
  [("types", braceList?), ("eggGroups", braceList?), ("abilities", braceList?),
    ("speciesName", localized?), ("categoryName", localized?), ("description", description?),
    ("flags", flags?), ("frontPicSize", coordsSize?), ("backPicSize", coordsSize?),
    ("frontPicSizeFemale", coordsSize?), ("backPicSizeFemale", coordsSize?),
    ("genderRatio", genderRatio?), ("friendship", friendship?), ("evolutions", evolutions?)]

/-- A record with the fields of `fieldOrder` first, in that order, and the others after them as
they were. -/
def canonicalOrder (info : Record) : Record :=
  ⟨fieldOrder.filterMap (fun key => (info.get? key).map fun v => (key, v))
    ++ info.fields.filter fun (key, _) => !fieldOrder.contains key⟩

/-! ## The index -/

/-- An entry of an enumeration whose name starts with `stem`, with or without a value. -/
def enumEntry? (stem line : Text) : Option String := do
  let (name, s) ← nameAt? stem (trimStart line)
  match trimStart s with
  | ',' :: _ => some name
  | '=' :: r => if r.contains ',' then some name else none
  | _ => none

/-- The stem of the names of the national dex. -/
def dexStem : Text := "NATIONAL_DEX_".toList

/-- The stem of the names of species. -/
def speciesStem : Text := "SPECIES_".toList

/-- What follows the stem in the name of a species in the national dex; numbers are none. -/
def dexEntry? (line : Text) : Option Text := do
  let name ← enumEntry? dexStem line
  let suffix ← dropStart? dexStem name.toList
  if suffix.all isAsciiDigit then none else some suffix

/-- The names of the national dex in the lines of its header, from the entry `NATIONAL_DEX_NONE`
on and up to the first closing brace; `found` says that this entry has been passed. -/
def dexSuffixes : (found : Bool) → List Text → List Text
  | _, [] => []
  | found, line :: rest =>
    if contains "NATIONAL_DEX_NONE".toList line then dexSuffixes true rest
    else if !found then dexSuffixes false rest
    else if line.contains '}' then []
    else
      match dexEntry? line with
      | some suffix => suffix :: dexSuffixes true rest
      | none => dexSuffixes true rest

/-- The entry of a species without fields. -/
def indexEntry (suffix : Text) (number : Nat) : String × Value :=
  (String.ofList (speciesStem ++ suffix),
    .record ⟨[("name", .ofText (titleCase suffix)), ("dex_num", .int number),
      ("dex_constant", .ofText (dexStem ++ suffix)), ("forms", .record .empty),
      ("species_info", .record .empty)]⟩)

/-- The index of species: the entries of the national dex, numbered from one. -/
def parseIndex (header : Text) : Record :=
  Record.ofFields ((dexSuffixes false (lines header)).zipIdx 1 |>.map fun (suffix, number) =>
    indexEntry suffix number)

/-! ## Reading the table -/

/-- The line that opens the text of a description, `const u8 gXPokedexText[] = _(`, from its first
word on: the name of the variable, and what follows. -/
def dexTextAt? (s : Text) : Option (String × Text) := do
  let s ← dropStart? "const u8 g".toList s
  let (word, rest) := wordRun s
  let stem ← dropEnd? "PokedexText".toList word
  let rest ← dropStart? "[] = _(".toList rest
  if stem.isEmpty then none else some (String.ofList ('g' :: word), rest)

/-- How the species table is scanned. -/
def scanner : Scanner where
  header := headerAt? speciesStem
  rawText := search? dexTextAt?
  fields := fieldTable

/-- The fields of an entity, where a description that names a text is replaced by that text. -/
def resolveDescription (texts : List (String × Text)) (info : Record) : Record :=
  match (info.str? "description").bind fun name => texts.lookup name with
  | some text => info.insert "description" (.ofText (unescape text))
  | none => info

/-- The id of the species that a form belongs to, by its number in the national dex. -/
def baseOf? (info : Record) : Option String := do
  let suffix ← dropStart? dexStem (← info.str? "natDexNum").toList
  return String.ofList (speciesStem ++ suffix)

/-- A species with its own fields; its name is the one that they give, if they do. -/
def withInfo (species info : Record) : Record :=
  let named := match info.str? "speciesName" with
    | some name => species.insert "name" (.str name)
    | none => species
  named.insert "species_info" (.record info)

/-- A form, named by what is left of its id without that of its species. -/
def formRecord (id base : String) (info : Record) : Record :=
  ⟨[("name", .ofText (titleCase (replaceFirst base.toList [] id.toList))),
    ("species_info", .record info)]⟩

/-- The document with one more entity: the fields of an indexed species, or else a form of the
species that its `natDexNum` names.  There may be no such species. -/
def attach? (records : Record) (id : String) (info : Record) : Option Record :=
  match records.record? id with
  | some species => some (records.insert id (.record (withInfo species info)))
  | none => do
    let base ← baseOf? info
    let species ← records.record? base
    let forms ← species.record? "forms"
    let forms := forms.insert id (.record (formRecord id base info))
    return records.insert base (.record (species.insert "forms" (.record forms)))

/-- One entity of the table takes its place. -/
def place (texts : List (String × Text)) (done : Extraction) (e : Entity) : Extraction :=
  if skippedIds.contains e.id then done
  else
    match attach? done.records e.id (canonicalOrder (resolveDescription texts e.fields)) with
    | some records => ⟨records, { done.report with records := done.report.records + 1 }⟩
    | none =>
      ⟨done.records, { done.report with
        fallbacks := done.report.fallbacks ++ [⟨e.id, "natDexNum", "no indexed base species"⟩] }⟩

/-- The document of species, from the header with the dex and the species table. -/
def parse (header table : Text) : Extraction :=
  let scan := scanner.scan table
  scan.entities.foldl (place scan.rawTexts) ⟨parseIndex header, scan.report⟩

/-! ## Writing the table -/

/-- The keys of the sizes of pictures. -/
def sizeKeys : List String :=
  ["frontPicSize", "backPicSize", "frontPicSizeFemale", "backPicSizeFemale"]

/-- The written form of a field. -/
def renderField (id key : String) (constants : ConstantTable) (v : Value) : Result Text :=
  match v.str? with
  | some s =>
    if key = "speciesName" ∨ key = "categoryName" then .ok (Emit.localized s.toList)
    else if key = "description" then .ok (Emit.compoundString s.toList)
    else other
  | none => other
where
  /-- The written form of a field that is no text. -/
  other : Result Text :=
    if sizeKeys.contains key then Emit.coordsSize id key constants v
    else if key = "flags" then Emit.flags id key constants v
    else if key = "evolutions" then Emit.evolutions id key constants v
    else Emit.value id key constants v

/-- Fields in their written form; the first that has none is the failure. -/
def renderFields (id : String) (constants : ConstantTable) :
    List (String × Value) → Result (List (String × Text))
  | [] => .ok []
  | (key, v) :: rest => do
    let written ← renderField id key constants v
    return (key, written) :: (← renderFields id constants rest)

/-- The lines of a species or form. -/
def block (id : String) (constants : ConstantTable) (info : Record) : Result (List Text) :=
  (renderFields id constants (canonicalOrder info).fields).map (Emit.block id)

/-- The forms of a species that have fields, each with its id. -/
def formInfos (species : Record) : List (String × Record) :=
  ((species.record? "forms").getD .empty).fields.filterMap fun (id, form) =>
    (form.record?.bind fun form => form.record? "species_info").map fun info => (id, info)

/-- The records of fields of a species, its own if it is not empty and those of its forms. -/
def infosOf (id : String) (species : Record) : List (String × Record) :=
  let own := match species.record? "species_info" with
    | some info => if info.fields.isEmpty then [] else [(id, info)]
    | none => []
  own ++ formInfos species

/-- The records of fields of all species and forms, in the order of the document. -/
def infos (records : Record) : List (String × Record) :=
  records.fields.flatMap fun (id, species) =>
    match species.record? with
    | some species => infosOf id species
    | none => []

/-- Blocks in turn, each after an empty line. -/
def renderInfos (constants : ConstantTable) : List (String × Record) → Result Text
  | [] => .ok []
  | (id, info) :: rest => do
    let ls ← block id constants info
    return '\n' :: unlines ls ++ (← renderInfos constants rest)

/-- What stands before the blocks of the generated table. -/
def tableOpening : Text :=
  "#ifdef __INTELLISENSE__\nconst struct SpeciesInfo gSpeciesInfoDecompUtil[] =\n\x7b\n#endif\n".toList

/-- What stands after the blocks of the generated table. -/
def tableClosing : Text := "#ifdef __INTELLISENSE__\n\x7d;\n#endif\n".toList

/-- The generated table of all species and forms. -/
def generatedTable (constants : ConstantTable) (records : Record) : Result Text := do
  let blocks ← renderInfos constants (infos records)
  return tableOpening ++ blocks ++ ['\n'] ++ tableClosing

/-- The hand-written table with one include of the generated table in place of the tables of all
generations. -/
def collapseIncludes (pristine : Text) : Result Text :=
  let marker := Marker.trimmedStartsWith generationInclude
  if (lines pristine).any marker.accepts then
    .ok (collapseLines pristine marker generatedInclude)
  else marker.notFound tableFile

/-! ## Looking up fields -/

/-- The fields of a species or of one of its forms. -/
def info? (records : Record) (species : String) (form? : Option String) : Option Record := do
  let species ← records.record? species
  match form? with
  | none => species.record? "species_info"
  | some form => (← (← species.record? "forms").record? form).record? "species_info"

/-- The document with a field of a species or form set, if that species or form is there. -/
def setInfo? (records : Record) (species : String) (form? : Option String) (key : String)
    (v : Value) : Option Record := do
  let info ← info? records species form?
  let path := match form? with
    | none => [species, "species_info"]
    | some form => [species, "forms", form, "species_info"]
  return records.setPath path (.record (info.insert key v))

/-- What stands for a field that a species does not have. -/
def defaultValue (key : String) : Value :=
  if startsWith "item".toList key.toList then .str "ITEM_NONE"
  else if startsWith "description".toList key.toList then .str ""
  else .int 0

/-- A field with its conditionals decided, or its default.  With an index, an item of a list, which
is zero beyond the end of the list. -/
def infoValue (records : Record) (species key : String) (form? : Option String)
    (index? : Option Nat) (constants : ConstantTable) : Value :=
  let v := match (info? records species form?).bind fun info => info.get? key with
    | some v => v.resolve constants
    | none => defaultValue key
  match index?, v with
  | some i, .list items => items[i]?.getD (.int 0)
  | _, v => v

/-- The species with a number in the national dex, by the name of the number. -/
def byDexConstant? (records : Record) (dexConstant : String) : Option String :=
  (records.fields.find? fun (_, species) =>
    (species.record?.bind fun species => species.str? "dex_constant") == some dexConstant).map
    Prod.fst

/-- The ability in a slot of a species or form.  A number stands for the ability with that id, if
there is one, and an empty slot for `ABILITY_NONE`. -/
def ability (records : Record) (abilities? : Option Record) (species : String) (slot : Nat)
    (form? : Option String) : String :=
  let items := ((info? records species form?).bind fun info => info.items? "abilities").getD []
  match items[slot]? with
  | some (.int id) =>
    (abilities?.bind fun abilities => Abilities.byId? abilities id).getD (String.ofList (showInt id))
  | some (.str name) => name
  | _ => "ABILITY_NONE"

end TableSync.Species
