import TableSync.Category.Abilities
import TableSync.Category.Constants
import TableSync.Category.Items
import TableSync.Category.Kind
import TableSync.Category.Moves
import TableSync.Category.Pokedex
import TableSync.Category.Species
import TableSync.Category.Starters
import TableSync.Files.Binding
import TableSync.Preprocess.Basic

/-!
# What belongs to a category

A `CategoryDef` says which sources a category is read from and how, and which files are written from
it.  Extraction is a list of steps that fetch the sources, and a function from their texts to the
document; generation is a function from the document and the pristine texts to the texts of files.

* `FetchStep` is one source: it is read as it is, or preprocessed, or read as the preprocessor has
  written it.
* `Generator` is pure.  It is given the pristine text of a bound file on demand, so that what is
  written never depends on what was written before.
* `CategoryDef.ofKind` lists the seven categories.  Two of them write files: species, with one
  generated file and one bound one, and starters, with two bound files.  The header of the dex is
  bound by a category that writes nothing.
* `CategoryDef.extraction` and `CategoryDef.outputs` are the two directions, with the reading of
  files.
-/

set_option autoImplicit false

namespace TableSync

/-- A step that fetches a source. -/
inductive FetchStep
  /-- A source as it is. -/
  | read (rel : String)
  /-- The preprocessor goes over a source. -/
  | preprocess (rel : String) (includes : List String)
  /-- A source as the preprocessor has left it. -/
  | readProcessed (rel : String)

/-- The texts of files to be written from a document, by their paths below the sources.  The last
argument gives the pristine text of a bound file. -/
abbrev Generator :=
  ConstantTable → Record → (String → Result Text) → Result (List (String × Text))

/-- What belongs to a category. -/
structure CategoryDef where
  /-- Which category it is. -/
  kind : CategoryKind
  /-- The sources whose times tell whether the document is up to date. -/
  inputs : List String
  /-- The hand-written files that generation changes. -/
  bindings : List Binding := []
  /-- The files that generation alone makes. -/
  generated : List GeneratedFile := []
  /-- How the sources are fetched. -/
  fetch : List FetchStep
  /-- The document, from the texts of the sources. -/
  extract : (String → Text) → Extraction
  /-- Absent if nothing is written from the document. -/
  generator? : Option Generator := none

namespace CategoryDef

/-- Species: one file is generated, and the hand-written table is made to include it. -/
def species : CategoryDef where
  kind := .species
  inputs := [Species.dexHeader, Species.tableFile]
  bindings := [⟨Species.tableFile⟩]
  generated := [⟨Species.generatedFile⟩]
  fetch :=
    [.preprocess Species.tableFile [Species.configHeader], .read Species.dexHeader,
      .readProcessed Species.tableFile]
  extract := fun text => Species.parse (text Species.dexHeader) (text Species.tableFile)
  generator? := some fun constants records pristine => do
    let generated ← Species.generatedTable constants records
    let table ← Species.collapseIncludes (← pristine Species.tableFile)
    return [(Species.generatedFile, generated), (Species.tableFile, table)]

/-- Abilities are only read. -/
def abilities : CategoryDef where
  kind := .abilities
  inputs := [Abilities.header]
  fetch := [.read Abilities.header]
  extract := fun text => Abilities.parse (text Abilities.header)

/-- Items are only read. -/
def items : CategoryDef where
  kind := .items
  inputs := [Items.tableFile]
  fetch := [.read Items.tableFile]
  extract := fun text => Items.parse (text Items.tableFile)

/-- Constants are only read. -/
def constants : CategoryDef where
  kind := .constants
  inputs := [Constants.header]
  fetch := [.read Constants.header]
  extract := fun text => Constants.parse (text Constants.header)

/-- Starters: both files are changed in place. -/
def starters : CategoryDef where
  kind := .starters
  inputs := [Starters.arrayFile, Starters.givingFile]
  bindings := [⟨Starters.arrayFile⟩, ⟨Starters.givingFile⟩]
  fetch := [.read Starters.arrayFile, .read Starters.givingFile]
  extract := fun text => Starters.parse (text Starters.arrayFile) (text Starters.givingFile)
  generator? := some fun _ records pristine => do
    let array ← Starters.spliceArray (← pristine Starters.arrayFile) records
    let giving ← Starters.spliceGiving (← pristine Starters.givingFile) records
    return [(Starters.arrayFile, array), (Starters.givingFile, giving)]

/-- Moves are only read. -/
def moves : CategoryDef where
  kind := .moves
  inputs := [Moves.header, Moves.descriptionsFile, Moves.battleFile]
  fetch :=
    [.read Moves.header, .preprocess Moves.descriptionsFile [Moves.configHeader],
      .readProcessed Moves.descriptionsFile, .read Moves.battleFile]
  extract := fun text =>
    Moves.parse (text Moves.header) (text Moves.descriptionsFile) (text Moves.battleFile)

/-- The dex: its header has a backup, but nothing is written from the document. -/
def pokedex : CategoryDef where
  kind := .pokedex
  inputs := [Pokedex.header]
  bindings := [⟨Pokedex.header⟩]
  fetch := [.preprocess Pokedex.header [Pokedex.configHeader], .readProcessed Pokedex.header]
  extract := fun text => Pokedex.parse (text Pokedex.header)

/-- What belongs to a category. -/
def ofKind : CategoryKind → CategoryDef
  | .species => species
  | .abilities => abilities
  | .items => items
  | .constants => constants
  | .starters => starters
  | .moves => moves
  | .pokedex => pokedex

/-! ## Extraction -/

/-- Puts the text of a source in front of those fetched before. -/
def addText (rel : String) (text : Text) (texts : String → Text) : String → Text :=
  fun r => if r = rel then text else texts r

/-- Fetches sources in turn: their texts by path. -/
def fetchAll (project : Project) (preprocessor : Preprocessor) :
    List FetchStep → (String → Text) → Action (String → Text)
  | [], texts => return texts
  | .read rel :: rest, texts => do
    let text ← readSource project (Project.sourcePath rel)
    fetchAll project preprocessor rest (addText rel text texts)
  | .preprocess rel includes :: rest, texts => do
    let _ ← preprocessor.preprocess project rel includes
    fetchAll project preprocessor rest texts
  | .readProcessed rel :: rest, texts => do
    let text ← readSource project (Project.processedPath rel)
    fetchAll project preprocessor rest (addText rel text texts)

/-- Reads the document from the sources. -/
def extraction (project : Project) (preprocessor : Preprocessor) (d : CategoryDef) :
    Action Extraction := do
  return d.extract (← fetchAll project preprocessor d.fetch fun _ => [])

/-! ## Generation -/

/-- Every file that is written from the document. -/
def writtenPaths (d : CategoryDef) : List Path :=
  d.bindings.map Binding.file ++ d.generated.map GeneratedFile.path

/-- The texts of the files that are written from the document. -/
def outputs (d : CategoryDef) (constants : ConstantTable) (records : Record)
    (pristine : String → Result Text) : Result (List (String × Text)) :=
  match d.generator? with
  | some generator => generator constants records pristine
  | none => .ok []

end CategoryDef

end TableSync
