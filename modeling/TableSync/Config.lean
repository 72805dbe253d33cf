import TableSync.Category.Kind
import TableSync.Expr.Symbolic
import TableSync.Preprocess.Basic
import TableSync.Toml.Parser

/-!
# Configuration

A project may have a file of settings: how the preprocessor is invoked, the constants that decide
conditionals, and which categories are enabled.  Every setting has a default; a setting that is not
known is refused.

* `Config` are the settings, each with its default, and `Config.read` reads them from the file below
  the root of the project.  A project without the file has the defaults, and one with a file that
  cannot be understood is refused as a whole.
* `valuesOf?` are the settings of one table, which may be given by their names or in order, and
  `setting?` is one of them.
* `enabledKinds` are the categories by their names, in the order in which they are worked through,
  whatever order they are listed in.
-/

set_option autoImplicit false

namespace TableSync

/-- The settings of a project. -/
structure Config where
  /-- How the preprocessor is invoked. -/
  preprocessor : PreprocessorConfig := {}
  /-- The values of names that conditionals compare. -/
  constants : ConstantTable := generationConstants
  /-- The names of the enabled categories; all are enabled if it is missing. -/
  categories? : Option (List String) := none

namespace Config

/-- The file of settings, below the root of a project. -/
def fileName : String := "porysync.toml"

/-! ## Settings -/

/-- A list of strings. -/
def strings? : Toml.Tree → Option (List String)
  | .array items => items.mapM fun
    | .str s => some s
    | _ => none
  | _ => none

/-- A table of integers. -/
def constantTable? : Toml.Tree → Option ConstantTable
  | .table _ entries => entries.mapM fun
    | (name, .int n) => some (name, n)
    | _ => none
  | _ => none

/-- The values of some named settings: a table may name each of them, and a list gives them in
order. -/
def valuesOf? (names : List String) : Toml.Tree → Option (List (String × Toml.Tree))
  | .table _ entries =>
    if entries.all fun (name, _) => names.contains name then some entries else none
  | .array items => some (names.zip items)
  | .tables elements => some (names.zip (elements.map (.table .header)))
  | _ => none

/-- A setting, or its default if it is not among the values. -/
def setting? {α : Type} (values : List (String × Toml.Tree)) (name : String)
    (read? : Toml.Tree → Option α) (default : α) : Option α :=
  match values.lookup name with
  | some tree => read? tree
  | none => some default

/-- The settings of the preprocessor. -/
def preprocessor? (tree : Toml.Tree) : Option PreprocessorConfig := do
  let values ← valuesOf? ["command", "include_dirs", "defines"] tree
  let default : PreprocessorConfig := {}
  return {
    command := ← setting? values "command" strings? default.command
    includeDirs := ← setting? values "include_dirs" strings? default.includeDirs
    defines := ← setting? values "defines" strings? default.defines }

/-- The constants for generation. -/
def generation? (tree : Toml.Tree) : Option ConstantTable := do
  setting? (← valuesOf? ["constants"] tree) "constants" constantTable? generationConstants

/-- The settings of a whole table. -/
def ofEntries? (entries : List (String × Toml.Tree)) : Option Config := do
  let values ← valuesOf? ["preprocessor", "generation", "categories"] (.table .header entries)
  return {
    preprocessor := ← setting? values "preprocessor" preprocessor? {}
    constants := ← setting? values "generation" generation? generationConstants
    categories? := ← setting? values "categories" (fun tree => (strings? tree).map some) none }

/-- The settings that a text writes. -/
def parse? (s : Text) : Option Config := (Toml.parse? s).bind ofEntries?

/-! ## Files -/

/-- The settings of a project; without a file, every setting has its default. -/
def read (project : Project) (tree : FileTree) : Result Config :=
  let path := [fileName]
  if !tree.contains path then .ok {}
  else
    match tree.readText path with
    | .error e =>
      .error ⟨.system e, [s!"Failed to read config file: {project.show_ path}"]⟩
    | .ok text =>
      match parse? text with
      | some config => .ok config
      | none => fail (.configInvalid (project.show_ path) "not a table of settings")

/-- The enabled categories, in the order in which they are worked through. -/
def enabledKinds (config : Config) : Result (List CategoryKind) :=
  match config.categories? with
  | none => .ok CategoryKind.all
  | some ids =>
    match ids.find? fun id => (CategoryKind.ofId? id).isNone with
    | some id => fail (.unknownCategory id)
    | none => .ok (CategoryKind.all.filter fun kind => ids.contains kind.id)

end Config

end TableSync
