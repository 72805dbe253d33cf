/-!
# The categories of data

Each category is one slice of a project's data, with one document of its own.

* `CategoryKind.all` is the order in which categories are worked through.  The order matters, since
  some categories read and write the same files.
* `CategoryKind.id` is the name of a category wherever one is given as text: on the command line, in
  the settings, in messages, and in the file name of its document.  `CategoryKind.ofId?` is the way
  back.

What the categories are made of is the subject of `TableSync.Category.Definition`.
-/

set_option autoImplicit false

namespace TableSync

/-- A slice of the data of a project. -/
inductive CategoryKind
  | species
  | abilities
  | items
  | constants
  | starters
  | moves
  | pokedex
  deriving DecidableEq, Repr

namespace CategoryKind

/-- Every category, in the order in which they are worked through. -/
def all : List CategoryKind := [species, abilities, items, constants, starters, moves, pokedex]

/-- The name of a category on the command line and in the name of its document. -/
def id : CategoryKind → String
  | species => "species"
  | abilities => "abilities"
  | items => "items"
  | constants => "constants"
  | starters => "starters"
  | moves => "moves"
  | pokedex => "pokedex"

/-- The category with a name. -/
def ofId? (id : String) : Option CategoryKind := all.find? fun kind => kind.id == id

/-- The file name of the document. -/
def document (kind : CategoryKind) : String := kind.id ++ ".json"

end CategoryKind

end TableSync
