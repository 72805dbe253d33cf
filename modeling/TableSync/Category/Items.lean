import TableSync.Scan.Table

/-!
# Items

The item table, each item with its place in the table as its id.

* `scanner` reads the table entity by entity; only the name and the description of an item have
  parsers, and all its other fields are kept as they stand.
* `entry` is an item: its name stands apart from its other fields, and the item that stands for none
  gets a name of its own.
* `parse` numbers the entities from zero in the order of the table.  Where an id occurs again the
  later item takes the place of the first one, but the entities are all counted.
-/

set_option autoImplicit false

namespace TableSync.Items

/-- The item table. -/
def tableFile : String := "src/data/items.h"

/-- The id of the item that stands for none. -/
def noItem : String := "ITEM_NONE"

/-- How the item table is scanned. -/
def scanner : Scanner where
  header := headerAt? "ITEM_".toList
  fields := [("name", localized?), ("description", description?)]

/-- The name of an item. -/
def nameOf (e : Entity) : Value :=
  if e.id = noItem then .str "None" else (e.fields.get? "name").getD (.str "")

/-- An item: its name, its other fields, and its place. -/
def entry (e : Entity) (place : Nat) : Value :=
  .record ⟨[("name", nameOf e), ("data", .record (e.fields.remove "name")), ("id", .int place)]⟩

/-- The document of items. -/
def parse (text : Text) : Extraction :=
  let scan := scanner.scan text
  ⟨Record.ofFields (scan.entities.zipIdx.map fun (e, place) => (e.id, entry e place)),
    { scan.report with records := scan.entities.length }⟩

end TableSync.Items
