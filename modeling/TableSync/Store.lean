import TableSync.Data.Document
import TableSync.Files.Session

/-!
# Documents on disk

A `Store` holds the records of one document, and what was last read from it or written to it.
Saving compares the two, so that a document without edits keeps its content and its time.

* `read` is the store of a document in a file.  A document that is not there is an empty store; one
  that is there and is no record of values is refused.
* `isDirty` says whether saving has something to do: the records have changed since the file was
  read or written, or the file has gone.
* `forceSave` writes the document in any case, and `save` only if it is dirty.

Records are compared with the order of their fields, since the file has an order.
-/

set_option autoImplicit false

namespace TableSync

/-- The records of a document, and those that its file holds, if it has been read or written. -/
structure Store where
  /-- The path of the document. -/
  path : Path
  /-- The records as they are now. -/
  records : Record := .empty
  /-- The records that the file holds. -/
  saved? : Option Record := none

namespace Store

/-- A store without records, before anything is in its file. -/
def empty (path : Path) : Store := { path }

/-- The store of a document.  If there is no file, it is empty. -/
def read (project : Project) (tree : FileTree) (path : Path) : Result Store :=
  match tree.readText path with
  | .error .notFound => .ok (empty path)
  | .error e => fail (.documentInaccessible (project.show_ path) e)
  | .ok text =>
    match Record.parse? text with
    | some records => .ok ⟨path, records, some records⟩
    | none => fail (.documentInvalid (project.show_ path) "not a record of values")

/-- Reads a document. -/
def load (project : Project) (path : Path) : Action Store := do
  Action.ofResult (read project (← get).tree path)

/-- Whether the records differ from those of the file, or the file is not there. -/
def isDirty (s : Store) (tree : FileTree) : Bool :=
  s.saved? ≠ some s.records || !tree.contains s.path

/-- Writes the document. -/
def forceSave (project : Project) (s : Store) : Action Store := do
  ensureParent project s.path
  Action.change (FileTree.write · s.path (.text s.records.document))
    (.documentInaccessible (project.show_ s.path))
  return { s with saved? := some s.records }

/-- Writes the document if it is dirty, and says whether it was. -/
def save (project : Project) (s : Store) : Action (Store × Bool) := do
  if ← look s.isDirty then return (← s.forceSave project, true)
  return (s, false)

end Store

end TableSync
