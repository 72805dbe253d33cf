import TableSync.Files.Tree
import TableSync.Log.Event

/-!
# Work on a project's files

A `World` is the tree of files of a project with the events of the work so far.  A `Run` changes
it and cannot fail; an `Action` can, and what it has changed before it fails stays changed.

Paths are those of the tree, whose root is the root of the project; a `Project` knows how that root
is called, for messages.
-/

set_option autoImplicit false

namespace TableSync

/-- The files of a project, and what has been told about the work on them. -/
structure World where
  /-- The files. -/
  tree : FileTree
  /-- What has been told, in its order. -/
  events : List Event := []

/-- Work that cannot fail. -/
abbrev Run := StateM World

/-- Work that can fail. -/
abbrev Action := ExceptT Failure Run

/-- The outcome of work that can fail. -/
def attempt {α : Type} {m : Type → Type} [MonadLiftT Run m] (a : Action α) :
    m (Except Failure α) :=
  liftM (a.run : Run (Except Failure α))

section

variable {m : Type → Type} [Monad m] [MonadStateOf World m]

/-- Tells something. -/
def tell (e : Event) : m Unit := modify fun w => { w with events := w.events ++ [e] }

/-- Tells a message. -/
def say (level : Level) (text : String) : m Unit := tell (.message level text)

/-- Something about the tree as it is. -/
def look {α : Type} (f : FileTree → α) : m α := do return f (← get).tree

end

namespace Action

/-- An outcome as work. -/
def ofResult {α : Type} (r : Result α) : Action α :=
  match r with
  | .ok a => pure a
  | .error f => throw f

/-- Work with a context for its failure. -/
def inContext {α : Type} (context : String) (a : Action α) : Action α :=
  ExceptT.mk do return (← a.run).mapError (Failure.inContext context)

/-- A change of the tree, and the cause if it is refused. -/
def change (f : FileTree → Except OsError FileTree) (cause : OsError → Cause := .system) :
    Action Unit := do
  match f (← get).tree with
  | .ok tree => modify fun w => { w with tree }
  | .error e => throw ⟨cause e, []⟩

/-- The present time, which passes. -/
def now : Action Nat := do
  let time ← look FileTree.clock
  modify fun w => { w with tree := w.tree.tick }
  return time

end Action

/-- How the root of a project is called. -/
structure Project where
  /-- The root as it was named, for messages only. -/
  root : String
  deriving DecidableEq

namespace Project

/-- A path below the root as it is shown. -/
def show_ (project : Project) (p : Path) : String :=
  if p.isEmpty then project.root
  else if project.root.isEmpty then Path.text p
  else if endsWith ['/'] project.root.toList then project.root ++ Path.text p
  else project.root ++ "/" ++ Path.text p

/-- The directory of sources. -/
def sourceDir : Path := ["source"]

/-- The directory of what the preprocessor writes. -/
def processedDir : Path := ["processed"]

/-- The directory of documents. -/
def dataDir : Path := ["data"]

/-- A source file. -/
def sourcePath (rel : String) : Path := sourceDir ++ Path.ofText rel

/-- A preprocessed file. -/
def processedPath (rel : String) : Path := processedDir ++ Path.ofText rel

/-- A document. -/
def documentPath (name : String) : Path := dataDir ++ [name]

end Project

/-- Makes the directory of a file. -/
def ensureParent (project : Project) (p : Path) : Action Unit :=
  (Action.change (FileTree.makeDirs · p.dropLast)).inContext
    s!"create parent: {project.show_ p.dropLast}"

/-- Copies a file over another. -/
def copyFile (project : Project) (source target : Path) : Action Unit := do
  ensureParent project target
  (Action.change (FileTree.copy · source target)).inContext
    s!"copying {project.show_ source} to {project.show_ target}"

/-- Removes a file that may be there. -/
def removeExisting (project : Project) (p : Path) : Action Unit := do
  if ← look (FileTree.contains · p) then
    (Action.change (FileTree.remove · p)).inContext s!"remove existing: {project.show_ p}"

/-- Sets the time of a file. -/
def stampFile (project : Project) (p : Path) (time : Nat) : Action Unit :=
  (Action.change (FileTree.setTime · p time)).inContext s!"stamping {project.show_ p}"

end TableSync
