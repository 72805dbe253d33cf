import TableSync.Files.Source

/-!
# Bound files, backups and generated files

A bound file is written by hand and changed by generation.  Before the first change it is copied to
a backup beside it, and every change starts from the backup; restoring copies the backup back and
drops it.  A generated file has no hand-written form, and restoring deletes it.

* `Binding.apply` makes the backup if there is none, and `Binding.remove` puts the pristine text
  back.  A bound file without a backup is taken to be pristine.
* `GeneratedFile.apply` and `GeneratedFile.remove` are the same for a generated file, of which only
  the directory is made beforehand.
* `ensureBackups` and `restoreFiles` go over all files of a category in turn, and stop at the first
  one that fails.

Whether something was changed is told apart from whether there was something to do (`FileState`,
`Change`).  Copying gives the copy the time of the copying, and not that of the original.
-/

set_option autoImplicit false

namespace TableSync

/-- The state of a tracked file. -/
inductive FileState
  /-- Something has to be made. -/
  | missing
  | correct
  /-- Something is there, but not all. -/
  | incorrect (current : String)
  /-- There is nothing to work with. -/
  | invalid (reason : String)
  deriving DecidableEq

/-- Whether something has to be done about a state. -/
def FileState.needsChange : FileState → Bool
  | missing | incorrect _ => true
  | correct | invalid _ => false

/-- Whether an operation changed something. -/
inductive Change
  | applied
  | alreadyCorrect
  deriving DecidableEq

/-- A hand-written file that generation changes, by its path below the sources. -/
structure Binding where
  /-- The path below the directory of sources. -/
  rel : String
  deriving DecidableEq

namespace Binding

/-- The bound file. -/
def file (b : Binding) : Path := Project.sourcePath b.rel

/-- The backup. -/
def backup (b : Binding) : Path := Project.sourcePath (b.rel ++ ".bak")

/-- What the binding is, in words. -/
def description (b : Binding) : String := s!"{b.rel} (backup {b.rel}.bak)"

/-- Whether the file and the backup are there. -/
def state (project : Project) (tree : FileTree) (b : Binding) : FileState :=
  match tree.contains b.file, tree.contains b.backup with
  | true, true => .correct
  | true, false => .missing
  | false, true => .incorrect "original missing"
  | false, false => .invalid s!"{project.show_ b.file} does not exist"

/-- Makes the backup if there is none. -/
def apply (project : Project) (b : Binding) : Action Change := do
  if ← look (FileTree.contains · b.backup) then return .alreadyCorrect
  if !(← look (FileTree.contains · b.file)) then
    throw ⟨.sourceMissing (project.show_ b.file), []⟩
  copyFile project b.file b.backup
  return .applied

/-- Puts the pristine text back and drops the backup.  Without a backup nothing was ever
changed. -/
def remove (project : Project) (b : Binding) : Action Change := do
  if !(← look (FileTree.contains · b.backup)) then return .alreadyCorrect
  copyFile project b.backup b.file
  removeExisting project b.backup
  return .applied

end Binding

/-- A file that generation alone makes, by its path below the sources. -/
structure GeneratedFile where
  /-- The path below the directory of sources. -/
  rel : String
  deriving DecidableEq

namespace GeneratedFile

/-- The file. -/
def path (g : GeneratedFile) : Path := Project.sourcePath g.rel

/-- What the file is, in words. -/
def description (g : GeneratedFile) : String := s!"{g.rel} (generated)"

/-- Whether the file is there. -/
def state (tree : FileTree) (g : GeneratedFile) : FileState :=
  if tree.contains g.path then .correct else .missing

/-- Makes the directory for the file. -/
def apply (project : Project) (g : GeneratedFile) : Action Change := do
  if ← look (FileTree.isDirectory · g.path.dropLast) then return .alreadyCorrect
  ensureParent project g.path
  return .applied

/-- Deletes the file. -/
def remove (project : Project) (g : GeneratedFile) : Action Change := do
  if !(← look (FileTree.contains · g.path)) then return .alreadyCorrect
  removeExisting project g.path
  return .applied

end GeneratedFile

/-- Makes the backups of all bindings. -/
def ensureBackups (project : Project) : List Binding → Action Unit
  | [] => return ()
  | b :: rest => do
    let _ ← b.apply project
    ensureBackups project rest

/-- How many of some operations changed something. -/
def countApplied : List (Action Change) → Action Nat
  | [] => return 0
  | a :: rest => do
    let change ← a
    let n ← countApplied rest
    return if change = .applied then n + 1 else n

/-- Puts all bound files back and deletes all generated files; says how many files that were. -/
def restoreFiles (project : Project) (bindings : List Binding) (generated : List GeneratedFile) :
    Action Nat :=
  countApplied (bindings.map (·.remove project) ++ generated.map (·.remove project))

end TableSync
