import TableSync.Category.Definition
import TableSync.Files.Source
import TableSync.Store

/-!
# One managed category

A `Category` is a definition with the store of its document, and whether its records may be used.
What is due is decided from the files alone, so that it holds for every later run:

* **extraction** is due if there is no document, if an input is newer than it, or if a backup is
  missing and the document is not newer than every input;
* **regeneration** is due if the records differ from the document, if a bound or generated file is
  missing, or if the document is newer than a file written from it.

An extraction gives the document the time of the newest input, and a regeneration gives the document
and every written file one common time, so that neither makes the other due.
-/

set_option autoImplicit false

namespace TableSync

/-- How a step on a category ended, if it did not fail. -/
inductive Outcome
  | done (detail? : Option String)
  | unchanged (reason : String)
  | skipped (reason : String)
  | dryRun

/-- A category with its document. -/
structure Category where
  /-- What belongs to the category. -/
  definition : CategoryDef
  /-- Its records, and what its document holds. -/
  store : Store
  /-- Whether the records come from the sources or from a document. -/
  trusted : Bool

/-- What the work on a category draws on. -/
structure Workshop where
  /-- The project that the files belong to. -/
  project : Project
  /-- How sources are preprocessed. -/
  preprocessor : Preprocessor
  /-- The values of names that conditionals compare. -/
  constants : ConstantTable
  /-- Writes a file below the sources. -/
  write : String → Text → Action Unit

/-- Writes a file below the sources, and says so. -/
def writeAnnounced (project : Project) (rel : String) (text : Text) : Action Unit := do
  say .debug s!"writing {rel}"
  writeSource project (Project.sourcePath rel) text

namespace Category

/-- A category before anything has been read. -/
def ofKind (kind : CategoryKind) : Category where
  definition := CategoryDef.ofKind kind
  store := .empty (Project.documentPath kind.document)
  trusted := false

/-- The kind of a category. -/
def kind (c : Category) : CategoryKind := c.definition.kind

/-- The name of a category. -/
def id (c : Category) : String := c.kind.id

/-! ## What is due -/

/-- The time of the document. -/
def documentTime? (c : Category) (tree : FileTree) : Option Nat := tree.time? c.store.path

/-- The time of the newest input. -/
def newestInput? (c : Category) (tree : FileTree) : Option Nat :=
  (c.definition.inputs.filterMap fun rel => tree.time? (Project.sourcePath rel)).max?

/-- Whether all backups are there. -/
def backupsComplete (c : Category) (tree : FileTree) : Bool :=
  c.definition.bindings.all fun b => tree.contains b.backup

/-- Whether all bound files, with their backups, and all generated files are there. -/
def filesComplete (c : Category) (tree : FileTree) : Bool :=
  c.definition.bindings.all (fun b => tree.contains b.file && tree.contains b.backup)
    && c.definition.generated.all fun g => tree.contains g.path

/-- Whether the document has to be extracted. -/
def extractionDue (c : Category) (tree : FileTree) : Bool :=
  match c.documentTime? tree with
  | none => true
  | some time =>
    match c.newestInput? tree with
    | none => !c.backupsComplete tree
    | some newest => time < newest || (!c.backupsComplete tree && !(newest < time))

/-- Whether the document has been saved since the last regeneration. -/
def pending (c : Category) (tree : FileTree) : Bool :=
  match c.definition.generator?, c.documentTime? tree with
  | some _, some time =>
    (c.definition.writtenPaths.filterMap tree.time?).any fun written => written < time
  | _, _ => false

/-- Whether the files have to be written. -/
def regenerationDue (c : Category) (tree : FileTree) : Bool :=
  c.store.isDirty tree || !c.filesComplete tree || c.pending tree

/-! ## Extraction -/

/-- Tells the tally of an extraction, and every field that was kept as text. -/
def tellReport (id : String) (report : Report) : Action Unit := do
  say .info (s!"{id}: {report.records} records, {report.fields} fields, "
    ++ s!"{report.fallbacks.length} fallbacks, {report.skippedLines} skipped lines")
  sayAll .debug (report.fallbacks.map fun f =>
    s!"{id}: {f.entity}.{f.key} kept as literal: {f.raw}")

/-- Gives the document the time of the newest input. -/
def stampDocument (project : Project) (c : Category) : Action Unit := do
  match ← look c.newestInput? with
  | some newest => stampFile project c.store.path newest
  | none => return ()

/-- Keeps the document that is there after a failed extraction. -/
def keepDocument (project : Project) (c : Category) (why : Failure) :
    Run (Except Failure Outcome × Category) := do
  match ← attempt (Store.load project c.store.path) with
  | .error f => return (.error f, c)
  | .ok store =>
    return (.ok (.skipped s!"extraction failed, keeping previous document: {why.message}"),
      { c with store, trusted := true })

/-- Saves extracted records. -/
def saveExtraction (project : Project) (c : Category) (extraction : Extraction) :
    Run (Except Failure Outcome × Category) := do
  let c := { c with store := { c.store with records := extraction.records } }
  match ← attempt (c.store.forceSave project) with
  | .error f => return (.error f, c)
  | .ok store =>
    let c := { c with store }
    match ← attempt (c.stampDocument project) with
    | .error f => return (.error f, c)
    | .ok () =>
      return (.ok (.done (some s!"{extraction.records.size} records")),
        { c with trusted := true })

/-- Reads the document from the sources.  If that fails, a document that is there is kept. -/
def extract (w : Workshop) (c : Category) : Run (Except Failure Outcome × Category) := do
  match ← attempt (c.definition.extraction w.project w.preprocessor) with
  | .error f =>
    if ← look (FileTree.contains · c.store.path) then c.keepDocument w.project f
    else return (.error f, { c with trusted := false })
  | .ok extraction =>
    let _ ← attempt (tellReport c.id extraction.report)
    c.saveExtraction w.project extraction

/-- Extracts the document if that is due or `force` is set, and reads it otherwise. -/
def load (w : Workshop) (force : Bool) (c : Category) :
    Run (Except Failure Outcome × Category) := do
  if force || (← look c.extractionDue) then c.extract w
  else
    match ← attempt (Store.load w.project c.store.path) with
    | .error f => return (.error f, c)
    | .ok store => return (.ok (.unchanged "document up to date"), { c with store, trusted := true })

/-- Reads the document without extracting. -/
def openDocument (project : Project) (c : Category) :
    Run (Except Failure Outcome × Category) := do
  match ← attempt (Store.load project c.store.path) with
  | .error f => return (.error f, c)
  | .ok store =>
    if ← look (FileTree.contains · store.path) then
      return (.ok (.done none), { c with store, trusted := true })
    else return (.ok (.unchanged "no document"), { c with store, trusted := false })

/-! ## Regeneration -/

/-- Writes files in turn. -/
def writeOutputs (write : String → Text → Action Unit) : List (String × Text) → Action Unit
  | [] => return ()
  | (rel, text) :: rest => do
    write rel text
    writeOutputs write rest

/-- Makes the backups, and writes all files from the document and the backups. -/
def generateOnce (w : Workshop) (c : Category) : Action Unit := do
  ensureBackups w.project c.definition.bindings
  let tree := (← get).tree
  let outputs ← Action.ofResult <| c.definition.outputs w.constants c.store.records fun rel =>
    sourceText w.project tree (Binding.backup ⟨rel⟩)
  writeOutputs w.write outputs

/-- Puts all bound files back and deletes all generated files. -/
def rollback (project : Project) (c : Category) : Action Unit := do
  let _ ← (restoreFiles project c.definition.bindings c.definition.generated).inContext
    s!"restoring {c.id}"

/-- Gives some files that are there one time. -/
def stampAll (project : Project) (time : Nat) : List Path → Action Unit
  | [] => return ()
  | p :: rest => do
    if ← look (FileTree.contains · p) then stampFile project p time
    stampAll project time rest

/-- Gives the document and every written file the present time. -/
def stamp (project : Project) (c : Category) : Action Unit := do
  let time ← Action.now
  stampAll project time c.definition.writtenPaths
  stampFile project c.store.path time

/-- Writes all files; after a failure the tree is restored, and one more try is made.  After a
second failure the tree is restored and left so. -/
def rebuild (w : Workshop) (c : Category) : Action Unit := do
  match ← attempt (c.generateOnce w) with
  | .ok () => c.stamp w.project
  | .error first =>
    say .warn s!"{c.id}: generation failed, restoring and retrying: {first.message}"
    c.rollback w.project
    match ← attempt (c.generateOnce w) with
    | .ok () => c.stamp w.project
    | .error second =>
      c.rollback w.project
      throw ⟨.generationFailed c.id second.message, []⟩

/-- Saves the document if it is dirty, and writes all files from it. -/
def regenerate (w : Workshop) (c : Category) : Run (Except Failure Unit × Category) := do
  match ← attempt (c.store.save w.project) with
  | .error f => return (.error f, c)
  | .ok (store, _) =>
    let c := { c with store }
    return (← attempt (c.rebuild w), c)

/-- Saves the document if it is dirty. -/
def persist (project : Project) (c : Category) : Run (Except Failure Bool × Category) := do
  match ← attempt (c.store.save project) with
  | .error f => return (.error f, c)
  | .ok (store, saved) => return (.ok saved, { c with store })

end Category

end TableSync
