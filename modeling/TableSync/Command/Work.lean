import TableSync.Command.Invocation
import TableSync.Config
import TableSync.Log.Console
import TableSync.Manager.Basic
import TableSync.Process.Programs

/-!
# What the commands do

Each command opens the project, works on its categories, and ends with a summary of the steps.  A
command fails if a step has failed; what is printed besides the events is its result.

* `openProject` reads the settings and makes a manager of the enabled categories, before any
  document or source is read.
* `runExtract`, `runBuild` and `runRestore` are made of operations of the manager over all
  categories.
* `runStatus`, `runPrint` and `runAssign` are about documents.  The first two only open them, so
  they change no file.
* `finish` tells the summary and counts the failed steps.  A step that fails does not end a command:
  the work goes on with the next category, and the command fails at its end.
-/

set_option autoImplicit false

namespace TableSync

/-- The version of the program. -/
def versionLine : String := "porysync 0.1.0"

/-- The keys of a path that is written with dots. -/
def fieldPath (s : Text) : List String :=
  ((splitOn ['.'] s).filter (!·.isEmpty)).map String.ofList

/-- A text with blanks after it, up to a width. -/
def padEnd (width : Nat) (s : String) : String :=
  s ++ String.ofList (List.replicate (width - s.length) ' ')

/-- A text with blanks before it, up to a width. -/
def padStart (width : Nat) (s : String) : String :=
  String.ofList (List.replicate (width - s.length) ' ') ++ s

/-- A line on what is due for a category. -/
def CategoryStatus.line (s : CategoryStatus) : String :=
  let word := fun (due : Bool) (name : String) => if due then name else "-"
  padEnd 10 s.kind.id ++ " " ++ padStart 6 (String.ofList (showNat s.records)) ++ " records  "
    ++ padEnd 5 (word s.dirty "dirty") ++ " " ++ padEnd 7 (word s.extractionDue "extract") ++ " "
    ++ word s.regenerationDue "build"

namespace Command

/-- The category with a name. -/
def category (id : String) : Result CategoryKind :=
  match CategoryKind.ofId? id with
  | some kind => .ok kind
  | none => fail (.unknownCategory id)

/-- Opens a project, if one was found: reads its settings, and gives a manager of the enabled
categories. -/
def openProject (found : Result Project) : Action Manager := do
  let project ← Action.ofResult found
  say .debug s!"project root: {project.root}"
  let config ← Action.ofResult (Config.read project (← get).tree)
  say .debug ("preprocessor: " ++ " ".intercalate config.preprocessor.command)
  say .debug s!"{config.constants.length} generation constants"
  let kinds ← Action.ofResult config.enabledKinds
  say .info ("categories: " ++ ", ".intercalate (kinds.map CategoryKind.id))
  return Manager.ofKinds project config.constants ⟨systemRunner project, config.preprocessor⟩ kinds

/-- How many steps have failed so far. -/
def failureCount : Action Nat := do return (failedSteps (stepsOf (← get).events)).length

/-- Tells several events. -/
def tellAll : List Event → Action Unit
  | [] => return ()
  | e :: rest => do
    tell e
    tellAll rest

/-- The end of a command: the summary, and a failure if a step has failed. -/
def finish (logFile : String) : Action Unit := do
  tellAll (summary (stepsOf (← get).events) (some logFile))
  let failures ← failureCount
  if failures ≠ 0 then throw (.ofText s!"{failures} category step(s) failed")

/-- Extracts what is due, or everything if `force` is set. -/
def runExtract (found : Result Project) (logFile : String) (force : Bool) : Action Unit := do
  let m ← openProject found
  say .stage "Extracting"
  let m ← m.loadAll force
  let (written, _) ← m.persistAll
  say .debug s!"{written} document(s) written"
  finish logFile

/-- Writes the files that are due. -/
def runBuild (found : Result Project) (logFile : String) (dryRun : Bool) : Action Unit := do
  let m ← openProject found
  say .stage "Loading"
  let m ← if dryRun then m.openDocuments else do
    let (_, m) ← (← m.loadAll false).persistAll
    pure m
  say .stage "Regenerating"
  let (count, _) ← m.regenerateAll dryRun
  if count = 0 then say .info "everything is up to date"
  finish logFile

/-- Puts all bound files back. -/
def runRestore (found : Result Project) (logFile : String) : Action Unit := do
  let m ← openProject found
  say .stage "Restoring"
  let touched ← m.restoreAll
  say .info s!"{touched} file(s) restored or removed"
  finish logFile

/-- Tells what is due. -/
def runStatus (found : Result Project) : Action Unit := do
  let m ← openProject found
  let m ← m.openDocuments
  say .stage "Status"
  sayAll .info ((m.status (← get).tree).map CategoryStatus.line)
  let failures ← failureCount
  if failures ≠ 0 then throw (.ofText s!"{failures} document(s) could not be read")

/-- What is printed of a document: all of it, or the value at the end of a path as a document of its
own. -/
def printed (kind : CategoryKind) (records : Record) (path : List String) : Result Text :=
  if path.isEmpty then .ok records.document
  else
    let shown := ".".intercalate path
    match records.getPath? path with
    | some v => .ok (Record.mk [(shown, v)]).document
    | none => .error (.ofText s!"{kind.id} has no '{shown}'")

/-- Gives the text of a document or of a value in it. -/
def runPrint (found : Result Project) (id : String) (path? : Option String) : Action Text := do
  let kind ← Action.ofResult (category id)
  let m ← openProject found
  let m ← m.openDocuments
  match m.records? kind with
  | none => throw (.ofText s!"no {kind.id} document; run `porysync extract` first")
  | some records =>
    Action.ofResult (printed kind records (fieldPath (path?.getD "").toList))

/-- Changes a value, and saves its document. -/
def runAssign (found : Result Project) (logFile id path value : String) : Action Unit := do
  let kind ← Action.ofResult (category id)
  let keys := fieldPath path.toList
  if keys.isEmpty then throw (.ofText "empty path")
  let m ← openProject found
  let m ← m.loadAll false
  let (previous?, m) ← Action.ofResult (m.set kind keys (Value.ofInput value.toList))
  let (saved, _) ← m.save kind
  if ← Action.ofResult saved then
    let previous := match previous? with
      | some v => String.ofList v.text
      | none => "(unset)"
    say .info s!"{kind.id}.{path}: {previous} -> {value}"
  else say .info "value unchanged"
  finish logFile

/-- Carries out a command, and gives the text that it prints. -/
def work (command : Command) (found : Result Project) (logFile : String) : Action Text := do
  match command with
  | extract force => runExtract found logFile force
  | build dryRun => runBuild found logFile dryRun
  | restore => runRestore found logFile
  | status => runStatus found
  | print id path? => return ← runPrint found id path?
  | assign id path value => runAssign found logFile id path value
  | version => return versionLine.toList ++ ['\n']
  return []

end Command

end TableSync
