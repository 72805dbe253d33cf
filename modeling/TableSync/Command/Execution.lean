import TableSync.Command.Work

/-!
# Runs of the program

`execute` is a whole run, from the arguments to the texts on the two outputs, the log file, the exit
code, and the files after it.  Files are a value here, the tree below the root of the file system.

* `Surroundings` is everything that a run depends on besides its arguments and the files, and
  `RunResult` everything that it leaves behind.  So a run is a function, and two runs with the same
  arguments, files and surroundings do the same.
* `findRoot` is the root of the project: the one of the arguments before the one of the environment,
  and the nearest one above the working directory if neither is given.
* `consoleTexts` and `logText` are made of the events of the work after it has ended.  The console
  shows what its filter lets through, and the log file all of it, without colours.
* A failure of the work itself is told last, with what it rests on (`Failure.report`).
-/

set_option autoImplicit false

namespace TableSync

/-- What a run finds around it. -/
structure Surroundings where
  /-- The working directory. -/
  directory : Path
  /-- The root that the environment names. -/
  root? : Option String
  /-- What the console shows, if the environment says so. -/
  filter? : Option String
  /-- The directory of log files. -/
  logDirectory : String
  /-- The date in the head of the log file. -/
  date : String
  /-- The time before each line of the log file. -/
  time : String

/-- What a run leaves behind. -/
structure RunResult where
  /-- The code with which the run ends. -/
  exitCode : Nat
  /-- What is written to the output. -/
  out : Text
  /-- What is written to the error output. -/
  err : Text
  /-- The log file, if there is one. -/
  log? : Option Text
  /-- The files after the run. -/
  tree : FileTree

/-- The lines of the causes of a failure, each with its number. -/
def numberedCauses (causes : List String) : List String :=
  causes.zipIdx.map fun (cause, i) => padStart 5 (String.ofList (showNat i)) ++ ": " ++ cause

/-- A failure as the last thing that a run tells: its text, and what it rests on. -/
def Failure.report (f : Failure) : String :=
  match f.chain with
  | [] => "Error: "
  | [text] => "Error: " ++ text
  | [text, cause] => "Error: " ++ text ++ "\n\nCaused by:\n    " ++ cause
  | text :: causes =>
    "Error: " ++ text ++ "\n\nCaused by:\n" ++ "\n".intercalate (numberedCauses causes)

/-- The root of a project: the one that the arguments name, the one that the environment names, or
the nearest directory above the working directory that has a directory of sources. -/
def findRoot (surroundings : Surroundings) (tree : FileTree) (named? : Option String) :
    Result String :=
  match named?.or surroundings.root? with
  | some root => .ok root
  | none =>
    let hasSources := fun p : Path => tree.isDirectory (p ++ Project.sourceDir)
    match (Path.starts surroundings.directory).reverse.find? hasSources with
    | some p => .ok ("/" ++ Path.text p)
    | none =>
      .error (.ofText "cannot determine project root. Use --root or set PORYSYNC_ROOT")

/-- What the log file starts with. -/
def logHeader (surroundings : Surroundings) : Text :=
  let rule := String.ofList (List.replicate 42 '=')
  unlines ([rule, versionLine ++ " " ++ surroundings.date, rule].map String.toList)

/-- The texts that a run with some events has put on the two outputs. -/
def consoleTexts (filter : Filter) (events : List Event) : Text × Text :=
  let shown := events.filterMap (Event.consoleLine? filter)
  let textOf := fun isError => unlines ((shown.filter (·.1 == isError)).map (·.2.toList))
  (textOf false, textOf true)

/-- The log file of a run with some events. -/
def logText (surroundings : Surroundings) (events : List Event) : Text :=
  logHeader surroundings
    ++ unlines ((events.filterMap (Event.fileLine? surroundings.time)).map String.toList)

/-- The file to which a command logs. -/
def logFile (surroundings : Surroundings) (command : Command) : String :=
  s!"{surroundings.logDirectory}/{command.name}.log"

/-- A command that keeps a log. -/
def executeLogged (surroundings : Surroundings) (tree : FileTree) (invocation : Invocation) :
    RunResult :=
  let root := findRoot surroundings tree invocation.root?
  let place := Path.resolve surroundings.directory (root.toOption.getD "")
  let work : Action Text := do
    say .debug versionLine
    invocation.command.work (root.map Project.mk) (logFile surroundings invocation.command)
  let (outcome, world) := work.run.run { tree := tree.below place }
  let filter := (surroundings.filter?.bind fun s => Filter.parse? s.toList).getD
    (Filter.standard invocation.verbose)
  let (out, err) := consoleTexts filter world.events
  let log? := some (logText surroundings world.events)
  let tree := tree.graft place world.tree
  match outcome with
  | .ok text => ⟨0, out ++ text, err, log?, tree⟩
  | .error f => ⟨1, out, err ++ f.report.toList ++ ['\n'], log?, tree⟩

/-- A whole run. -/
def execute (surroundings : Surroundings) (tree : FileTree) (args : List String) :
    Except UsageError RunResult := do
  let invocation ← Invocation.parse args
  match invocation.command with
  | .version => return ⟨0, versionLine.toList ++ ['\n'], [], none, tree⟩
  | _ => return executeLogged surroundings tree invocation

end TableSync
