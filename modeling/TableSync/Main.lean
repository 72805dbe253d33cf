import TableSync.Command.Execution
import TableSync.Log.Calendar

/-!
# The program

The outer layer: it reads the files of the project, lets `execute` do the work, and writes what has
changed.  A file's time is that of its writing, and the files are written in the order of their new
times.

* `readProject` makes the tree of files that `execute` is given, with the time of each file.
* `writeChanges` brings the file system from the tree before the run to the tree after it; what is
  the same in both is not touched.
* `perform` is a run whose arguments have been read, and `main` the program.

No decision about the data of a project is made in this file.
-/

set_option autoImplicit false

namespace TableSync.Outer

/-- A path of the file system. -/
def placeOf (p : Path) : String := "/" ++ Path.text p

/-- The content that bytes hold. -/
def contentOf (bytes : ByteArray) : Content :=
  match String.fromUTF8? bytes with
  | some s => .text s.toList
  | none => .binary bytes.toList

/-- The bytes of a content. -/
def bytesOf : Content → ByteArray
  | .text t => (String.ofList t).toUTF8
  | .binary bytes => ByteArray.mk bytes.toArray

/-- A moment in nanoseconds. -/
def nanoseconds (t : IO.FS.SystemTime) : Nat := t.sec.toNat * 1000000000 + t.nsec.toNat

/-- What a path leads to, and what is below it. -/
partial def readNodes (p : Path) : IO (List (Path × Node)) := do
  let place := (← IO.currentDir) / placeOf p
  if !(← place.pathExists) then return []
  let time := nanoseconds (← place.metadata).modified
  if ← place.isDir then
    let below ← (← place.readDir).toList.mapM fun entry => readNodes (p ++ [entry.fileName])
    return (p, .directory time) :: below.flatten
  else return [(p, .file ⟨contentOf (← IO.FS.readBinFile place), time⟩)]

/-- The files of a project, and the directories above them. -/
def readProject (root : Path) : IO FileTree := do
  let above := ((Path.starts root).filter (!·.isEmpty)).map fun p => (p, Node.directory 0)
  let parts := [Project.sourceDir, Project.processedDir, Project.dataDir, [Config.fileName]]
  let nodes := above ++ (← parts.mapM fun part => readNodes (root ++ part)).flatten
  return ⟨nodes, (nodes.map (·.2.time)).foldl max 0 + 1⟩

/-- Whether a node has to be written over another. -/
def differs (before? : Option Node) (after : Node) : Bool :=
  match before?, after with
  | some (.file f), .file g => f.content ≠ g.content
  | some (.directory _), .directory _ => false
  | _, _ => true

/-- Brings the file system from one tree to another. -/
def writeChanges (before after : FileTree) : IO Unit := do
  let here ← IO.currentDir
  for (p, node) in before.nodes do
    if (after.nodes.lookup p).isNone then
      if let .file _ := node then IO.FS.removeFile (here / placeOf p)
  let changed := after.nodes.filter fun (p, node) => differs (before.nodes.lookup p) node
  for (p, node) in changed.mergeSort fun a b => a.2.time ≤ b.2.time do
    match node with
    | .directory _ => IO.FS.createDirAll (here / placeOf p)
    | .file f =>
      IO.FS.createDirAll (here / placeOf p.dropLast)
      IO.FS.writeBinFile (here / placeOf p) (bytesOf f.content)

/-- The root of the project, if one is named or found. -/
def rootOf (directory : Path) (named? : Option String) : IO (Option Path) := do
  match named? with
  | some root => return some (Path.resolve directory root)
  | none =>
    for p in (Path.starts directory).reverse do
      if ← ((← IO.currentDir) / placeOf (p ++ Project.sourceDir)).isDir then return some p
    return none

/-- The directory of log files, and the present moment in seconds. -/
def openLogs : IO (String × Nat) := do
  let cache ← match ← IO.getEnv "XDG_CACHE_HOME" with
    | some cache => pure cache
    | none => pure ((← IO.getEnv "HOME").getD "." ++ "/.cache")
  let logs := cache ++ "/porysync"
  IO.FS.createDirAll logs
  let stamp := (← IO.currentDir) / logs / "started"
  IO.FS.writeFile stamp ""
  return (logs, (← stamp.metadata).modified.sec.toNat)

/-- What `--help` prints. -/
def usage : String :=
  "Usage: porysync [--verbose] [--root DIR] COMMAND\n\n"
    ++ "Commands: extract, build, restore, status, show, set, version, help\n"

/-- A run that has read its arguments. -/
def perform (args : List String) (invocation : Invocation) : IO UInt32 := do
  let directory := Path.ofText (← IO.currentDir).toString
  let (logs, seconds) ← openLogs
  let surroundings : Surroundings := {
    directory
    root? := ← IO.getEnv "PORYSYNC_ROOT"
    filter? := ← IO.getEnv "PORYSYNC_LOG"
    logDirectory := logs
    date := dateText seconds
    time := timeText seconds }
  let tree ← match ← rootOf directory (invocation.root?.or surroundings.root?) with
    | some root => readProject root
    | none => pure {}
  match execute surroundings tree args with
  | .error e => return UInt32.ofNat e.exitCode
  | .ok r =>
    writeChanges tree r.tree
    IO.print (String.ofList r.out)
    IO.eprint (String.ofList r.err)
    if let some log := r.log? then
      IO.FS.writeFile (logFile surroundings invocation.command) (String.ofList log)
    return UInt32.ofNat r.exitCode

end TableSync.Outer

/-- The program. -/
def main (args : List String) : IO UInt32 := do
  let args := "porysync" :: args
  match TableSync.Invocation.parse args with
  | .ok invocation => TableSync.Outer.perform args invocation
  | .error .helpRequested =>
    IO.print TableSync.Outer.usage
    return 0
  | .error .versionRequested =>
    IO.println TableSync.versionLine
    return 0
  | .error e =>
    IO.eprint TableSync.Outer.usage
    return UInt32.ofNat e.exitCode
