import TableSync.Error

/-!
# A tree of files

The files of a project are a value: for every path a file with its content and its time, or a
directory.  Times are numbers, and every write takes the next one, so that of two files written
one after the other the later one is newer.

* `FileTree.find` looks up a path, `FileTree.readText` reads a file.
* `FileTree.makeDirs`, `FileTree.write`, `FileTree.copy`, `FileTree.remove` and `FileTree.setTime`
  are the changes, each of which is made as a whole or not at all.
-/

set_option autoImplicit false

namespace TableSync

/-- A path: its names from the root of the tree on. -/
abbrev Path := List String

namespace Path

/-- The path that a text with slashes writes. -/
def ofText (s : String) : Path :=
  ((splitOn ['/'] s.toList).filter (!·.isEmpty)).map String.ofList

/-- A path with slashes. -/
def text (p : Path) : String := "/".intercalate p

/-- The starts of a path, from the root to the path itself. -/
def starts : Path → List Path
  | [] => [[]]
  | name :: p => [] :: (starts p).map (name :: ·)

/-- One more name on a path that is to be walked: `.` stays, and `..` goes back. -/
def walk (p : Path) (name : String) : Path :=
  if name = "." then p else if name = ".." then p.dropLast else p ++ [name]

/-- The path that a text writes, seen from a directory. -/
def resolve (directory : Path) (s : String) : Path :=
  (ofText s).foldl walk (if s.toList.head? = some '/' then [] else directory)

end Path

/-- The content of a file: text, or bytes that are no text. -/
inductive Content
  | text (t : Text)
  | binary (bytes : List UInt8)
  deriving DecidableEq

/-- A file with the time of its last change. -/
structure File where
  /-- What the file holds. -/
  content : Content
  /-- When it was changed last. -/
  time : Nat
  deriving DecidableEq

/-- What a path leads to. -/
inductive Node
  | file (f : File)
  | directory (time : Nat)
  deriving DecidableEq

/-- The time of the last change. -/
def Node.time : Node → Nat
  | .file f => f.time
  | .directory time => time

/-- A tree of files, with the time of the next change. -/
structure FileTree where
  /-- The files and directories by their paths. -/
  nodes : List (Path × Node) := []
  /-- The time that the next change gets. -/
  clock : Nat := 0

namespace FileTree

/-! ## Looking -/

/-- The node at a path; the root is always a directory. -/
def node? (t : FileTree) (p : Path) : Option Node :=
  match p with
  | [] => some (.directory 0)
  | _ => t.nodes.lookup p

/-- Whether a path leads to a file. -/
def isFile (t : FileTree) (p : Path) : Bool :=
  match t.node? p with
  | some (.file _) => true
  | _ => false

/-- Whether a path leads to a directory. -/
def isDirectory (t : FileTree) (p : Path) : Bool :=
  match t.node? p with
  | some (.directory _) => true
  | _ => false

/-- The node at a path, or why there is none: a name on the way may be that of a file. -/
def find (t : FileTree) (p : Path) : Except OsError Node :=
  match t.node? p with
  | some node => .ok node
  | none => .error (if (Path.starts p.dropLast).any t.isFile then .notADirectory else .notFound)

/-- Whether there is anything at a path. -/
def contains (t : FileTree) (p : Path) : Bool := (t.node? p).isSome

/-- The time of what is at a path. -/
def time? (t : FileTree) (p : Path) : Option Nat := (t.node? p).map Node.time

/-- The content of a file. -/
def content (t : FileTree) (p : Path) : Except OsError Content :=
  match t.find p with
  | .ok (.file f) => .ok f.content
  | .ok (.directory _) => .error .isADirectory
  | .error e => .error e

/-- The text of a file. -/
def readText (t : FileTree) (p : Path) : Except OsError Text :=
  match t.content p with
  | .ok (.text s) => .ok s
  | .ok (.binary _) => .error .notUtf8
  | .error e => .error e

/-- The files of the tree with their paths. -/
def files (t : FileTree) : List (Path × File) :=
  t.nodes.filterMap fun
    | (p, .file f) => some (p, f)
    | (_, .directory _) => none

/-! ## Changing -/

/-- Puts a node at a path, in place of the one there. -/
def putNode (p : Path) (node : Node) : List (Path × Node) → List (Path × Node)
  | [] => [(p, node)]
  | (q, n) :: rest => if q = p then (q, node) :: rest else (q, n) :: putNode p node rest

/-- The tree with a node, and the clock one step on. -/
def put (t : FileTree) (p : Path) (node : Node) : FileTree :=
  ⟨putNode p node t.nodes, t.clock + 1⟩

/-- The tree with the content of a file, changed now. -/
def putContent (t : FileTree) (p : Path) (c : Content) : FileTree :=
  t.put p (.file ⟨c, t.clock⟩)

/-- Makes directories of all starts of a path at which there is nothing. -/
def openWay (t : FileTree) (p : Path) : FileTree :=
  ((Path.starts p).filter (!t.contains ·)).foldl (fun t q => t.put q (.directory t.clock)) t

/-- Makes a directory and all directories above it. -/
def makeDirs (t : FileTree) (p : Path) : Except OsError FileTree :=
  match t.find p with
  | .ok (.directory _) => .ok t
  | .ok (.file _) => .error .alreadyExists
  | .error .notFound => .ok (t.openWay p)
  | .error e => .error e

/-- Why a file cannot be put at a path. -/
def putError? (t : FileTree) (p : Path) : Option OsError :=
  match t.find p with
  | .ok (.file _) => none
  | .ok (.directory _) => some .isADirectory
  | .error .notFound => if t.isDirectory p.dropLast then none else some .notFound
  | .error e => some e

/-- Writes a file. -/
def write (t : FileTree) (p : Path) (c : Content) : Except OsError FileTree :=
  match t.putError? p with
  | none => .ok (t.putContent p c)
  | some e => .error e

/-- Copies a file. -/
def copy (t : FileTree) (source target : Path) : Except OsError FileTree :=
  match t.find source with
  | .ok (.file f) => t.write target f.content
  | .ok (.directory _) => .error .notAFile
  | .error e => .error e

/-- Removes a file. -/
def remove (t : FileTree) (p : Path) : Except OsError FileTree :=
  match t.find p with
  | .ok (.file _) => .ok { t with nodes := t.nodes.filter (·.1 ≠ p) }
  | .ok (.directory _) => .error .isADirectory
  | .error e => .error e

/-- Removes what is at a path, with all that is below it. -/
def removeAll (t : FileTree) (p : Path) : FileTree :=
  { t with nodes := t.nodes.filter fun (q, _) => !p.isPrefixOf q }

/-- Sets the time of a file. -/
def setTime (t : FileTree) (p : Path) (time : Nat) : Except OsError FileTree :=
  match t.find p with
  | .ok (.file f) => .ok { t with nodes := putNode p (.file ⟨f.content, time⟩) t.nodes }
  | .ok (.directory _) => .error .isADirectory
  | .error e => .error e

/-- Changes the time of every file. -/
def mapTimes (f : Nat → Nat) (t : FileTree) : FileTree :=
  { t with nodes := t.nodes.map fun
      | (p, .file file) => (p, .file { file with time := f file.time })
      | (p, .directory time) => (p, .directory time) }

/-- The tree one step of the clock later. -/
def tick (t : FileTree) : FileTree := { t with clock := t.clock + 1 }

/-! ## Parts of a tree -/

/-- The tree below a directory. -/
def below (t : FileTree) (directory : Path) : FileTree :=
  { t with nodes := t.nodes.filterMap fun (p, node) =>
      match directory.isPrefixOf? p with
      | none => none
      | some [] => none
      | some rest => some (rest, node) }

/-- The tree with another tree below a directory, in place of what was there. -/
def graft (t : FileTree) (directory : Path) (part : FileTree) : FileTree :=
  let kept : FileTree :=
    ⟨t.nodes.filter fun (q, _) => q == directory || !directory.isPrefixOf q,
      max t.clock part.clock⟩
  let opened := if part.nodes.isEmpty then kept else kept.openWay directory
  { opened with nodes := opened.nodes ++ part.nodes.map fun (p, node) => (directory ++ p, node) }

end FileTree

end TableSync
