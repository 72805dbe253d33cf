import TableSync.Preprocess.Basic
import TableSync.Process.Script

/-!
# Programs

Running a command line.  There are a few programs: those that succeed or fail and do nothing else,
those that write their arguments or copy a file, and a shell for small scripts.

* `ProgramRun` is what a program did.  A program is a function of the files, the directory it runs
  in and its arguments.
* `shellStep` is one command of a script, and `sh` a whole script.  A command may depend on whether
  the one before it succeeded, and its outputs may go to each other.
* `systemRunner` is the runner of these programs.  A command line without a program, or with one
  that is not known, cannot be started, which is told apart from a program that fails.
-/

set_option autoImplicit false

namespace TableSync

/-- How a program ended. -/
inductive Ending
  | exited (code : Nat)
  /-- A signal ended it. -/
  | killed
  deriving DecidableEq

/-- What a program did: the tree after it, its two outputs, and how it ended. -/
structure ProgramRun where
  /-- The files after the program. -/
  tree : FileTree
  /-- What it wrote to its output. -/
  out : Text := []
  /-- What it wrote to its error output. -/
  err : Text := []
  /-- How it ended. -/
  ending : Ending := .exited 0

namespace Program

/-- A character written after a backslash. -/
def escaped? : Char → Option Char
  | 'n' => some '\n'
  | 'r' => some '\r'
  | 't' => some '\t'
  | 'a' => some '\x07'
  | 'b' => some '\x08'
  | 'f' => some '\x0c'
  | 'v' => some '\x0b'
  | '\\' => some '\\'
  | '"' => some '"'
  | _ => none

/-- Text with the characters that its escapes stand for. -/
def unescaped : Text → Text
  | [] => []
  | ['\\'] => ['\\']
  | '\\' :: c :: r =>
    match escaped? c with
    | some d => d :: unescaped r
    | none => '\\' :: c :: unescaped r
  | c :: r => c :: unescaped r

/-- A format with arguments in the places of `%s` and `%d`. -/
def formatted : Text → List String → Text
  | [], _ => []
  | '%' :: '%' :: r, args => '%' :: formatted r args
  | '%' :: c :: r, args =>
    if c = 's' ∨ c = 'd' then (args.head?.getD "").toList ++ formatted r args.tail
    else '%' :: c :: formatted r args
  | c :: r, args => c :: formatted r args

/-- Writes the arguments with blanks between them; `escapes` says whether escapes are read. -/
def echo (tree : FileTree) (escapes : Bool) (args : List String) : ProgramRun :=
  let (args, stop) := match args with
    | "-n" :: rest => (rest, [])
    | args => (args, ['\n'])
  let text := (" ".intercalate args).toList
  { tree, out := (if escapes then unescaped text else text) ++ stop }

/-- Writes a format with arguments. -/
def printf (tree : FileTree) : List String → ProgramRun
  | [] => { tree, err := "printf: usage: printf format [arg ...]\n".toList, ending := .exited 2 }
  | format :: args => { tree, out := formatted (unescaped format.toList) args }

/-- Copies a file, into the target if that is a directory. -/
def cp (tree : FileTree) (directory : Path) : List String → ProgramRun
  | [source, target] =>
    let origin := Path.resolve directory source
    let place := Path.resolve directory target
    let goal := if tree.isDirectory place then place ++ origin.getLast?.toList else place
    match tree.copy origin goal with
    | .ok tree => { tree }
    | .error .notAFile =>
      { tree
        err := s!"cp: -r not specified; omitting directory '{source}'\n".toList
        ending := .exited 1 }
    | .error _ =>
      { tree
        err := s!"cp: cannot stat '{source}': No such file or directory\n".toList
        ending := .exited 1 }
  | _ => { tree, err := "cp: missing file operand\n".toList, ending := .exited 1 }

/-- A program that ends and does nothing else. -/
def exit (tree : FileTree) (code : Nat) : ProgramRun := { tree, ending := .exited (code % 256) }

/-- The number that a shell calls its own. -/
def shellNumber : Nat := 4096

/-- A shell at work. -/
structure Shell where
  /-- What the commands so far did, as if they were one program. -/
  run : ProgramRun
  /-- The status of the last command. -/
  status : Nat := 0
  /-- Whether the script has been left. -/
  stopped : Bool := false

/-- The value of a variable of a script. -/
def variableValue (arguments : List String) (status : Nat) (name : Char) : Text :=
  if name = '$' then showNat shellNumber
  else if name = '?' then showNat status
  else if name = '#' then showNat (arguments.length - 1)
  else (arguments[name.toNat - 48]?.getD "").toList

/-- A program of the shell. -/
def inShell (tree : FileTree) (directory : Path) (status : Nat) : List String → ProgramRun × Bool
  | [] => ({ tree }, false)
  | "echo" :: args => (echo tree true args, false)
  | "printf" :: args => (printf tree args, false)
  | "cp" :: args => (cp tree directory args, false)
  | "true" :: _ | ":" :: _ => (exit tree 0, false)
  | "false" :: _ => (exit tree 1, false)
  | ["exit"] => (exit tree status, true)
  | "exit" :: code :: _ => (exit tree ((digitsValue? code.toList).getD 2), true)
  | "kill" :: args =>
    if args.getLast? = some (String.ofList (showNat shellNumber)) then
      ({ tree, ending := .killed }, true)
    else (exit tree 1, false)
  | name :: _ =>
    ({ tree, err := s!"sh: 1: {name}: not found\n".toList, ending := .exited 127 }, false)

/-- The two outputs after redirections. -/
def redirect (out err : Text) : List (Nat × Nat) → Text × Text
  | [] => (out, err)
  | (1, 2) :: rest => redirect [] (err ++ out) rest
  | (2, 1) :: rest => redirect (out ++ err) [] rest
  | _ :: rest => redirect out err rest

/-- Whether a command runs after a status. -/
def runsAfter (status : Nat) : Condition → Bool
  | .always => true
  | .ifSucceeded => status = 0
  | .ifFailed => status ≠ 0

/-- One command of a script. -/
def shellStep (directory : Path) (arguments : List String) (shell : Shell)
    (command : ScriptCommand) : Shell :=
  if shell.stopped || !runsAfter shell.status command.condition then shell
  else
    let words := command.words.map (·.expand (variableValue arguments shell.status))
    let (run, stops) := inShell shell.run.tree directory shell.status words
    let (out, err) := redirect run.out run.err command.redirections
    { run := ⟨run.tree, shell.run.out ++ out, shell.run.err ++ err, run.ending⟩
      status := match run.ending with
        | .exited code => code
        | .killed => 137
      stopped := stops }

/-- A script with arguments, the first of which is the name of the script. -/
def sh (tree : FileTree) (directory : Path) (script : Text) (arguments : List String) :
    ProgramRun :=
  match Script.parse? script with
  | none => { tree, err := "sh: 1: Syntax error: Unterminated quoted string\n".toList,
              ending := .exited 2 }
  | some commands => (commands.foldl (shellStep directory arguments) { run := { tree } }).run

/-- The program with a name, given its arguments and directory. -/
def named? (tree : FileTree) (directory : Path) (name : String) (args : List String) :
    Option ProgramRun :=
  match name, args with
  | "true", _ => some (exit tree 0)
  | "false", _ => some (exit tree 1)
  | "echo", args => some (echo tree false args)
  | "printf", args => some (printf tree args)
  | "cp", args => some (cp tree directory args)
  | "sh", "-c" :: script :: arguments =>
    some (sh tree directory script.toList (if arguments.isEmpty then ["sh"] else arguments))
  | "sh", _ => some (exit tree 0)
  | _, _ => none

/-- What a program left behind. -/
def output (run : ProgramRun) : CommandOutput where
  success := run.ending = .exited 0
  code? := match run.ending with
    | .exited code => some code
    | .killed => none
  lines := (lines run.out ++ lines run.err).map String.ofList

end Program

/-- The runner of programs. -/
def systemRunner (project : Project) : Runner := fun args directory => do
  match args with
  | [] => throw ⟨.commandNotStarted "" .emptyCommand, []⟩
  | name :: rest =>
    tell (.spawned args (project.show_ directory))
    match (← get).tree.find directory with
    | .error e => throw ⟨.commandNotStarted name e, []⟩
    | .ok (.file _) => throw ⟨.commandNotStarted name .notADirectory, []⟩
    | .ok (.directory _) =>
      match Program.named? (← get).tree directory name rest with
      | none => throw ⟨.commandNotStarted name .notFound, []⟩
      | some run =>
        modify fun w => { w with tree := run.tree }
        return Program.output run

end TableSync
