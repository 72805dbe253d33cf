import TableSync.Files.Session

/-!
# The preprocessor

Some sources are read after an external preprocessor has gone over them.  Its command line is
configured; it runs in the directory of sources and writes to the same path below `processed`.  A
`Runner` is what runs a command line: a real process, or something that stands for one.

* `PreprocessorConfig.commandLine` is the command line for one source, with the files that are
  included before it.
* `Preprocessor.preprocess` makes the directory of the output, runs the command, and fails with its
  code and what it has written if it does not end well.

What the preprocessor does to the files is up to the runner, which may change any of them; nothing
here looks at the text that it writes.
-/

set_option autoImplicit false

namespace TableSync

/-- What a command that was run left behind; the code is missing if a signal ended it. -/
structure CommandOutput where
  /-- Whether the command ended well. -/
  success : Bool
  /-- The code with which it ended. -/
  code? : Option Int
  /-- The lines that it wrote. -/
  lines : List String
  deriving DecidableEq

/-- Runs a command line in a directory. -/
abbrev Runner := List String → Path → Action CommandOutput

/-- How the preprocessor is invoked: the program with its first arguments, the directories that are
searched for includes, and the names that are defined. -/
structure PreprocessorConfig where
  /-- The program with its first arguments. -/
  command : List String := ["gcc"]
  /-- The directories that are searched for includes. -/
  includeDirs : List String := ["include"]
  /-- The names that are defined. -/
  defines : List String := ["TRUE"]
  deriving DecidableEq

namespace PreprocessorConfig

/-- The command line for a source, with files to be included before it. -/
def commandLine (config : PreprocessorConfig) (rel : String) (includes : List String) :
    List String :=
  config.command ++ ["-E", rel] ++ config.includeDirs.map ("-I" ++ ·)
    ++ includes.flatMap (fun file => ["-include", file]) ++ config.defines.map ("-D" ++ ·)
    ++ ["-o", "../processed/" ++ rel]

end PreprocessorConfig

/-- A runner with its configuration. -/
structure Preprocessor where
  /-- How a command line is run. -/
  runner : Runner
  /-- How the command line is made. -/
  config : PreprocessorConfig

/-- Says several messages. -/
def sayAll (level : Level) : List String → Action Unit
  | [] => return ()
  | text :: rest => do
    say level text
    sayAll level rest

/-- Goes over a source, and gives the path of what was written. -/
def Preprocessor.preprocess (preprocessor : Preprocessor) (project : Project) (rel : String)
    (includes : List String) : Action Path := do
  let output := Project.processedPath rel
  ensureParent project output
  let args := preprocessor.config.commandLine rel includes
  say .debug ("preprocess: " ++ " ".intercalate args)
  let result ← preprocessor.runner args Project.sourceDir
  sayAll .debug result.lines
  if !result.success then
    throw ⟨.commandFailed (args.head?.getD "") (result.code?.getD (-1)) result.lines, []⟩
  if !(← look (FileTree.contains · output)) then
    throw ⟨.outputMissing (project.show_ output), []⟩
  return output

end TableSync
