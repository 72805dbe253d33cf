import TableSync.Preprocess.Basic
import TableSync.Text.Blank

/-!
# Runners that stand for a preprocessor

`inlineRunner` does of a preprocessor's work what the tables need: a line `#include "X"` gives way
to the file X beside the including file, if there is one.  `fixedRunner` answers every command line
in the same way.

* `inlineFile` follows includes to a given depth.  The runner gives it one more than the number of
  files and directories, so that only includes which go round in a circle are cut off.
* A line that includes a file which is not there is left as it is.
* The runner finds its source and its target by the options of the command line, wherever they stand
  in it.

Neither runner knows definitions or conditions of a preprocessor.
-/

set_option autoImplicit false

namespace TableSync

/-- The file that a line includes. -/
def includedFile? (line : Text) : Option String := do
  let s ← dropStart? "#include \"".toList (trim line)
  let s ← dropEnd? ['"'] s
  return String.ofList s

/-- The text of a file that is to be inlined. -/
def inlineSource (project : Project) (tree : FileTree) (p : Path) : Result Text :=
  match tree.readText p with
  | .ok text => .ok text
  | .error e => .error ⟨.system e, [s!"read {project.show_ p}"]⟩

/-- The lines of a file with the files that they include in their places.  Includes are followed to
the given depth. -/
def inlineFile (project : Project) (tree : FileTree) : (depth : Nat) → Path → Result Text
  | 0, _ => .ok []
  | depth + 1, p => do
    let text ← inlineSource project tree p
    let parts ← (lines text).mapM fun line =>
      match includedFile? line with
      | none => .ok (line ++ ['\n'])
      | some name =>
        let target := Path.resolve p.dropLast name
        if tree.contains target then inlineFile project tree depth target
        else .ok (line ++ ['\n'])
    return parts.flatten

/-- The argument after a given one. -/
def argumentAfter? (name : String) : List String → Option String
  | [] => none
  | [_] => none
  | a :: b :: rest => if a = name then some b else argumentAfter? name (b :: rest)

/-- Inlines the file after `-E` into the file after `-o`. -/
def inlineRunner (project : Project) : Runner := fun args directory => do
  let source := Path.resolve directory ((argumentAfter? "-E" args).getD "")
  let target := Path.resolve directory ((argumentAfter? "-o" args).getD "")
  let tree := (← get).tree
  let text ← Action.ofResult (inlineFile project tree (tree.nodes.length + 1) source)
  ensureParent project target
  Action.change (FileTree.write · target (.text text))
  return ⟨true, some 0, []⟩

/-- Answers every command line in the same way. -/
def fixedRunner (output : CommandOutput) : Runner := fun _ _ => return output

end TableSync
