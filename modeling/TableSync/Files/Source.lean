import TableSync.Files.Session

/-!
# Source files

Reading source files, and writing generated ones: every generated file starts with a banner, and
takes the place of the old one as a whole.

* `sourceText` is the text of a file, or why there is none; a file that is missing is told apart
  from one that cannot be read, since `readSourceOr` goes on to another file only if the first one
  is missing.
* `writeSource` makes the directory of the file, and then puts the finished text in its place
  (`commitSource`).  The text is complete before anything is written, so a failure leaves the old
  file as it was.

The banner is made of comments and an empty line, and it stands before spliced files as well as
before generated ones.
-/

set_option autoImplicit false

namespace TableSync

/-- What every generated file starts with. -/
def banner : Text :=
  ("// *** IMPORTANT ***\n" ++ "// This file was generated by porysync.\n"
    ++ "// Any changes made to this file will be lost when recompiling the project.\n"
    ++ "\n").toList

/-- The text of a source file. -/
def sourceText (project : Project) (tree : FileTree) (p : Path) : Result Text :=
  match tree.readText p with
  | .ok text => .ok text
  | .error .notFound => fail (.sourceMissing (project.show_ p))
  | .error e => fail (.sourceUnreadable (project.show_ p) e)

/-- Reads a source file. -/
def readSource (project : Project) (p : Path) : Action Text := do
  Action.ofResult (sourceText project (← get).tree p)

/-- Reads a source file, or another one if the first is missing. -/
def readSourceOr (project : Project) (p fallback : Path) : Action Text := do
  match sourceText project (← get).tree p with
  | .error ⟨.sourceMissing _, _⟩ => readSource project fallback
  | r => Action.ofResult r

/-- Puts a finished text in the place of a file. -/
def commitSource (project : Project) (p : Path) (text : Text) : Action Unit :=
  (Action.change (FileTree.write · p (.text (banner ++ text))) .notReplaced).inContext
    s!"replacing {project.show_ p}"

/-- Writes a generated file. -/
def writeSource (project : Project) (p : Path) (text : Text) : Action Unit := do
  ensureParent project p
  commitSource project p text

end TableSync
