import TableSync.Text.Basic

/-!
# What can go wrong

A `Failure` is a `Cause` with the contexts it was met in.  `Failure.chain` lists its texts from the
outermost context to the root of the cause; a cause that rests on an error of the operating system
names that error in its own text, and the chain names it once more.

* `OsError` are the errors of the file system and of starting a command, with their texts.
* `Cause` has a constructor for each way in which an operation can fail, with the data of its text;
  paths stand in it as they are shown.
* `Failure.inContext` and `Result.inContext` add what was being done when it happened, from the
  inside out.
* `Failure.message` is the whole chain on one line.

A failure is a value that can be compared, and no text is read back from it.
-/

set_option autoImplicit false

namespace TableSync

/-- An error of the operating system, or of a call to it. -/
inductive OsError
  | notFound
  | alreadyExists
  | notADirectory
  | isADirectory
  | notAFile
  | notUtf8
  | emptyCommand
  deriving DecidableEq, Repr

/-- The text of an error of the operating system. -/
def OsError.text : OsError → String
  | notFound => "No such file or directory (os error 2)"
  | alreadyExists => "File exists (os error 17)"
  | notADirectory => "Not a directory (os error 20)"
  | isADirectory => "Is a directory (os error 21)"
  | notAFile => "the source path is neither a regular file nor a symlink to a regular file"
  | notUtf8 => "stream did not contain valid UTF-8"
  | emptyCommand => "empty command"

/-- Why an operation failed. -/
inductive Cause
  /-- A source or a backup is absent. -/
  | sourceMissing (path : String)
  /-- A source file is there but cannot be read. -/
  | sourceUnreadable (path : String) (error : OsError)
  /-- A program could not be started. -/
  | commandNotStarted (program : String) (error : OsError)
  /-- A program reported failure; the code is `-1` if a signal ended it. -/
  | commandFailed (program : String) (code : Int) (output : List String)
  /-- A program succeeded without writing its output. -/
  | outputMissing (path : String)
  /-- The end of a managed region is not in the pristine text. -/
  | markerNotFound (file marker : String)
  /-- A value has no written form in its field. -/
  | unrenderable (entity field reason : String)
  /-- Generation failed twice, the second time from a restored tree. -/
  | generationFailed (category reason : String)
  /-- A document cannot be read or written. -/
  | documentInaccessible (path : String) (error : OsError)
  /-- A document does not hold a record. -/
  | documentInvalid (path reason : String)
  /-- There is no such category. -/
  | unknownCategory (id : String)
  /-- The configuration is not what it should be. -/
  | configInvalid (file reason : String)
  /-- A new file could not take the place of the old one. -/
  | notReplaced (error : OsError)
  /-- A call to the operating system failed. -/
  | system (error : OsError)
  /-- Any other cause. -/
  | plain (text : String)
  deriving DecidableEq

namespace Cause

/-- The text of a cause. -/
def text : Cause → String
  | sourceMissing path => s!"missing source file: {path}"
  | sourceUnreadable path error => s!"I/O error on {path}: {error.text}"
  | commandNotStarted program error => s!"failed to spawn {program}: {error.text}"
  | commandFailed program code _ => s!"{program} exited with code {code}"
  | outputMissing path => s!"expected output was not produced: {path}"
  | markerNotFound file marker => s!"marker '{marker}' not found in {file}"
  | unrenderable entity field reason => s!"cannot render field '{field}' of {entity}: {reason}"
  | generationFailed category reason =>
    s!"regeneration of '{category}' failed after restore: {reason}"
  | documentInaccessible path error => s!"I/O error on document {path}: {error.text}"
  | documentInvalid path reason => s!"invalid document {path}: {reason}"
  | unknownCategory id => s!"unknown category '{id}'"
  | configInvalid file reason => s!"invalid TOML in {file}: {reason}"
  | notReplaced error => s!"failed to persist temporary file: {error.text}"
  | system error => error.text
  | plain text => text

/-- What the cause rests on. -/
def roots : Cause → List String
  | sourceUnreadable _ error => [error.text]
  | commandNotStarted _ error => [error.text]
  | documentInaccessible _ error => [error.text]
  | documentInvalid _ reason => [reason]
  | notReplaced error => [error.text]
  | _ => []

/-- The area of the library that a cause belongs to. -/
def area? : Cause → Option String
  | sourceMissing .. | sourceUnreadable .. => some "Source error"
  | commandNotStarted .. | commandFailed .. | outputMissing .. => some "Command error"
  | markerNotFound .. | unrenderable .. | generationFailed .. => some "Generation error"
  | documentInaccessible .. | documentInvalid .. => some "Store error"
  | unknownCategory .. | configInvalid .. => some "Configuration error"
  | _ => none

/-- The text of a cause after its area. -/
def textWithArea (cause : Cause) : String :=
  match cause.area? with
  | some area => s!"{area}: {cause.text}"
  | none => cause.text

end Cause

/-- A cause with the contexts it was met in, outermost first. -/
structure Failure where
  /-- What went wrong. -/
  cause : Cause
  /-- What was being done, from the outside in. -/
  contexts : List String := []
  deriving DecidableEq

/-- The outcome of an operation that can fail. -/
abbrev Result (α : Type) := Except Failure α

namespace Failure

/-- A failure with no text but its own. -/
def ofText (text : String) : Failure := ⟨.plain text, []⟩

/-- The failure met in one more context. -/
def inContext (context : String) (f : Failure) : Failure := ⟨f.cause, context :: f.contexts⟩

/-- The texts of a failure, from the outermost context to the root of its cause. -/
def chain (f : Failure) : List String := f.contexts ++ f.cause.text :: f.cause.roots

/-- The failure on one line. -/
def message (f : Failure) : String := ": ".intercalate f.chain

end Failure

/-- A failing operation with one more context. -/
def Result.inContext {α : Type} (context : String) (r : Result α) : Result α :=
  r.mapError (Failure.inContext context)

/-- The failure of a cause. -/
def fail {α : Type} (cause : Cause) : Result α := .error ⟨cause, []⟩

end TableSync
