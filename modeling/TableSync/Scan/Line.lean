import TableSync.Field.Table

/-!
# The shapes of a line

The recognisers for single lines of a source table.

* `splitFields` takes a line `.a = 1, .b = { X, Y },` apart into keys and texts.
* `cutComment` separates a line from a comment at its end.
* `parseDefine?` reads a line `#define NAME value // comment`.
* `headerAt?` recognises the header `[NAME] =` of an entity, and `literalOpenerAt?` a field whose
  value is a string literal.
-/

set_option autoImplicit false

namespace TableSync

/-! ## Comments -/

/-- What stands before a comment and the comment, read from a given state of quoting. -/
def cutCommentFrom : QuoteState → Text → Text × Option Text
  | _, [] => ([], none)
  | .plain, '/' :: '/' :: r => ([], some r)
  | q, c :: r =>
    let (before, comment?) := cutCommentFrom (q.step c) r
    (c :: before, comment?)

/-- What stands before a comment outside quotes, and the text of the comment if there is one. -/
def cutComment (line : Text) : Text × Option Text := cutCommentFrom .plain line

/-- A line without its comment. -/
def stripComment (line : Text) : Text := (cutComment line).1

/-! ## Fields -/

/-- Whether a text can be the key of a field. -/
def isFieldKey (key : Text) : Bool := !key.isEmpty && key.all fun c => isAlphanumeric c || c = '_'

/-- One field `key = value`, with or without the dot before its key. -/
def fieldOfPiece? (piece : Text) : Option (String × Text) :=
  match cut? ['='] piece with
  | none => none
  | some (key, value) =>
    let key := (trim key).dropWhile (· = '.')
    if isFieldKey key then some (String.ofList key, trim value) else none

/-- The fields of a line.  A piece that is no field is dropped. -/
def splitFields (line : Text) : List (String × Text) :=
  let line := trim line
  let line := (dropStart? ['.'] line).getD line
  let line := (dropEnd? [','] line).getD line
  (splitTopLevel ", .".toList line).filterMap fieldOfPiece?

/-! ## Headers and openers -/

/-- A non-empty name that starts with `stem`, and what follows it. -/
def nameAt? (stem s : Text) : Option (String × Text) := do
  let s ← dropStart? stem s
  match wordRun s with
  | ([], _) => none
  | (word, rest) => some (String.ofList (stem ++ word), rest)

/-- The header `[NAME] =` of an entity whose name starts with `stem`: the name, and what follows
the equals sign. -/
def headerAt? (stem line : Text) : Option (String × Text) := do
  let s ← dropStart? ['['] (trimStart line)
  let (name, s) ← nameAt? stem s
  let s ← dropStart? [']'] s
  let s ← dropStart? ['='] (trimStart s)
  return (name, s)

/-- A field `.key = COMPOUND_STRING(` or `.key = _(`: its key, and what follows the
parenthesis. -/
def literalOpenerAt? (line : Text) : Option (String × Text) := do
  let s ← dropStart? ['.'] line
  let (key, s) ← nameAt? [] s
  let s := trimStart (← dropStart? ['='] (trimStart s))
  let s ← (dropStart? "COMPOUND_STRING(".toList s).or (dropStart? "_(".toList s)
  guard (!s.contains '\n')
  return (key, s)

/-! ## Definitions -/

/-- A line `#define NAME value // comment`. -/
structure Define where
  /-- The name that is defined. -/
  name : String
  /-- What it stands for. -/
  value : Text
  /-- The comment behind the value; it may be empty. -/
  comment : Text

/-- The definition on a line.  A macro with parameters, or without a value, is not one. -/
def parseDefine? (line : Text) : Option Define := do
  let s ← dropStart? "#define".toList (trimStart line)
  guard (s.head?.any isBlank)
  let (name, s) := (trimStart s).span (!isBlank ·)
  let raw := trim s
  guard (!name.isEmpty && !name.contains '(' && !s.isEmpty && !raw.contains '\n')
  let (value, comment?) := cutComment raw
  let value := trim value
  guard !value.isEmpty
  return ⟨String.ofList name, value, trim (comment?.getD [])⟩

end TableSync
