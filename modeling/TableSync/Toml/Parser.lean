import TableSync.Toml.Basic
import TableSync.Toml.Lexer

/-!
# Reading TOML

`Toml.parse?` reads a text into the entries of its table.  The tokens are taken one at a time by
`step`, whose state says what may come next; values that have been begun are on a stack of frames,
and lines that are complete have been added to the document.

* `integer?` is a numeral: decimal with a sign, or in another base, with underscores between digits.
* `Frame` is a value that has been begun, `KeyGoal` what a key is for, and `State` what may come
  next.
* `step` is one token and `steps` are tokens in turn; a token that may not come next ends the
  reading without a result.
* `Document.addPair?`, `Document.addHeader?` and `Document.addElement?` add a complete line, and
  refuse one that would define a key twice.
-/

set_option autoImplicit false

namespace TableSync.Toml

/-! ## Numerals -/

/-- Digits without the underscores between them. -/
def withoutUnderscores? (s : Text) : Option Text :=
  if startsWith ['_'] s ∨ endsWith ['_'] s ∨ contains ['_', '_'] s then none
  else some (s.filter (· ≠ '_'))

/-- The number that digits of a base write. -/
def baseValue? (base : Nat) : (read : Nat) → Text → Option Nat
  | read, [] => some read
  | read, c :: r => do
    let digit ← hexValue? c
    if digit < base then baseValue? base (read * base + digit) r else none

/-- A number without a sign in a base. -/
def natural? (base : Nat) (s : Text) : Option Nat := do
  let digits ← withoutUnderscores? s
  if digits.isEmpty then none else baseValue? base 0 digits

/-- A decimal number without superfluous zeros. -/
def decimal? (s : Text) : Option Nat :=
  match s with
  | '0' :: _ :: _ => none
  | s => natural? 10 s

/-- The integer of a numeral. -/
def integer? : Text → Option Int
  | '0' :: 'x' :: r => (natural? 16 r).bind fun n => int64? n
  | '0' :: 'o' :: r => (natural? 8 r).bind fun n => int64? n
  | '0' :: 'b' :: r => (natural? 2 r).bind fun n => int64? n
  | '+' :: r => (decimal? r).bind fun n => int64? n
  | '-' :: r => (decimal? r).bind fun n => int64? (-n)
  | s => (decimal? s).bind fun n => int64? n

/-! ## States -/

/-- A value that has been begun, or that a value is for. -/
inductive Frame
  /-- The value of a line. -/
  | line (path : List String)
  /-- An array, with its items so far. -/
  | array (items : List Tree)
  /-- A table in braces, and the key whose value comes next. -/
  | member (table : Table) (path : List String)

/-- What a key is for. -/
inductive KeyGoal
  | pair
  | header
  | element
  /-- One more member of a table in braces, which stands inside other values. -/
  | member (table : Table) (outer : List Frame)

/-- What may come next. -/
inductive State
  | lineStart
  | lineDone
  /-- The second bracket of a header `[[a]]`. -/
  | elementStart
  /-- A part of a key. -/
  | keyPart (goal : KeyGoal) (before : List String)
  /-- A dot, or the end of a key. -/
  | keyDone (goal : KeyGoal) (path : List String)
  /-- The last bracket of a header `[[a]]`. -/
  | elementEnd (path : List String)
  | value (frames : List Frame)
  /-- An item, or the end of an array. -/
  | item (items : List Tree) (outer : List Frame)
  /-- A comma, or the end of an array. -/
  | itemDone (items : List Tree) (outer : List Frame)
  /-- A member, or the end of a table in braces that is empty so far. -/
  | member (outer : List Frame)
  /-- A comma, or the end of a table in braces. -/
  | memberDone (table : Table) (outer : List Frame)

/-- What has been read: the table, and the path of the last header. -/
structure Document where
  /-- The table of the whole document. -/
  root : Table
  /-- The path that the last header names. -/
  header : List String

/-- What has been read, and what may come next. -/
abbrev Progress := Document × State

namespace Document

/-- The document before the first line. -/
def empty : Document := ⟨⟨.header, []⟩, []⟩

/-- The document with a line `key = value`. -/
def addPair? (d : Document) (path : List String) (v : Tree) : Option Document :=
  (d.root.addPairBelow? d.header path v).map fun root => { d with root }

/-- The document with a header `[a]`. -/
def addHeader? (d : Document) (path : List String) : Option Document :=
  (d.root.addHeader? path).map fun root => ⟨root, path⟩

/-- The document with a header `[[a]]`. -/
def addElement? (d : Document) (path : List String) : Option Document :=
  (d.root.addElement? path).map fun root => ⟨root, path⟩

end Document

/-! ## Steps -/

/-- Puts a finished value where it belongs. -/
def place (d : Document) (v : Tree) : List Frame → Option Progress
  | [] => none
  | .line path :: _ => (d.addPair? path v).map (·, .lineDone)
  | .array items :: outer => some (d, .itemDone (items ++ [v]) outer)
  | .member table path :: outer =>
    (table.addPair? path v).map fun table => (d, .memberDone table outer)

/-- The first token of a value. -/
def startValue (d : Document) (frames : List Frame) : Token → Option Progress
  | .bare t => (integer? t).bind fun n => place d (.int n) frames
  | .str s | .long s => place d (.str s) frames
  | .opening _ => some (d, .item [] frames)
  | .openingBrace => some (d, .member frames)
  | _ => none

/-- A part of a key. -/
def keyPart (goal : KeyGoal) (before : List String) : Token → Option State
  | .bare t => if t.contains '+' then none else some (.keyDone goal (before ++ [String.ofList t]))
  | .str s => some (.keyDone goal (before ++ [s]))
  | _ => none

/-- The end of a key. -/
def endKey (d : Document) (goal : KeyGoal) (path : List String) (t : Token) : Option Progress :=
  match goal, t with
  | .pair, .equals => some (d, .value [.line path])
  | .header, .closing _ => (d.addHeader? path).map (·, .lineDone)
  | .element, .closing true => some (d, .elementEnd path)
  | .member table outer, .equals => some (d, .value (.member table path :: outer))
  | _, _ => none

/-- One token. -/
def step : Progress → Token → Option Progress
  | (d, .lineStart), .lineEnd => some (d, .lineStart)
  | (d, .lineStart), .opening false => some (d, .keyPart .header [])
  | (d, .lineStart), .opening true => some (d, .elementStart)
  | (d, .lineStart), t => (keyPart .pair [] t).map (d, ·)
  | (d, .lineDone), .lineEnd => some (d, .lineStart)
  | (_, .lineDone), _ => none
  | (d, .elementStart), .opening _ => some (d, .keyPart .element [])
  | (_, .elementStart), _ => none
  | (d, .keyPart goal before), t => (keyPart goal before t).map (d, ·)
  | (d, .keyDone goal path), .dot => some (d, .keyPart goal path)
  | (d, .keyDone goal path), t => endKey d goal path t
  | (d, .elementEnd path), .closing _ => (d.addElement? path).map (·, .lineDone)
  | (_, .elementEnd _), _ => none
  | (d, .value frames), t => startValue d frames t
  | (d, .item items outer), .lineEnd => some (d, .item items outer)
  | (d, .item items outer), .closing _ => place d (.array items) outer
  | (d, .item items outer), t => startValue d (.array items :: outer) t
  | (d, .itemDone items outer), .lineEnd => some (d, .itemDone items outer)
  | (d, .itemDone items outer), .comma => some (d, .item items outer)
  | (d, .itemDone items outer), .closing _ => place d (.array items) outer
  | (_, .itemDone _ _), _ => none
  | (d, .member outer), .closingBrace => place d (.table .inline []) outer
  | (d, .member outer), t => (keyPart (.member ⟨.inline, []⟩ outer) [] t).map (d, ·)
  | (d, .memberDone table outer), .comma => some (d, .keyPart (.member table outer) [])
  | (d, .memberDone table outer), .closingBrace => place d (.table .inline table.entries) outer
  | (_, .memberDone _ _), _ => none

/-- Tokens in turn. -/
def steps : Progress → List Token → Option Progress
  | p, [] => some p
  | p, t :: ts => (step p t).bind fun p => steps p ts

/-- The entries of the table that a text writes. -/
def parse? (s : Text) : Option (List (String × Tree)) := do
  match ← steps (.empty, .lineStart) (← lex s) with
  | (d, .lineStart) | (d, .lineDone) => return d.root.entries
  | _ => none

end TableSync.Toml
