import TableSync.Json.Basic

/-!
# Reading JSON

Reading goes through a list of tokens.  `Json.lex` cuts a text into tokens; `Json.ofTokens?` builds
the tree with a stack of the containers that are still open, so that both are a single pass over
their input.

What is refused: fractions, exponents, `-0` and integers beyond 64 bits, `true` and `false`, raw
control characters in strings, lone surrogates, anything after the tree, and more than
`Json.maxDepth` containers inside one another.
-/

set_option autoImplicit false

namespace TableSync

namespace Json

/-! ## Tokens -/

/-- The tokens of a JSON text. -/
inductive Token
  | openList
  | closeList
  | openObject
  | closeObject
  | comma
  | colon
  | null
  | num (n : Int)
  | str (s : String)
  deriving DecidableEq

/-- Where the lexer stands: between tokens, in a numeral, or at some point of a string.  What has
been read of a numeral or string is kept last character first.  `high` is the first half of a
surrogate pair whose second half must follow. -/
inductive LexState
  | between
  | numeral (read : Text)
  | string (read : Text)
  | escape (read : Text) (high : Option Nat)
  | pair (read : Text) (high : Nat)
  | hex (read : Text) (high : Option Nat) (digitsLeft : Nat) (value : Nat)

/-- The integer of a JSON numeral: no superfluous zero, no plus sign, and not minus zero. -/
def numeral? : Text → Option Int
  | ['-', '0'] => none
  | ['0'] => some 0
  | '-' :: '0' :: _ => none
  | '0' :: _ => none
  | '+' :: _ => none
  | s => readInt? s

/-- A character that can be part of a numeral. -/
def isNumeralChar (c : Char) : Bool :=
  isAsciiDigit c || c = '-' || c = '+' || c = '.' || c = 'e' || c = 'E'

/-- The white space of JSON. -/
def isSpace (c : Char) : Bool := c = ' ' || c = '\n' || c = '\t' || c = '\r'

/-- The token of a punctuation mark. -/
def punctuation? : Char → Option Token
  | '[' => some .openList
  | ']' => some .closeList
  | '{' => some .openObject
  | '}' => some .closeObject
  | ',' => some .comma
  | ':' => some .colon
  | _ => none

/-- The character of a one-letter escape. -/
def shortEscape? : Char → Option Char
  | '"' => some '"'
  | '\\' => some '\\'
  | '/' => some '/'
  | 'b' => some '\x08'
  | 'f' => some '\x0c'
  | 'n' => some '\n'
  | 'r' => some '\r'
  | 't' => some '\t'
  | _ => none

/-- What four hexadecimal digits add to a string, and whether they are the first half of a
surrogate pair. -/
def afterHex (read : Text) (high : Option Nat) (value : Nat) : Option LexState :=
  match high with
  | some h =>
    if 0xDC00 ≤ value ∧ value ≤ 0xDFFF then
      some (.string (Char.ofNat (0x10000 + (h - 0xD800) * 0x400 + (value - 0xDC00)) :: read))
    else none
  | none =>
    if 0xD800 ≤ value ∧ value ≤ 0xDBFF then some (.pair read value)
    else if 0xDC00 ≤ value ∧ value ≤ 0xDFFF then none
    else some (.string (Char.ofNat value :: read))

/-- The tokens of the rest of a text. -/
def lexFrom : LexState → Text → Option (List Token)
  | .between, [] => some []
  | .numeral read, [] => (numeral? read.reverse).map fun n => [.num n]
  | _, [] => none
  | .between, 'n' :: 'u' :: 'l' :: 'l' :: r => (lexFrom .between r).map (.null :: ·)
  | .between, c :: r =>
    if isSpace c then lexFrom .between r
    else if c = '"' then lexFrom (.string []) r
    else if isNumeralChar c then lexFrom (.numeral [c]) r
    else
      match punctuation? c with
      | some t => (lexFrom .between r).map (t :: ·)
      | none => none
  | .numeral read, c :: r =>
    if isNumeralChar c then lexFrom (.numeral (c :: read)) r
    else
      match numeral? read.reverse with
      | none => none
      | some n =>
        if isSpace c then (lexFrom .between r).map (.num n :: ·)
        else
          match punctuation? c with
          | some t => (lexFrom .between r).map fun ts => .num n :: t :: ts
          | none => none
  | .string read, c :: r =>
    if c = '"' then (lexFrom .between r).map (.str (String.ofList read.reverse) :: ·)
    else if c = '\\' then lexFrom (.escape read none) r
    else if c.toNat < 32 then none
    else lexFrom (.string (c :: read)) r
  | .escape read none, c :: r =>
    if c = 'u' then lexFrom (.hex read none 4 0) r
    else
      match shortEscape? c with
      | some e => lexFrom (.string (e :: read)) r
      | none => none
  | .escape read (some high), c :: r =>
    if c = 'u' then lexFrom (.hex read (some high) 4 0) r else none
  | .pair read high, c :: r =>
    if c = '\\' then lexFrom (.escape read (some high)) r else none
  | .hex read high left value, c :: r =>
    match hexValue? c with
    | none => none
    | some d =>
      if left ≤ 1 then
        match afterHex read high (value * 16 + d) with
        | some st => lexFrom st r
        | none => none
      else lexFrom (.hex read high (left - 1) (value * 16 + d)) r

/-- The tokens of a text. -/
def lex (s : Text) : Option (List Token) := lexFrom .between s

/-! ## Building the tree -/

/-- How many containers may be open at once. -/
def maxDepth : Nat := 127

/-- A container that is still open.  Items and members are kept last first; `member` waits for the
value of its key. -/
inductive Frame
  | items (read : List Json)
  | members (read : List (String × Json))
  | member (read : List (String × Json)) (key : String)

/-- What may come next. -/
inductive Expecting
  | value
  | itemOrEnd
  | key
  | keyOrEnd
  | colon (key : String)
  | separator
  | nothing (tree : Json)

/-- The state of the builder: what comes next, and the open containers, innermost first. -/
abbrev BuildState := Expecting × List Frame

/-- A complete value takes its place in the innermost open container. -/
def place (j : Json) : List Frame → Option BuildState
  | [] => some (.nothing j, [])
  | .items read :: fs => some (.separator, .items (j :: read) :: fs)
  | .member read key :: fs => some (.separator, .members ((key, j) :: read) :: fs)
  | .members _ :: _ => none

/-- A new container is opened, if there may be one more. -/
def openFrame (next : Expecting) (f : Frame) (fs : List Frame) : Option BuildState :=
  if fs.length < maxDepth then some (next, f :: fs) else none

/-- A token where a value starts. -/
def startValue (fs : List Frame) : Token → Option BuildState
  | .null => place .null fs
  | .num n => place (.num n) fs
  | .str s => place (.str s) fs
  | .openList => openFrame .itemOrEnd (.items []) fs
  | .openObject => openFrame .keyOrEnd (.members []) fs
  | _ => none

/-- One token. -/
def build : BuildState → Token → Option BuildState
  | (.value, fs), t => startValue fs t
  | (.itemOrEnd, .items _ :: fs), .closeList => place (.arr []) fs
  | (.itemOrEnd, fs), t => startValue fs t
  | (.key, fs), .str k => some (.colon k, fs)
  | (.keyOrEnd, fs), .str k => some (.colon k, fs)
  | (.keyOrEnd, .members _ :: fs), .closeObject => place (.obj []) fs
  | (.colon k, .members read :: fs), .colon => some (.value, .member read k :: fs)
  | (.separator, .items read :: fs), .comma => some (.value, .items read :: fs)
  | (.separator, .items read :: fs), .closeList => place (.arr read.reverse) fs
  | (.separator, .members read :: fs), .comma => some (.key, .members read :: fs)
  | (.separator, .members read :: fs), .closeObject => place (.obj read.reverse) fs
  | _, _ => none

/-- All tokens in turn. -/
def buildAll : BuildState → List Token → Option BuildState
  | st, [] => some st
  | st, t :: ts => (build st t).bind fun st => buildAll st ts

/-- The tree that a list of tokens spells. -/
def ofTokens? (ts : List Token) : Option Json :=
  match buildAll (.value, []) ts with
  | some (.nothing j, _) => some j
  | _ => none

/-- The tree that a text spells. -/
def parse? (s : Text) : Option Json := (lex s).bind ofTokens?

end Json

end TableSync
