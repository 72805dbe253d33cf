import TableSync.Text.Numeral

/-!
# TOML tokens

A text becomes a list of tokens.  Blanks and comments between them are gone, line ends are kept, and
a bare word is a key or a numeral, which its place decides.  A text with a character that cannot
stand where it does has no tokens.

* `Quoting` are the four kinds of strings, which differ in their mark, in whether they may span
  lines and in whether a backslash escapes.
* `LexState` is where the reader stands.  What has been read of a token is kept in it, last
  character first.
* `lexFrom` goes through the text, one character or one escape at a time, and `lex` is the whole
  text.
-/

set_option autoImplicit false

namespace TableSync.Toml

/-- A token. -/
inductive Token
  /-- A run of letters, digits and the signs `_`, `-` and `+`. -/
  | bare (t : Text)
  /-- A string on one line, which may be a key. -/
  | str (s : String)
  /-- A string in triple quotes. -/
  | long (s : String)
  | equals
  | dot
  | comma
  /-- An opening bracket, and whether another one follows at once. -/
  | opening (doubled : Bool)
  /-- A closing bracket, and whether another one follows at once. -/
  | closing (doubled : Bool)
  | openingBrace
  | closingBrace
  | lineEnd

/-- The four kinds of strings. -/
inductive Quoting
  | basic
  | literal
  | longBasic
  | longLiteral
  deriving DecidableEq

namespace Quoting

/-- The quotation mark. -/
def mark : Quoting → Char
  | basic | longBasic => '"'
  | literal | longLiteral => '\''

/-- Whether a string may span lines. -/
def isLong : Quoting → Bool
  | basic | literal => false
  | longBasic | longLiteral => true

/-- Whether a backslash escapes. -/
def hasEscapes : Quoting → Bool
  | basic | longBasic => true
  | literal | longLiteral => false

/-- The token of a string, from its characters in reverse. -/
def token (q : Quoting) (read : Text) : Token :=
  let s := String.ofList read.reverse
  if q.isLong then .long s else .str s

end Quoting

/-- Where the reader stands; `read` holds the characters of a token in reverse. -/
inductive LexState
  | between
  | comment
  | bare (read : Text)
  | quoted (q : Quoting) (read : Text)
  /-- After some marks in a row inside a long string. -/
  | marks (q : Quoting) (read : Text) (seen : Nat)
  | escape (q : Quoting) (read : Text)
  /-- Before some hexadecimal digits of a character. -/
  | hex (q : Quoting) (read : Text) (left value : Nat)
  /-- After a backslash and blanks, before the end of the line. -/
  | gap (q : Quoting) (read : Text)
  /-- In the blanks and line ends that a backslash at the end of a line takes away. -/
  | skip (q : Quoting) (read : Text)

/-- A character of a bare word. -/
def isBareChar (c : Char) : Bool :=
  isAsciiLetter c || isAsciiDigit c || c = '_' || c = '-' || c = '+'

/-- A blank on a line. -/
def isLineBlank (c : Char) : Bool := c = ' ' || c = '\t'

/-- A character that may stand in a comment or a string. -/
def isPrintable (c : Char) : Bool := c = '\t' || (32 ≤ c.toNat && c.toNat ≠ 127)

/-- The token of a single character. -/
def punctuation? (c : Char) (next? : Option Char) : Option Token :=
  match c with
  | '=' => some .equals
  | '.' => some .dot
  | ',' => some .comma
  | '[' => some (.opening (next? = some '['))
  | ']' => some (.closing (next? = some ']'))
  | '{' => some .openingBrace
  | '}' => some .closingBrace
  | '\n' => some .lineEnd
  | _ => none

/-- The character of a one-letter escape. -/
def shortEscape? : Char → Option Char
  | 'b' => some '\x08'
  | 't' => some '\t'
  | 'n' => some '\n'
  | 'f' => some '\x0c'
  | 'r' => some '\r'
  | '"' => some '"'
  | '\\' => some '\\'
  | _ => none

/-- The character with a code point. -/
def charOf? (n : Nat) : Option Char := if n.isValidChar then some (Char.ofNat n) else none

/-- Whether a text goes on with a character. -/
def goesOn (p : Char → Bool) (s : Text) : Bool := s.head?.any p

/-- The tokens of the rest of a text. -/
def lexFrom : LexState → Text → Option (List Token)
  | .between, [] => some []
  | .comment, [] => some []
  | .between, '"' :: '"' :: '"' :: '\n' :: r => lexFrom (.quoted .longBasic []) r
  | .between, '"' :: '"' :: '"' :: '\r' :: '\n' :: r => lexFrom (.quoted .longBasic []) r
  | .between, '"' :: '"' :: '"' :: r => lexFrom (.quoted .longBasic []) r
  | .between, '\'' :: '\'' :: '\'' :: '\n' :: r => lexFrom (.quoted .longLiteral []) r
  | .between, '\'' :: '\'' :: '\'' :: '\r' :: '\n' :: r => lexFrom (.quoted .longLiteral []) r
  | .between, '\'' :: '\'' :: '\'' :: r => lexFrom (.quoted .longLiteral []) r
  | .between, '\r' :: '\n' :: r => (lexFrom .between r).map (.lineEnd :: ·)
  | .between, c :: r =>
    if isLineBlank c then lexFrom .between r
    else if c = '#' then lexFrom .comment r
    else if c = '"' then lexFrom (.quoted .basic []) r
    else if c = '\'' then lexFrom (.quoted .literal []) r
    else if isBareChar c then
      if goesOn isBareChar r then lexFrom (.bare [c]) r
      else (lexFrom .between r).map (.bare [c] :: ·)
    else
      match punctuation? c r.head? with
      | some token => (lexFrom .between r).map (token :: ·)
      | none => none
  | .comment, '\r' :: '\n' :: r => (lexFrom .between r).map (.lineEnd :: ·)
  | .comment, c :: r =>
    if c = '\n' then (lexFrom .between r).map (.lineEnd :: ·)
    else if isPrintable c then lexFrom .comment r
    else none
  | .bare _, [] => none
  | .bare read, c :: r =>
    if goesOn isBareChar r then lexFrom (.bare (c :: read)) r
    else (lexFrom .between r).map (.bare (c :: read).reverse :: ·)
  | .quoted _ _, [] => none
  | .quoted q read, '\r' :: '\n' :: r =>
    if q.isLong then lexFrom (.quoted q ('\n' :: read)) r else none
  | .quoted q read, c :: r =>
    if c = q.mark then
      if !q.isLong then (lexFrom .between r).map (q.token read :: ·)
      else if goesOn (· = c) r then lexFrom (.marks q read 1) r
      else lexFrom (.quoted q (c :: read)) r
    else if c = '\\' ∧ q.hasEscapes then lexFrom (.escape q read) r
    else if isPrintable c ∨ (c = '\n' ∧ q.isLong) then lexFrom (.quoted q (c :: read)) r
    else none
  | .marks _ _ _, [] => none
  | .marks q read seen, c :: r =>
    let isLast := !goesOn (· = c) r
    if 2 ≤ seen ∧ (seen = 4 ∨ isLast) then
      (lexFrom .between r).map (q.token (List.replicate (seen - 2) c ++ read) :: ·)
    else if isLast then lexFrom (.quoted q (List.replicate (seen + 1) c ++ read)) r
    else lexFrom (.marks q read (seen + 1)) r
  | .escape _ _, [] => none
  | .escape q read, '\r' :: '\n' :: r => if q.isLong then lexFrom (.skip q read) r else none
  | .escape q read, c :: r =>
    match shortEscape? c with
    | some d => lexFrom (.quoted q (d :: read)) r
    | none =>
      if c = 'u' then lexFrom (.hex q read 4 0) r
      else if c = 'U' then lexFrom (.hex q read 8 0) r
      else if c = '\n' ∧ q.isLong then lexFrom (.skip q read) r
      else if isLineBlank c ∧ q.isLong then lexFrom (.gap q read) r
      else none
  | .hex _ _ _ _, [] => none
  | .hex q read left value, c :: r =>
    match hexValue? c with
    | none => none
    | some digit =>
      let value := value * 16 + digit
      if 1 < left then lexFrom (.hex q read (left - 1) value) r
      else
        match charOf? value with
        | some d => lexFrom (.quoted q (d :: read)) r
        | none => none
  | .gap _ _, [] => none
  | .gap q read, '\r' :: '\n' :: r => lexFrom (.skip q read) r
  | .gap q read, c :: r =>
    if c = '\n' then lexFrom (.skip q read) r
    else if isLineBlank c then lexFrom (.gap q read) r
    else none
  | .skip _ _, [] => none
  | .skip q read, '\r' :: '\n' :: r => lexFrom (.skip q read) r
  | .skip q read, c :: r =>
    if c = '\n' ∨ isLineBlank c then lexFrom (.skip q read) r
    else if c = q.mark then
      if goesOn (· = c) r then lexFrom (.marks q read 1) r
      else lexFrom (.quoted q (c :: read)) r
    else if c = '\\' then lexFrom (.escape q read) r
    else if isPrintable c then lexFrom (.quoted q (c :: read)) r
    else none

/-- The tokens of a text; a mark of byte order may precede it. -/
def lex (s : Text) : Option (List Token) :=
  lexFrom .between ((dropStart? ['\uFEFF'] s).getD s)

end TableSync.Toml
