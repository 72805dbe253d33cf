import TableSync.Data.Value

/-!
# JSON trees and how they are written

The part of JSON that records need: integers of 64 bits, strings, arrays, objects whose members
keep their order, and `null`, which is read but never written.

* `Json.compact` writes a tree without blanks.
* `Json.pretty` writes it over several lines, one item or member a line, four blanks a level.

A string is written with the short escapes where JSON has one, `\u00xx` for the other control
characters, and every other character as it is.
-/

set_option autoImplicit false

namespace TableSync

/-- A JSON tree. -/
inductive Json
  | null
  | num (n : Int)
  | str (s : String)
  | arr (items : List Json)
  | obj (members : List (String × Json))

namespace Json

/-- A hexadecimal digit, in lower case. -/
def hexDigit (n : Nat) : Char := if n < 10 then Char.ofNat (48 + n) else Char.ofNat (87 + n)

/-- A character inside a JSON string. -/
def escapeChar (c : Char) : Text :=
  match c with
  | '"' => ['\\', '"']
  | '\\' => ['\\', '\\']
  | '\x08' => ['\\', 'b']
  | '\x0c' => ['\\', 'f']
  | '\n' => ['\\', 'n']
  | '\r' => ['\\', 'r']
  | '\t' => ['\\', 't']
  | c =>
    if c.toNat < 32 then ['\\', 'u', '0', '0', hexDigit (c.toNat / 16), hexDigit (c.toNat % 16)]
    else [c]

/-- A string in quotes. -/
def quote (s : String) : Text := '"' :: s.toList.flatMap escapeChar ++ ['"']

mutual

/-- A tree without blanks. -/
def compact : Json → Text
  | .null => "null".toList
  | .num n => showInt n
  | .str s => quote s
  | .arr items => '[' :: compactItems items ++ [']']
  | .obj members => '{' :: compactMembers members ++ ['}']
termination_by structural j => j

/-- Items with commas between them. -/
def compactItems : List Json → Text
  | [] => []
  | j :: js => compact j ++ (if js.isEmpty then [] else ',' :: compactItems js)
termination_by structural js => js

/-- Members with commas between them. -/
def compactMembers : List (String × Json) → Text
  | [] => []
  | (k, j) :: ms =>
    quote k ++ ':' :: compact j ++ (if ms.isEmpty then [] else ',' :: compactMembers ms)
termination_by structural ms => ms

end

/-- The start of a line at a nesting level. -/
def newLine (level : Nat) : Text := '\n' :: List.replicate (4 * level) ' '

mutual

/-- A tree over several lines, inside `level` containers. -/
def pretty (level : Nat) : Json → Text
  | .null => "null".toList
  | .num n => showInt n
  | .str s => quote s
  | .arr items =>
    if items.isEmpty then ['[', ']']
    else '[' :: prettyItems (level + 1) items ++ newLine level ++ [']']
  | .obj members =>
    if members.isEmpty then ['{', '}']
    else '{' :: prettyMembers (level + 1) members ++ newLine level ++ ['}']
termination_by structural j => j

/-- Items, each on lines of its own. -/
def prettyItems (level : Nat) : List Json → Text
  | [] => []
  | j :: js =>
    newLine level ++ pretty level j ++ (if js.isEmpty then [] else ',' :: prettyItems level js)
termination_by structural js => js

/-- Members, each on lines of its own. -/
def prettyMembers (level : Nat) : List (String × Json) → Text
  | [] => []
  | (k, j) :: ms =>
    newLine level ++ quote k ++ ':' :: ' ' :: pretty level j
      ++ (if ms.isEmpty then [] else ',' :: prettyMembers level ms)
termination_by structural ms => ms

end

end Json

end TableSync
