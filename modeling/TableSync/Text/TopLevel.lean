import TableSync.Text.Basic

/-!
# Splitting at the top level

`splitTopLevel` splits a text at a separator, but not inside quotes, parentheses, brackets or
braces.  A closing bracket that was not opened is passed over, a quote may be escaped by a backslash
inside quotes, and a separator is never looked for at a quote or a bracket.

* `QuoteState` is what a reader has to remember of quotes, and a number is what it has to remember
  of brackets.  A bracket of one kind may be closed by one of another kind.
* `splitTopLevelFrom` goes through the text character by character; the first argument after the
  separator says how many characters of a separator that has been met are still to be passed over,
  so that the recursion is on the text.

There is always at least one part, and a text that ends with a separator has an empty last part.
-/

set_option autoImplicit false

namespace TableSync

/-- Where a reader stands with regard to quotes. -/
inductive QuoteState
  | plain
  | quoted
  | escaped
  deriving DecidableEq

/-- The state after one more character. -/
def QuoteState.step (c : Char) : QuoteState → QuoteState
  | .plain => if c = '"' then .quoted else .plain
  | .quoted => if c = '\\' then .escaped else if c = '"' then .plain else .quoted
  | .escaped => .quoted

/-- An opening bracket. -/
def isOpening (c : Char) : Bool := c = '(' || c = '{' || c = '['

/-- A closing bracket. -/
def isClosing (c : Char) : Bool := c = ')' || c = '}' || c = ']'

/-- The parts of the rest of a text, where `skip` characters of a separator that has been
recognised are still to be passed over and `depth` brackets are open. -/
def splitTopLevelFrom (sep : Text) : (skip depth : Nat) → QuoteState → Text → List Text
  | _, _, _, [] => [[]]
  | skip + 1, depth, q, _ :: r => splitTopLevelFrom sep skip depth q r
  | 0, depth, .plain, c :: r =>
    if c = '"' then consHead c (splitTopLevelFrom sep 0 depth .quoted r)
    else if isOpening c then consHead c (splitTopLevelFrom sep 0 (depth + 1) .plain r)
    else if isClosing c then consHead c (splitTopLevelFrom sep 0 (depth - 1) .plain r)
    else if depth = 0 ∧ startsWith sep (c :: r) then
      if sep.isEmpty then [] :: consHead c (splitTopLevelFrom sep 0 depth .plain r)
      else [] :: splitTopLevelFrom sep (sep.length - 1) depth .plain r
    else consHead c (splitTopLevelFrom sep 0 depth .plain r)
  | 0, depth, q, c :: r => consHead c (splitTopLevelFrom sep 0 depth (q.step c) r)

/-- The parts of a text around the occurrences of `sep` outside quotes and brackets. -/
def splitTopLevel (sep s : Text) : List Text := splitTopLevelFrom sep 0 0 .plain s

end TableSync
