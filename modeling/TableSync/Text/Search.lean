import TableSync.Text.Letter
import TableSync.Text.Blank

/-!
# Searching for a shape

Small recognisers read a shape at the start of a text and give what they found with the rest;
`search?` tries one at every position, from the left.

* `search?` also tries the end of the text, where only a recogniser that needs no character can find
  anything.
* `wordAt?`, `digitsAt?` and `afterBlanks?` are the recognisers that larger ones are made of.
  Blanks before what they look for are passed over, and blanks after it are left to the rest.

A recogniser decides by what follows, and never by what stands before its position.
-/

set_option autoImplicit false

namespace TableSync

/-- What a recogniser finds at the first position where it finds anything. -/
def search? {α : Type} (at? : Text → Option α) : Text → Option α
  | [] => at? []
  | c :: r => (at? (c :: r)).or (search? at? r)

/-- A non-empty run of word characters, blanks before it aside, and what follows. -/
def wordAt? (s : Text) : Option (Text × Text) :=
  match wordRun (trimStart s) with
  | ([], _) => none
  | found => some found

/-- A non-empty run of decimal digits, blanks before it aside, and what follows. -/
def digitsAt? (s : Text) : Option (Text × Text) :=
  match (trimStart s).span isDecimal with
  | ([], _) => none
  | found => some found

/-- What follows a text, blanks before it aside. -/
def afterBlanks? (p s : Text) : Option Text := dropStart? p (trimStart s)

end TableSync
