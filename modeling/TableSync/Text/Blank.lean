import TableSync.Text.Basic

/-!
# Blank characters

The white space of the Unicode standard (property `White_Space`), and trimming.  A text is *trimmed*
when neither end is blank; `trim` takes blanks off both ends.

* `isBlank` is the property, decided by the code point of a character.  A line feed and a carriage
  return are blank, and so is the no-break space.
* `trimStart` and `trimEnd` are the two ends by themselves.
-/

set_option autoImplicit false

namespace TableSync

/-- The characters with the Unicode property `White_Space`. -/
def isBlank (c : Char) : Bool :=
  (0x09 ≤ c.toNat && c.toNat ≤ 0x0D) || c.toNat = 0x20 || c.toNat = 0x85 || c.toNat = 0xA0
    || c.toNat = 0x1680 || (0x2000 ≤ c.toNat && c.toNat ≤ 0x200A) || c.toNat = 0x2028
    || c.toNat = 0x2029 || c.toNat = 0x202F || c.toNat = 0x205F || c.toNat = 0x3000

/-- The text from its first character that is not blank. -/
def trimStart (s : Text) : Text := s.dropWhile isBlank

/-- The text up to its last character that is not blank. -/
def trimEnd (s : Text) : Text := dropEndWhile isBlank s

/-- The text without the blanks at both ends. -/
def trim (s : Text) : Text := trimEnd (trimStart s)

end TableSync
