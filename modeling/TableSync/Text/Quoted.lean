import TableSync.Text.Blank

/-!
# Quoted segments and escapes

String literals of the tables are runs of quoted segments, possibly over several lines.

* `segments` collects the quoted segments of one line, escapes left as written, and tells whether
  a closing parenthesis follows the last of them.
* `escape` writes text for the inside of a segment, and `unescape` reads it back
  (`unescape_escape`); of the escapes it knows `\n`, `\"` and `\\`, and keeps all others.
-/

set_option autoImplicit false

namespace TableSync

/-! ## Segments -/

/-- The quoted segments of a line: their contents in a row, how many there are, and whether a
closing parenthesis comes next after the last. -/
structure Segments where
  /-- What stands in the segments, in a row. -/
  text : Text
  /-- The number of segments. -/
  count : Nat
  /-- Whether a closing parenthesis comes next after the last of them. -/
  closed : Bool
  deriving DecidableEq

/-- Where a reader of quoted text stands: outside a segment, having passed `after` (last character
first) since the last quote, or inside one. -/
inductive SegmentState
  | outside (after : Text)
  | inside

/-- The segments of the rest of a line.  A segment that is not closed holds all that is left. -/
def segmentsFrom : SegmentState → Text → Segments
  | .outside after, [] => ⟨[], 0, startsWith [')'] (trimStart after.reverse)⟩
  | .outside after, c :: r =>
    if c = '"' then
      let rest := segmentsFrom .inside r
      ⟨rest.text, rest.count + 1, rest.closed⟩
    else segmentsFrom (.outside (c :: after)) r
  | .inside, [] => ⟨[], 0, false⟩
  | .inside, ['\\'] => ⟨['\\'], 0, false⟩
  | .inside, '\\' :: c :: r =>
    let rest := segmentsFrom .inside r
    ⟨'\\' :: c :: rest.text, rest.count, rest.closed⟩
  | .inside, c :: r =>
    if c = '"' then segmentsFrom (.outside []) r
    else
      let rest := segmentsFrom .inside r
      ⟨c :: rest.text, rest.count, rest.closed⟩

/-- The quoted segments of a line. -/
def segments (line : Text) : Segments :=
  let found := segmentsFrom (.outside []) line
  ⟨found.text, found.count, found.count != 0 && found.closed⟩

/-! ## Escapes -/

/-- A character inside a quoted segment. -/
def escapeChar (c : Char) : Text :=
  if c = '\\' then ['\\', '\\'] else if c = '"' then ['\\', '"'] else
    if c = '\n' then ['\\', 'n'] else [c]

/-- Text for the inside of a quoted segment. -/
def escape (s : Text) : Text := s.flatMap escapeChar

/-- The text that the inside of a quoted segment stands for. -/
def unescape : Text → Text
  | [] => []
  | '\\' :: 'n' :: r => '\n' :: unescape r
  | '\\' :: '"' :: r => '"' :: unescape r
  | '\\' :: '\\' :: r => '\\' :: unescape r
  | '\\' :: c :: r => '\\' :: c :: unescape r
  | c :: r => c :: unescape r

/-- Reading escaped text gives the text back. -/
@[simp]
theorem unescape_escape (s : Text) : unescape (escape s) = s := by
  induction s with
  | nil => rfl
  | cons c r ih =>
    have ih' : unescape (r.flatMap escapeChar) = r := ih
    by_cases h1 : c = '\\'
    · subst h1
      simp [escape, escapeChar, unescape, ih']
    · by_cases h2 : c = '"'
      · subst h2
        simp [escape, escapeChar, unescape, ih']
      · by_cases h3 : c = '\n'
        · subst h3
          simp [escape, escapeChar, unescape, ih']
        · simp [escape, escapeChar, unescape, h1, h2, h3, ih']

end TableSync
