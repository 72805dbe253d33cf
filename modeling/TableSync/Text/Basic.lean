/-!
# Text as a list of characters

Everything that is scanned or emitted is a `Text`, the list of its characters, so that each
function on it is a structural recursion.  `String` is the stored form: keys, identifiers,
field values, messages.

* `dropStart?` and `dropEnd?` take a given text off one end (`dropStart?_eq_some_iff`,
  `dropEnd?_eq_some_iff`).
* `cut?` splits at the first occurrence of a separator (`eq_of_cut?`).
* `splitOn` splits at every occurrence, from the left and without overlap.
* `pieces` cuts a text after every line feed, so that nothing is lost (`flatten_pieces`);
  `lines` drops the line ends.
-/

set_option autoImplicit false

namespace TableSync

/-- Text under analysis or being written. -/
abbrev Text := List Char

/-! ## Both ends of a text -/

/-- What follows `p` at the start of the text. -/
def dropStart? : Text → Text → Option Text
  | [], s => some s
  | _ :: _, [] => none
  | p :: ps, c :: cs => if p = c then dropStart? ps cs else none

theorem dropStart?_eq_some_iff {p s r : Text} : dropStart? p s = some r ↔ s = p ++ r := by
  induction p generalizing s with
  | nil => simp [dropStart?]
  | cons x p ih =>
    cases s with
    | nil => simp [dropStart?]
    | cons c s =>
      by_cases h : x = c
      · simp [dropStart?, h, ih]
      · simp [dropStart?, h, Ne.symm h]

@[simp]
theorem dropStart?_append (p r : Text) : dropStart? p (p ++ r) = some r :=
  dropStart?_eq_some_iff.2 rfl

/-- Whether the text starts with `p`. -/
def startsWith (p s : Text) : Bool := (dropStart? p s).isSome

theorem startsWith_iff {p s : Text} : startsWith p s = true ↔ ∃ r, s = p ++ r := by
  simp [startsWith, Option.isSome_iff_exists, dropStart?_eq_some_iff]

/-- What precedes `p` at the end of the text. -/
def dropEnd? (p s : Text) : Option Text := (dropStart? p.reverse s.reverse).map List.reverse

theorem dropEnd?_eq_some_iff {p s r : Text} : dropEnd? p s = some r ↔ s = r ++ p := by
  simp only [dropEnd?, Option.map_eq_some_iff, dropStart?_eq_some_iff]
  constructor
  · rintro ⟨t, ht, rfl⟩
    have := congrArg List.reverse ht
    simpa using this
  · rintro rfl
    exact ⟨r.reverse, by simp, by simp⟩

/-- Whether the text ends with `p`. -/
def endsWith (p s : Text) : Bool := (dropEnd? p s).isSome

/-- The text without the longest run of `p` at its end. -/
def dropEndWhile (p : Char → Bool) (s : Text) : Text := (s.reverse.dropWhile p).reverse

/-! ## Searching and splitting -/

/-- The parts before and after the first occurrence of `sep`. -/
def cut? (sep : Text) : Text → Option (Text × Text)
  | [] => if sep.isEmpty then some ([], []) else none
  | c :: r =>
    match dropStart? sep (c :: r) with
    | some rest => some ([], rest)
    | none => (cut? sep r).map fun (a, b) => (c :: a, b)

theorem eq_of_cut? {sep s a b : Text} (h : cut? sep s = some (a, b)) : s = a ++ sep ++ b := by
  induction s generalizing a with
  | nil =>
    by_cases hs : sep = []
    · simp_all [cut?]
    · simp_all [cut?]
  | cons c r ih =>
    rw [cut?] at h
    split at h
    · rename_i rest hr
      have := dropStart?_eq_some_iff.1 hr
      simp_all
    · simp only [Option.map_eq_some_iff] at h
      obtain ⟨⟨x, y⟩, hxy, heq⟩ := h
      simp only [Prod.mk.injEq] at heq
      obtain ⟨rfl, rfl⟩ := heq
      have := ih hxy
      simp [this]

/-- Whether `sep` occurs in the text. -/
def contains (sep s : Text) : Bool := (cut? sep s).isSome

/-- Puts a character in front of the first part. -/
def consHead (c : Char) : List Text → List Text
  | [] => [[c]]
  | p :: ps => (c :: p) :: ps

/-- The parts of a text around a separator, where `skip` characters of a separator that has been
recognised are still to be passed over. -/
def splitOnFrom (sep : Text) : Nat → Text → List Text
  | _, [] => [[]]
  | skip + 1, _ :: r => splitOnFrom sep skip r
  | 0, c :: r =>
    if startsWith sep (c :: r) then [] :: splitOnFrom sep (sep.length - 1) r
    else consHead c (splitOnFrom sep 0 r)

/-- The parts of a text around every occurrence of a non-empty separator, found from the left
and without overlap. -/
def splitOn (sep s : Text) : List Text := splitOnFrom sep 0 s

/-- Parts with a separator between each two. -/
def joinWith (sep : Text) : List Text → Text
  | [] => []
  | [p] => p
  | p :: ps => p ++ sep ++ joinWith sep ps

/-- The text with the first occurrence of `old` replaced. -/
def replaceFirst (old new s : Text) : Text :=
  match cut? old s with
  | some (a, b) => a ++ new ++ b
  | none => s

/-! ## Lines -/

/-- The pieces of a text, each ending with its line feed; only the last may lack one. -/
def pieces : Text → List Text
  | [] => []
  | c :: r => if c = '\n' then [c] :: pieces r else consHead c (pieces r)

theorem flatten_consHead (c : Char) (ps : List Text) :
    (consHead c ps).flatten = c :: ps.flatten := by
  cases ps <;> rfl

/-- Cutting into pieces loses nothing. -/
@[simp]
theorem flatten_pieces (s : Text) : (pieces s).flatten = s := by
  induction s with
  | nil => rfl
  | cons c r ih =>
    rw [pieces]
    split
    · simp [ih]
    · rw [flatten_consHead, ih]

/-- A piece without its line feed and one carriage return before it.  A piece without a line
feed is a line as it stands. -/
def chomp (piece : Text) : Text :=
  match dropEnd? ['\n'] piece with
  | none => piece
  | some line => (dropEnd? ['\r'] line).getD line

/-- The lines of a text, without their line ends. -/
def lines (s : Text) : List Text := (pieces s).map chomp

/-- Lines written out, each followed by a line feed. -/
def unlines (ls : List Text) : Text := (ls.map (· ++ ['\n'])).flatten

end TableSync
