import TableSync.Data.Record
import TableSync.Text.Decimal
import TableSync.Text.Quoted
import TableSync.Text.Search
import TableSync.Text.TopLevel

/-!
# Parsers of field values

Each parser reads the text of one kind of field, and gives nothing if the text does not have the
shape of that kind.

* `braceList?`: `{A, B}`
* `localized?`: `_("text")`
* `description?`: `COMPOUND_STRING("one\n" "two")`, `_("text")`, quoted segments, or bare text
* `flags?`: `A | B`, and `0` for none
* `coordsSize?`: `MON_COORDS_SIZE(w, h)`
* `genderRatio?`: the names of the fixed ratios, and a percentage of 255
* `friendship?`: `STANDARD_FRIENDSHIP`
* `evolutions?`: `EVOLUTION({method, parameter, target}, ...)` and its expansion
-/

set_option autoImplicit false

namespace TableSync

/-- Reads the text of a field. -/
abbrev FieldParser := Text → Option Value

/-- The tokens between braces, separated by commas at the top level; empty ones are dropped. -/
def braceList? : FieldParser := fun raw => do
  let inner ← dropStart? ['{'] (trim raw)
  let inner ← dropEnd? ['}'] inner
  return .list <| (((splitTopLevel [','] (trim inner)).map trim).filter (!·.isEmpty)).map
    Value.scalar

/-- The text of a localized string, escapes read. -/
def localized? : FieldParser := fun raw => do
  let inner ← dropStart? "_(".toList (trim raw)
  let inner ← dropStart? ['"'] (trimStart inner)
  let inner ← dropEnd? [')'] inner
  let inner ← dropEnd? ['"'] (trimEnd inner)
  guard (!inner.contains '\n')
  return .ofText (unescape inner)

/-- What a string literal wraps: the inside of its parentheses, or all of it if there are none. -/
def unwrapLiteral (s : Text) : Text :=
  match (dropStart? "COMPOUND_STRING(".toList s).or (dropStart? "_(".toList s) with
  | some inner => (dropEnd? [')'] inner).getD s
  | none => s

/-- The text of a description, its segments joined and escapes read. -/
def description? : FieldParser := fun raw =>
  let inner := trim (unwrapLiteral (trim raw))
  let text := if startsWith ['"'] inner then (segments inner).text else inner
  some (.ofText (unescape text))

/-- The flags of a union. -/
def flags? : FieldParser := fun raw =>
  let raw := trim raw
  if raw = ['0'] then some (.list [])
  else some (.list ((splitOn " | ".toList raw).map Value.scalar))

/-- The two sizes of a picture. -/
def coordsSize? : FieldParser := fun raw => do
  let inner ← dropStart? "MON_COORDS_SIZE(".toList (trim raw)
  let (width, rest) ← cut? [','] inner
  let height ← dropEnd? [')'] rest
  guard (!width.isEmpty && !height.isEmpty && !height.contains ')')
  return .list [.scalar width, .scalar height]

/-- The ratio of a species that is always male. -/
def maleRatio : Int := 0

/-- The ratio of a species that is always female. -/
def femaleRatio : Int := 254

/-- The ratio of a species without gender. -/
def genderlessRatio : Int := 255

/-- A numeral of decimal digits with an optional fractional part: both parts, and the rest. -/
def decimalAt? (s : Text) : Option (Text × Text × Text) :=
  match s.span isDecimal with
  | ([], _) => none
  | (whole, '.' :: r) =>
    match r.span isDecimal with
    | ([], _) => some (whole, [], '.' :: r)
    | (fraction, r) => some (whole, fraction, r)
  | (whole, r) => some (whole, [], r)

/-- The byte of `min(254, ((P * 255) / 100))`: the percentage `P` of 255, to the nearest
integer. -/
def percentRatio? (s : Text) : Option Int := do
  let s ← dropStart? "min(".toList s
  let s ← afterBlanks? "254".toList s
  let s ← afterBlanks? [','] s
  let (whole, fraction, s) ← decimalAt? (trimStart ((trimStart s).dropWhile (· = '(')))
  let s ← afterBlanks? ['*'] s
  let s ← afterBlanks? "255".toList s
  let s ← afterBlanks? [')'] s
  let s ← afterBlanks? ['/'] s
  let s ← afterBlanks? "100".toList s
  guard ((trimStart s).all (· = ')'))
  let percent ← readDecimal? whole fraction
  return min ((percent.times 255).dividedBy 100).round 9223372036854775807

/-- The byte of a gender ratio. -/
def genderRatio? : FieldParser := fun raw =>
  let raw := trim raw
  if raw = "MON_MALE".toList then some (.int maleRatio)
  else if raw = "MON_FEMALE".toList then some (.int femaleRatio)
  else if raw = "MON_GENDERLESS".toList then some (.int genderlessRatio)
  else (percentRatio? raw).map .int

/-- The friendship most species start with. -/
def standardFriendship : Int := 70

/-- The value of the standard friendship. -/
def friendship? : FieldParser := fun raw =>
  if trim raw = "STANDARD_FRIENDSHIP".toList then some (.int standardFriendship) else none

/-! ## Evolutions -/

/-- The insides of the innermost pairs of braces, where `open?` holds what has been read (last
character first) since an opening brace. -/
def braceGroupsFrom (open? : Option Text) : Text → List Text
  | [] => []
  | c :: r =>
    if c = '{' then braceGroupsFrom (some []) r
    else
      match open? with
      | none => braceGroupsFrom none r
      | some read =>
        if c = '}' then read.reverse :: braceGroupsFrom none r
        else braceGroupsFrom (some (c :: read)) r

/-- The insides of the innermost pairs of braces. -/
def braceGroups (s : Text) : List Text := braceGroupsFrom none s

/-- The name that ends a list of evolutions. -/
def evolutionsEnd : Text := "EVOLUTIONS_END".toList

/-- The evolution that the parts of a group describe.  A group of three has a parameter and a
target; any other keeps its arguments in a list.  The end of the list is no evolution. -/
def evolutionOfParts? : List Text → Option Record
  | [] => none
  | method :: rest =>
    if method = [] ∨ method = evolutionsEnd then none
    else
      match rest with
      | [parameter, target] =>
        some ⟨[("method", .ofText method), ("param", .scalar parameter),
          ("targetSpecies", .ofText target)]⟩
      | _ => some ⟨[("method", .ofText method), ("args", .list (rest.map Value.scalar))]⟩

/-- The evolutions of a species. -/
def evolutions? : FieldParser := fun raw =>
  let raw := trim raw
  if startsWith "EVOLUTION(".toList raw || startsWith "(const struct Evolution[])".toList raw then
    some <| .list <| (braceGroups raw).filterMap fun group =>
      (evolutionOfParts? ((splitOn [','] group).map trim)).map .record
  else none

end TableSync
