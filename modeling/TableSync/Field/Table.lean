import TableSync.Expr.Fold
import TableSync.Expr.Symbolic
import TableSync.Field.Parsers

/-!
# How the text of a field becomes a value

A `FieldTable` names a parser for some of the fields.  `FieldTable.parse` reads the text of a
field in this order:

1. an integer, unless the field's parser makes an empty list of it;
2. a conditional of literals, which is folded;
3. the field's parser;
4. the text itself.

Then every string in the result that holds a symbolic conditional is taken apart.  Nothing fails:
the `Reading` says which way was taken, and a text that the parser refused is kept.
-/

set_option autoImplicit false

namespace TableSync

/-- How the value of a field came about. -/
inductive Reading
  /-- It was read as something richer than text. -/
  | parsed
  /-- No parser applies, and the text was kept. -/
  | verbatim
  /-- The parser refused the text, which was kept. -/
  | fallback
  deriving DecidableEq, Repr

/-- A field that has been read. -/
structure ReadField where
  /-- The key of the field. -/
  key : String
  /-- The value that was read. -/
  value : Value
  /-- How the value came about. -/
  reading : Reading

mutual

/-- A value in which strings that hold a conditional are taken apart; lists are entered. -/
def Value.decompose : Value → Value
  | .str s =>
    match Conditional.find? s.toList with
    | some e => .conditional e
    | none => .str s
  | .list items => .list (decomposeItems items)
  | .int n => .int n
  | .conditional e => .conditional e
  | .record r => .record r
termination_by structural v => v

/-- Each item taken apart. -/
def decomposeItems : List Value → List Value
  | [] => []
  | v :: vs => v.decompose :: decomposeItems vs
termination_by structural vs => vs

end

/-- The parsers of some fields. -/
abbrev FieldTable := List (String × FieldParser)

namespace FieldTable

/-- The value of a trimmed text before conditionals are taken apart. -/
def read (table : FieldTable) (key : String) (raw : Text) : Value × Reading :=
  let parser? := table.lookup key
  match readInt? raw with
  | some n =>
    match parser?.bind fun parser => parser raw with
    | some (.list []) => (.list [], .parsed)
    | _ => (.int n, .parsed)
  | none =>
    match fold? raw with
    | some n => (.int n, .parsed)
    | none =>
      match parser? with
      | none => (.ofText raw, .verbatim)
      | some parser =>
        match parser raw with
        | some value => (value, .parsed)
        | none => (.ofText raw, .fallback)

/-- Reads the text of a field. -/
def parse (table : FieldTable) (key : String) (raw : Text) : ReadField :=
  let (value, reading) := table.read key (trim raw)
  let decomposed := value.decompose
  ⟨key, decomposed, if decomposed = value then reading else .parsed⟩

end FieldTable

end TableSync
