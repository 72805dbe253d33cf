import TableSync.Text.Numeral

/-!
# TOML trees

The part of TOML that settings are written in: integers of 64 bits, strings, arrays and tables.
Booleans, dates and fractions are not read, since no setting has such a value.

A table can be written in pieces, and its `Origin` says which pieces may still follow:

* a table under a header `[a]` gets its keys there, and `[a]` comes once;
* a table that only stood on the way of a longer header may still get a header of its own;
* a table made by dotted keys gets more dotted keys, and no header;
* an inline table is complete.

`Table.addPair?`, `Table.addHeader?` and `Table.addElement?` add the three kinds of pieces.
-/

set_option autoImplicit false

namespace TableSync.Toml

/-- How a table came about. -/
inductive Origin
  /-- By a header. -/
  | header
  /-- On the way of a longer header. -/
  | implied
  /-- By dotted keys. -/
  | dotted
  /-- In braces. -/
  | inline
  deriving DecidableEq

/-- A TOML tree. -/
inductive Tree
  | int (n : Int)
  | str (s : String)
  | array (items : List Tree)
  | table (origin : Origin) (entries : List (String × Tree))
  /-- Tables under headers `[[a]]`. -/
  | tables (elements : List (List (String × Tree)))

/-- A table with its origin. -/
structure Table where
  /-- How the table came to be. -/
  origin : Origin
  /-- The keys with their values, in their order. -/
  entries : List (String × Tree)

namespace Table

/-- The value under a key. -/
def get? (t : Table) (key : String) : Option Tree := t.entries.lookup key

/-- The table with a value under a key, in place of the one there. -/
def set (t : Table) (key : String) (v : Tree) : Table :=
  ⟨t.origin, t.entries.filter (·.1 ≠ key) ++ [(key, v)]⟩

/-- Whether a path of the given kind may lead through a table. -/
def isOpen (dotted : Bool) (origin : Origin) : Bool :=
  match origin with
  | .header => !dotted
  | .implied | .dotted => true
  | .inline => false

/-- Changes the table at the end of a path, which may be dotted keys or the start of a header.
Tables that are missing on the way are made, and of tables under headers `[[a]]` the path takes the
last. -/
def change? (dotted : Bool) (f : Table → Option Table) : List String → Table → Option Table
  | [], t => f t
  | key :: path, t =>
    match t.get? key with
    | none =>
      (change? dotted f path ⟨if dotted then .dotted else .implied, []⟩).map fun child =>
        t.set key (.table child.origin child.entries)
    | some (.table origin entries) =>
      if isOpen dotted origin then
        (change? dotted f path ⟨origin, entries⟩).map fun child =>
          t.set key (.table child.origin child.entries)
      else none
    | some (.tables elements) =>
      match elements.getLast? with
      | none => none
      | some entries =>
        (change? dotted f path ⟨.header, entries⟩).map fun child =>
          t.set key (.tables (elements.dropLast ++ [child.entries]))
    | some _ => none

/-- Adds a value under a new key. -/
def addValue? (key : String) (v : Tree) (t : Table) : Option Table :=
  if (t.get? key).isSome then none else some (t.set key v)

/-- Adds a value at the end of a path of dotted keys. -/
def addPair? (path : List String) (v : Tree) (t : Table) : Option Table :=
  match path.getLast? with
  | none => none
  | some key =>
    let addHere := fun t : Table =>
      if path.length = 1 ∨ t.origin = .dotted then t.addValue? key v else none
    t.change? true addHere path.dropLast

/-- Adds a table under a header. -/
def addHeader? (path : List String) (t : Table) : Option Table :=
  match path.getLast? with
  | none => none
  | some key =>
    let addHere := fun t : Table =>
      match t.get? key with
      | none => some (t.set key (.table .header []))
      | some (.table .implied entries) => some (t.set key (.table .header entries))
      | some _ => none
    t.change? false addHere path.dropLast

/-- Adds one more table under a header `[[a]]`. -/
def addElement? (path : List String) (t : Table) : Option Table :=
  match path.getLast? with
  | none => none
  | some key =>
    let addHere := fun t : Table =>
      match t.get? key with
      | none => some (t.set key (.tables [[]]))
      | some (.tables elements) => some (t.set key (.tables (elements ++ [[]])))
      | some _ => none
    t.change? false addHere path.dropLast

/-- Adds a value at the end of a path of dotted keys, seen from the table of the last header. -/
def addPairBelow? (header path : List String) (v : Tree) (t : Table) : Option Table :=
  t.change? false (addPair? path v) header

end Table

end TableSync.Toml
