import TableSync.Data.Value

/-!
# Records as ordered maps

Operations on records.  Every operation looks for the first field with its key; inserting under
a key that is present keeps the field's position, and a new key goes to the end.

* `Record.get?`, `Record.insert`, `Record.remove` are the map's operations.
* `Record.getPath?` and `Record.setPath` follow a path of keys through nested records, and
  `Record.exchangePath` gives the value before as well.
* `Record.ofFields` collects named values, a later one replacing an earlier one in place.
* `Record.UniqueKeys` says that no key occurs twice, at every level.
-/

set_option autoImplicit false

namespace TableSync

/-! ## Lists of named values -/

/-- The first value under a key. -/
def findField (key : String) : List (String × Value) → Option Value
  | [] => none
  | (k, v) :: fs => if k = key then some v else findField key fs

/-- Puts a value under a key: in place of the first one there, or at the end. -/
def insertField (key : String) (value : Value) : List (String × Value) → List (String × Value)
  | [] => [(key, value)]
  | (k, v) :: fs => if k = key then (k, value) :: fs else (k, v) :: insertField key value fs

/-- Drops the first field with a key. -/
def removeField (key : String) : List (String × Value) → List (String × Value)
  | [] => []
  | (k, v) :: fs => if k = key then fs else (k, v) :: removeField key fs

namespace Record

/-- The record without fields. -/
def empty : Record := ⟨[]⟩

/-- The number of fields. -/
def size (r : Record) : Nat := r.fields.length

/-- The keys, in order. -/
def keys (r : Record) : List String := r.fields.map Prod.fst

/-- The value of a field. -/
def get? (r : Record) (key : String) : Option Value := findField key r.fields

/-- Whether there is a field with this key. -/
def contains (r : Record) (key : String) : Bool := (r.get? key).isSome

/-- Sets a field. -/
def insert (r : Record) (key : String) (value : Value) : Record :=
  ⟨insertField key value r.fields⟩

/-- Sets a field, and gives the value that was there before. -/
def exchange (r : Record) (key : String) (value : Value) : Option Value × Record :=
  (r.get? key, r.insert key value)

/-- Drops a field. -/
def remove (r : Record) (key : String) : Record := ⟨removeField key r.fields⟩

/-- Inserts named values one after the other. -/
def insertAll (r : Record) (fields : List (String × Value)) : Record :=
  fields.foldl (fun r (k, v) => r.insert k v) r

/-- Collects named values into a record. -/
def ofFields (fields : List (String × Value)) : Record := empty.insertAll fields

/-- Applies a function to every value, keeping keys and order. -/
def mapValues (f : String → Value → Value) (r : Record) : Record :=
  ⟨r.fields.map fun (k, v) => (k, f k v)⟩

/-! ## Typed fields -/

/-- The string under a key, if there is one. -/
def str? (r : Record) (key : String) : Option String := (r.get? key).bind Value.str?

/-- The integer under a key, if there is one. -/
def int? (r : Record) (key : String) : Option Int := (r.get? key).bind Value.int?

/-- The list under a key, if there is one. -/
def items? (r : Record) (key : String) : Option (List Value) := (r.get? key).bind Value.items?

/-- The nested record under a key, if there is one. -/
def record? (r : Record) (key : String) : Option Record := (r.get? key).bind Value.record?

/-- Changes the nested record under a key, if there is one. -/
def modifyRecord? (r : Record) (key : String) (f : Record → Record) : Option Record :=
  (r.record? key).map fun inner => r.insert key (.record (f inner))

/-! ## Paths -/

/-- The value at the end of a path; no path leads to the record itself. -/
def getPath? (r : Record) : List String → Option Value
  | [] => none
  | [key] => r.get? key
  | key :: rest => (r.record? key).bind fun inner => inner.getPath? rest

/-- Sets the value at the end of a path.  Records missing on the way are created, and a value
that is not a record is replaced by one. -/
def setPath (r : Record) : List String → Value → Record
  | [], _ => r
  | [key], value => r.insert key value
  | key :: rest, value =>
    r.insert key (.record (((r.record? key).getD empty).setPath rest value))

/-- Sets the value at the end of a path, and gives the value that was there before.  Where there is
no record on the way, an empty one is put in first. -/
def exchangePath (r : Record) : List String → Value → Option Value × Record
  | [], _ => (none, r)
  | [key], value => r.exchange key value
  | key :: rest, value =>
    let opened := if (r.record? key).isNone then r.insert key (.record empty) else r
    match opened.record? key with
    | none => (none, opened)
    | some inner =>
      let (before?, inner) := inner.exchangePath rest value
      (before?, opened.insert key (.record inner))

end Record

/-! ## Keys are unique -/

mutual

/-- No record inside the value has a key twice. -/
def Value.UniqueKeys : Value → Prop
  | .int _ => True
  | .str _ => True
  | .list items => UniqueKeysItems items
  | .conditional ⟨_, _, _, t, f, _, _⟩ => t.UniqueKeys ∧ f.UniqueKeys
  | .record ⟨fields⟩ => (fields.map Prod.fst).Nodup ∧ UniqueKeysFields fields
termination_by structural v => v

/-- No record inside the items has a key twice. -/
def UniqueKeysItems : List Value → Prop
  | [] => True
  | v :: vs => v.UniqueKeys ∧ UniqueKeysItems vs
termination_by structural vs => vs

/-- No record inside the fields has a key twice. -/
def UniqueKeysFields : List (String × Value) → Prop
  | [] => True
  | (_, v) :: fs => v.UniqueKeys ∧ UniqueKeysFields fs
termination_by structural fs => fs

end

/-- No key occurs twice in the record or in a record inside it. -/
def Record.UniqueKeys (r : Record) : Prop := (Value.record r).UniqueKeys

end TableSync
