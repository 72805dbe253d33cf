import TableSync.Proofs.Data.Record

/-!
# Paths through records

A value that is set at the end of a path is read there, and nothing is changed off the way to it.
Where the path leads through a key that is missing, or under which no record stands, an empty record
is put there first; so setting always succeeds, and reading what has been set does, too.

* `Record.getPath?_cons` and `Record.setPath_cons` are one step on a path, for paths that go on
  behind it.  All inductions are on the path, with the record general.
* `Record.exchangePath_eq` says that an exchange reads and sets.  It opens the way first and reads
  then, which makes no difference to what is read (`Record.getPath?_getD`).
* `Record.getPath?_setPath_self` and `Record.getPath?_setPath_of_diverges` are the two laws of
  setting.  Two paths diverge if none of them is the start of the other one; a start of the path
  leads to a record that has been changed, and what is behind its end is not there any more.
* `Record.recordAt?` is the record at the end of a path, and `Record.keys_setPath` what becomes of
  the keys of the records on the way.
* `Record.IsSetAt` puts together what is known of a record in which a value has been set, and
  `Record.isSetAt_setPath` says that setting leads to such a record.
-/

set_option autoImplicit false

namespace TableSync

namespace Record

variable {r : Record} {key k : String} {p q rest : List String} {v : Value}

/-! ## One step on a path -/

theorem getPath?_cons (hrest : rest ≠ []) (r : Record) (key : String) :
    r.getPath? (key :: rest) = (r.record? key).bind fun inner => inner.getPath? rest := by
  cases rest with
  | nil => exact absurd rfl hrest
  | cons k rest => rfl

theorem setPath_cons (hrest : rest ≠ []) (r : Record) (key : String) (v : Value) :
    r.setPath (key :: rest) v =
      r.insert key (.record (((r.record? key).getD empty).setPath rest v)) := by
  cases rest with
  | nil => exact absurd rfl hrest
  | cons k rest => rfl

/-- Off the first key of a path, nothing depends on what is under it. -/
theorem getPath?_insert_of_ne (h : k ≠ key) (r : Record) (v : Value) (rest : List String) :
    (r.insert k v).getPath? (key :: rest) = r.getPath? (key :: rest) := by
  cases rest with
  | nil => exact get?_insert_of_ne h r v
  | cons l rest =>
    rw [getPath?_cons (List.cons_ne_nil l rest), getPath?_cons (List.cons_ne_nil l rest),
      record?_insert_of_ne h]

@[simp]
theorem getPath?_empty (p : List String) : empty.getPath? p = none := by
  cases p with
  | nil => rfl
  | cons key rest => cases rest <;> rfl

/-- On the way through a record that may be missing, an empty one does as well. -/
theorem getPath?_getD (hrest : rest ≠ []) (r : Record) (key : String) :
    ((r.record? key).getD empty).getPath? rest = r.getPath? (key :: rest) := by
  rw [getPath?_cons hrest]
  cases r.record? key with
  | none => exact getPath?_empty rest
  | some inner => rfl

/-! ## Exchanges -/

/-- **An exchange reads and sets**: it gives the value at the end of the path, and the record with
the other value there. -/
theorem exchangePath_eq (r : Record) (p : List String) (v : Value) :
    r.exchangePath p v = (r.getPath? p, r.setPath p v) := by
  induction p generalizing r with
  | nil => rfl
  | cons key rest ih =>
    cases rest with
    | nil => rfl
    | cons k rest =>
      rw [getPath?_cons (List.cons_ne_nil k rest), setPath_cons (List.cons_ne_nil k rest)]
      cases hrecord : r.record? key with
      | none =>
        simp only [exchangePath, hrecord, Option.isNone_none, if_true, record?_insert_self, ih,
          insert_insert, getPath?_empty, Option.bind_none, Option.getD_none]
      | some inner =>
        simp only [exchangePath, hrecord, Option.isNone_some, Bool.false_eq_true, if_false, ih,
          Option.bind_some, Option.getD_some]

/-! ## Setting

What is read at a path after another one has been set depends on how the two lie to each other: they
are the same, they part, or one goes on behind the other.  Nothing is said of the last case. -/

/-- What has been set is read. -/
theorem getPath?_setPath_self (hp : p ≠ []) (r : Record) (v : Value) :
    (r.setPath p v).getPath? p = some v := by
  induction p generalizing r with
  | nil => exact absurd rfl hp
  | cons key rest ih =>
    cases rest with
    | nil => exact get?_insert_self r key v
    | cons k rest =>
      rw [setPath_cons (List.cons_ne_nil k rest), getPath?_cons (List.cons_ne_nil k rest),
        record?_insert_self]
      exact ih (List.cons_ne_nil k rest) _

/-- Where a path parts from the one at whose end a value is set, nothing changes. -/
theorem getPath?_setPath_of_diverges (hpq : ¬ p <+: q) (hqp : ¬ q <+: p) (r : Record)
    (v : Value) : (r.setPath p v).getPath? q = r.getPath? q := by
  induction p generalizing r q with
  | nil => exact absurd List.nil_prefix hpq
  | cons key rest ih =>
    cases q with
    | nil => exact absurd List.nil_prefix hqp
    | cons k q =>
      by_cases hkey : key = k
      · -- below a key that both paths have, they part still
        obtain rfl := hkey
        have hrestq : ¬ rest <+: q := fun h => hpq (List.cons_prefix_cons.2 ⟨rfl, h⟩)
        have hqrest : ¬ q <+: rest := fun h => hqp (List.cons_prefix_cons.2 ⟨rfl, h⟩)
        have hrest : rest ≠ [] := fun h => hrestq (h ▸ List.nil_prefix)
        have hq : q ≠ [] := fun h => hqrest (h ▸ List.nil_prefix)
        rw [setPath_cons hrest, getPath?_cons hq, record?_insert_self, Option.bind_some,
          ih hrestq hqrest, getPath?_getD hq]
      · cases rest with
        | nil => exact getPath?_insert_of_ne hkey r v q
        | cons l rest =>
          rw [setPath_cons (List.cons_ne_nil l rest)]
          exact getPath?_insert_of_ne hkey r _ q

/-! ## Keys on the way -/

/-- The record at the end of a path; no path leads to the record itself. -/
def recordAt? (r : Record) : List String → Option Record
  | [] => some r
  | key :: rest => (r.record? key).bind fun inner => inner.recordAt? rest

/-- The record at the end of a path is the value there. -/
theorem recordAt?_eq (hp : p ≠ []) (r : Record) :
    r.recordAt? p = (r.getPath? p).bind Value.record? := by
  induction p generalizing r with
  | nil => exact absurd rfl hp
  | cons key rest ih =>
    cases rest with
    | nil =>
      show (r.record? key).bind some = r.record? key
      cases r.record? key <;> rfl
    | cons k rest =>
      rw [recordAt?, getPath?_cons (List.cons_ne_nil k rest), Option.bind_assoc]
      exact congrArg _ (funext fun inner => ih (List.cons_ne_nil k rest) inner)

theorem recordAt?_getD (r : Record) (key : String) (rest : List String) :
    (((r.record? key).getD empty).recordAt? rest).getD empty =
      (r.recordAt? (key :: rest)).getD empty := by
  rw [recordAt?]
  cases r.record? key with
  | some inner => rfl
  | none =>
    cases rest <;> rfl

/-- On the way to a value that is set, every record keeps its keys, and a key that is new there
goes to the end. -/
theorem keys_setPath (q : List String) (k : String) (rest : List String) (r : Record) (v : Value) :
    ((r.setPath (q ++ k :: rest) v).recordAt? q).map keys =
      some (withKey ((r.recordAt? q).getD empty).keys k) := by
  induction q generalizing r with
  | nil =>
    obtain ⟨inner, hinsert⟩ : ∃ inner, r.setPath (k :: rest) v = r.insert k inner := by
      cases rest with
      | nil => exact ⟨v, rfl⟩
      | cons l rest => exact ⟨_, rfl⟩
    show some (r.setPath (k :: rest) v).keys = some (withKey r.keys k)
    rw [hinsert, keys_insert]
  | cons key q ih =>
    have hne : q ++ k :: rest ≠ [] := List.append_ne_nil_of_right_ne_nil q (List.cons_ne_nil k rest)
    rw [List.cons_append, setPath_cons hne, ← recordAt?_getD, ← ih]
    rw [recordAt?, record?_insert_self, Option.bind_some]

/-! ## A value that has been set -/

/-- A record has become another one, in which a value is at the end of a path. -/
structure IsSetAt (r r' : Record) (p : List String) (v : Value) : Prop where
  /-- The value is read at the end of the path. -/
  value : r'.getPath? p = some v
  /-- What is read at a path that parts from this one is as before. -/
  frame : ∀ q, ¬ p <+: q → ¬ q <+: p → r'.getPath? q = r.getPath? q
  /-- On the way, a record keeps its keys, and gets the next one of the path at its end if that is
  new. -/
  keys : ∀ q k rest, p = q ++ k :: rest →
    (r'.recordAt? q).map keys = some (withKey ((r.recordAt? q).getD empty).keys k)

theorem isSetAt_setPath (hp : p ≠ []) (r : Record) (v : Value) : r.IsSetAt (r.setPath p v) p v where
  value := getPath?_setPath_self hp r v
  frame _ hpq hqp := getPath?_setPath_of_diverges hpq hqp r v
  keys q k rest h := by
    rw [h]
    exact keys_setPath q k rest r v

end Record

end TableSync
