import TableSync.Scan.Line
import TableSync.Scan.Report
import TableSync.Text.LetterCase

/-!
# Abilities

The ids of abilities, from the definitions `#define ABILITY_X id` of their header.

* `addDefine` is one definition: an ability with its display name and its id, if its value is an
  integer.  A definition with another value is counted as a skipped line, and one whose name has
  another stem is none of this category's.
* `parse` goes through all definitions of the header, in their order.
* `byId?` is the first ability with an id, since several names may have been given to one.
-/

set_option autoImplicit false

namespace TableSync.Abilities

/-- The header with the ids of abilities. -/
def header : String := "include/constants/abilities.h"

/-- The stem of the names of abilities. -/
def stem : Text := "ABILITY_".toList

/-- An ability. -/
def entry (suffix : Text) (id : Int) : Value :=
  .record ⟨[("name", .ofText (titleCase suffix)), ("id", .int id)]⟩

/-- One more definition.  An ability whose value is no integer is passed over. -/
def addDefine (done : Extraction) (d : Define) : Extraction :=
  match dropStart? stem d.name.toList with
  | none => done
  | some suffix =>
    match readInt? d.value with
    | none => ⟨done.records, done.report.skipLine⟩
    | some id =>
      ⟨done.records.insert d.name (entry suffix id),
        { done.report with
          records := done.report.records + 1
          fields := done.report.fields + 2 }⟩

/-- The document of abilities. -/
def parse (text : Text) : Extraction :=
  ((lines text).filterMap parseDefine?).foldl addDefine ⟨.empty, {}⟩

/-- The ability with a numeric id. -/
def byId? (abilities : Record) (id : Int) : Option String :=
  (abilities.fields.find? fun (_, ability) =>
    (ability.record?.bind fun ability => ability.int? "id") == some id).map Prod.fst

end TableSync.Abilities
