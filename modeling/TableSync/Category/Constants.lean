import TableSync.Scan.Line
import TableSync.Scan.Report
import TableSync.Text.LetterCase

/-!
# Constants

The definitions of the main header, in groups by the start of their names, and three single values.
The order of the lists decides: a name belongs to the first single value whose name it starts with,
or else to the first group whose stem it starts with.

* `groups` and `singles` are the lists, and `initial` is the document with all groups empty and all
  single values at their defaults.
* `addDefine` is one definition.  A name that belongs to no group is passed over and is not counted,
  and one definition is left out although its name has the stem of a group (`excluded`).
* `parse` goes through the definitions in their order, so a later definition of a name takes the
  place of an earlier one.
-/

set_option autoImplicit false

namespace TableSync.Constants

/-- The header with the constants. -/
def header : String := "include/constants/pokemon.h"

/-- A group of constants: the stem of their names, the key of the group, and the words that are
left out of their display names. -/
structure Group where
  /-- What the names of the group start with. -/
  stem : String
  /-- The key of the group in the document. -/
  key : String
  /-- What is left out of a display name, where it stands there first. -/
  dropped : String

/-- The groups, those with longer stems before those with shorter ones. -/
def groups : List Group :=
  [⟨"TYPE_", "types", "Type "⟩, ⟨"EGG_GROUP_", "egg_groups", "Egg Group "⟩,
    ⟨"NATURE_", "natures", "Nature "⟩, ⟨"SPLIT_", "move_splits", "Split "⟩,
    ⟨"GROWTH_", "growth_rates", "Growth "⟩, ⟨"BODY_COLOR_", "body_colors", "Body Color "⟩,
    ⟨"EVO_MODE_", "evolution_modes", "Evo Mode "⟩, ⟨"EVO_", "evolution_types", "Evo "⟩,
    ⟨"SPECIES_FLAG_", "species_flags", "Species Flag "⟩]

/-- A single value: its name, its key, and what it is if it is not defined. -/
structure Single where
  /-- The name that is defined. -/
  name : String
  /-- The key of the value in the document. -/
  key : String
  /-- The value where no definition is found. -/
  default : Int

/-- The single values. -/
def singles : List Single :=
  [⟨"SHINY_ODDS", "shiny_odds", 8⟩, ⟨"STANDARD_FRIENDSHIP", "standard_friendship", 70⟩,
    ⟨"LEGENDARY_PERFECT_IV_COUNT", "legendary_perfect_iv_count", 3⟩]

/-- The definition that belongs to no group although its name starts like one. -/
def excluded : String := "TYPE_NONE"

/-- The document before any definition has been read. -/
def initial : Record :=
  ⟨groups.map (fun g => (g.key, .record .empty)) ++ singles.map fun s => (s.key, .int s.default)⟩

/-- A constant of a group. -/
def entry (g : Group) (d : Define) : Value :=
  .record ⟨[("name", .ofText (replaceFirst g.dropped.toList [] (titleCase d.name.toList))),
    ("value", .scalar d.value), ("description", .ofText d.comment)]⟩

/-- One more definition. -/
def addDefine (done : Extraction) (d : Define) : Extraction :=
  if d.name = excluded then done
  else
    match singles.find? fun s => startsWith s.name.toList d.name.toList with
    | some s =>
      ⟨done.records.insert s.key (.scalar d.value),
        { done.report with fields := done.report.fields + 1 }⟩
    | none =>
      match groups.find? fun g => startsWith g.stem.toList d.name.toList with
      | none => done
      | some g =>
        let group := ((done.records.record? g.key).getD .empty).insert d.name (entry g d)
        ⟨done.records.insert g.key (.record group),
          { done.report with
            records := done.report.records + 1
            fields := done.report.fields + 3 }⟩

/-- The document of constants. -/
def parse (text : Text) : Extraction :=
  ((lines text).filterMap parseDefine?).foldl addDefine ⟨initial, {}⟩

end TableSync.Constants
