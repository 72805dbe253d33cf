import TableSync.Field.Table

/-!
# What an extraction kept and what it dropped

Data that is lost must be seen to be lost: a `Report` counts the fields that were read and the lines
that were passed over, and lists every field whose text its parser refused.

* `Report.note` counts a field, and names it if its text was kept as it stands because the parser
  refused it; a field without a parser is only counted.
* `Report.skipLine` counts a line of which nothing was read.
* `Report.merge` adds up two tallies, for a category that is read from several files.
* `Extraction` is what reading the sources of a category gives: its records and the tally.

A `Fallback` is also what becomes of an entity that has no place in the document.
-/

set_option autoImplicit false

namespace TableSync

/-- A field whose parser refused its text, or an entity that found no place. -/
structure Fallback where
  /-- The entity, by its id. -/
  entity : String
  /-- The key of the field. -/
  key : String
  /-- The text that was refused, or why no place was found. -/
  raw : String
  deriving DecidableEq

/-- The tally of an extraction. -/
structure Report where
  /-- The number of records. -/
  records : Nat := 0
  /-- The number of fields that were stored. -/
  fields : Nat := 0
  /-- The fields that were refused, in their order. -/
  fallbacks : List Fallback := []
  /-- The number of lines of which nothing was read. -/
  skippedLines : Nat := 0
  deriving DecidableEq

namespace Report

/-- Counts a field of an entity. -/
def note (report : Report) (entity : String) (field : ReadField) : Report :=
  { report with
    fields := report.fields + 1
    fallbacks :=
      if field.reading = .fallback then
        report.fallbacks ++ [⟨entity, field.key, field.value.str?.getD ""⟩]
      else report.fallbacks }

/-- Counts a line that was passed over. -/
def skipLine (report : Report) : Report := { report with skippedLines := report.skippedLines + 1 }

/-- Two tallies taken together. -/
def merge (a b : Report) : Report where
  records := a.records + b.records
  fields := a.fields + b.fields
  fallbacks := a.fallbacks ++ b.fallbacks
  skippedLines := a.skippedLines + b.skippedLines

end Report

/-- The records of a category with the tally of their extraction. -/
structure Extraction where
  /-- The records by their ids. -/
  records : Record
  /-- What was counted on the way. -/
  report : Report

end TableSync
