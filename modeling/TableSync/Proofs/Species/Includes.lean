import TableSync.Category.Species
import TableSync.Proofs.Emit.Collapse

/-!
# Including the generated table

The hand-written table includes one table a generation.  These includes give way to one of the
generated table.

* `collapseIncludes_eq_ok_iff` says when that succeeds: exactly if there is an include, and then the
  text is the collapsed one.
* `lines_collapseIncludes` counts the lines of the collapsed text, and says that none of them is an
  include of a generation: a text that has been collapsed is refused by a second run, and never gets
  a second include.
* `collapseIncludes_frame` says which lines stay, of any text that is collapsed and of this one.

The marks are looked for in lines, and the text is put together again from pieces, which are the
lines with their ends; `filter_lines` and `exists_include_iff` go from one to the other.  A mark
does not depend on the line end, since it holds neither of its characters
(`isInLine_includeMarker`).
-/

set_option autoImplicit false

namespace TableSync.Species

variable {pristine out : Text}

/-- An include of the table of a generation, blanks before it aside. -/
def includeMarker : Marker := .trimmedStartsWith generationInclude

theorem isInLine_includeMarker : includeMarker.IsInLine := by decide

theorem accepts_generatedInclude :
    includeMarker.accepts (generatedInclude ++ ['\n']) = false := by decide

/-- Lines have the includes that the pieces of the text have. -/
theorem filter_lines (text : Text) :
    (lines text).filter (!includeMarker.accepts ·) =
      ((pieces text).filter (!includeMarker.accepts ·)).map chomp := by
  rw [lines, List.filter_map]
  refine congrArg (List.map chomp) (List.filter_congr fun p _ => ?_)
  rw [Function.comp_apply, Marker.accepts_chomp isInLine_includeMarker]

theorem exists_include_iff (text : Text) :
    (∃ line ∈ lines text, includeMarker.accepts line = true) ↔
      ∃ line ∈ pieces text, includeMarker.accepts line = true := by
  have hchomp : includeMarker.accepts ∘ chomp = includeMarker.accepts :=
    funext (Marker.accepts_chomp isInLine_includeMarker)
  rw [← List.any_eq_true, ← List.any_eq_true, lines, List.any_map, hchomp]

/-- **The includes are collapsed exactly if there is one.** -/
theorem collapseIncludes_eq_ok_iff :
    collapseIncludes pristine = .ok out ↔
      (∃ line ∈ lines pristine, includeMarker.accepts line = true) ∧
        out = collapseLines pristine includeMarker generatedInclude := by
  rw [collapseIncludes, ← List.any_eq_true, ← includeMarker]
  cases (lines pristine).any includeMarker.accepts with
  | false => simp [Marker.notFound, fail]
  | true => simp [eq_comm]

/-- **What is left when the includes are collapsed**: one line more than those without an include,
and none with one. -/
theorem lines_collapseIncludes (h : collapseIncludes pristine = .ok out) :
    (lines out).length = ((lines pristine).filter (!includeMarker.accepts ·)).length + 1 ∧
      ∀ line ∈ lines out, includeMarker.accepts line = false := by
  obtain ⟨hmark, rfl⟩ := collapseIncludes_eq_ok_iff.1 h
  obtain ⟨i, hi⟩ := Marker.exists_isFirst ((exists_include_iff pristine).1 hmark)
  have hline : '\n' ∉ generatedInclude := by decide
  have hpieces := pieces_collapseLines hi hline
  obtain ⟨before, after, hcollapsed, hkept⟩ := exists_collapsed_eq hi generatedInclude
  constructor
  · have hlength := congrArg List.length hkept
    rw [List.length_append] at hlength
    rw [filter_lines, lines, List.length_map, List.length_map, hpieces, hcollapsed,
      List.length_append, List.length_cons]
    omega
  · rw [lines, List.forall_mem_map, hpieces]
    intro line hline
    rw [Marker.accepts_chomp isInLine_includeMarker]
    exact accepts_of_mem_collapsed hi accepts_generatedInclude line hline

/-- **Collapsing keeps all lines without the mark, and leaves nothing to collapse.**  A text without
the mark stays as it is; in a text with it, the new line stands for the first line with the mark and
the others with it are left out.  The includes of the generations are collapsed in this way exactly
if there is one; then there is one line more than those without an include, and none with one. -/
theorem collapseIncludes_frame {replacement : Text} (hline : '\n' ∉ replacement) (text : Text)
    (m : Marker) (pristine : Text) :
    ((∀ line ∈ pieces text, m.accepts line = false) → collapseLines text m replacement = text) ∧
    ((∃ line ∈ pieces text, m.accepts line = true) →
      ∃ i, m.IsFirst (pieces text) 0 i ∧
        pieces (collapseLines text m replacement) = (pieces text).take i
          ++ (replacement ++ ['\n']) :: ((pieces text).drop (i + 1)).filter (!m.accepts ·)) ∧
    collapseLines (collapseLines text m replacement) m replacement =
      collapseLines text m replacement ∧
    ((∃ out, collapseIncludes pristine = .ok out) ↔
      ∃ line ∈ lines pristine, startsWith generationInclude (trimStart line) = true) ∧
    ∀ out, collapseIncludes pristine = .ok out →
      (lines out).length = ((lines pristine).filter
        fun line => !startsWith generationInclude (trimStart line)).length + 1 ∧
      ∀ line ∈ lines out, startsWith generationInclude (trimStart line) = false := by
  refine ⟨fun hnone => collapseLines_eq_self hnone replacement, fun hmark => ?_,
    collapseLines_collapseLines text m hline, ?_, fun out h => lines_collapseIncludes h⟩
  · obtain ⟨i, hi⟩ := Marker.exists_isFirst hmark
    exact ⟨i, hi, pieces_collapseLines hi hline⟩
  · constructor
    · rintro ⟨out, h⟩
      exact (collapseIncludes_eq_ok_iff.1 h).1
    · exact fun hmark => ⟨_, collapseIncludes_eq_ok_iff.2 ⟨hmark, rfl⟩⟩

/-- Includes of two generations, the second one on a last line without a line feed. -/
def includeSample : Text :=
  "\x7b\n    #include \"species_info/gen_1.h\"\r\n    // end\n#include \"species_info/gen_2.h\"".toList

/-- The includes give way to a line that is an include itself, and to that of the generated
table. -/
theorem collapseIncludes_frame_sample :
    '\n' ∉ "#include \"species_info/gen_9.h\"".toList ∧
    (∃ line ∈ pieces includeSample, includeMarker.accepts line = true) ∧
    collapseLines includeSample includeMarker "#include \"species_info/gen_9.h\"".toList =
      "\x7b\n#include \"species_info/gen_9.h\"\n    // end\n".toList ∧
    ∃ out, collapseIncludes includeSample = .ok out ∧ (lines out).length = 3 := by
  have hline : '\n' ∉ "#include \"species_info/gen_9.h\"".toList := by decide
  have hmark : ∃ line ∈ pieces includeSample, includeMarker.accepts line = true := by decide
  obtain ⟨-, hsome, -, hok, hout⟩ :=
    collapseIncludes_frame hline includeSample includeMarker includeSample
  obtain ⟨i, hi, hpieces⟩ := hsome hmark
  have hfirst : includeMarker.IsFirst (pieces includeSample) 0 1 := by decide
  obtain rfl := hfirst.unique hi
  obtain ⟨out, h⟩ := hok.2 (by decide)
  refine ⟨hline, hmark, ?_, out, h, ?_⟩
  · rw [← flatten_pieces (collapseLines _ _ _), hpieces]
    decide
  · rw [(hout out h).1]
    decide

end TableSync.Species
