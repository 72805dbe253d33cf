import TableSync.Proofs.Field.Parsers

/-!
# String literals of fields, written and read back

The two forms of a string literal, with one segment a line or with one segment in all, are read as
the text they were written for, whatever that text holds.  Quotes, backslashes and line feeds are
escaped in a segment, so nothing in a text can look like the end of it.

* `exists_segmentLines` says that the segments on several lines start and end with a quote, blanks
  aside, which is how the reader knows where the literal begins and ends.
* `text_segments_segmentLines` is about the segments on several lines: together they hold the
  escaped text, with the line feeds between its lines as escapes at the ends of the segments.  It is
  an induction on the lines of the text; the last of them has a segment without such an escape.
* `unwrapLiteral_compoundString` takes the name and the parentheses of the literal off.
* `description?_compoundString` is the literal on several lines, and `localized?_localized` the one
  on a single line; **`read_emittedLiteral`** puts both together.

What escaping does to a text, and that it is undone, is in the module on quoted texts.
-/

set_option autoImplicit false

namespace TableSync

/-! ## Segments on several lines -/

namespace Emit

/-- What stands before the quote of a segment on a line of its own. -/
def segmentStart : Text := '\n' :: continuationIndent

theorem segmentLines_singleton (l : Text) :
    segmentLines [l] = segmentStart ++ '"' :: (escape l ++ '"' :: []) := by
  simp [segmentLines, segmentStart]

theorem segmentLines_cons_cons (l m : Text) (ls : List Text) :
    segmentLines (l :: m :: ls) =
      segmentStart ++ '"' :: (escape (l ++ ['\n']) ++ '"' :: segmentLines (m :: ls)) := by
  have hnewline : escape ['\n'] = ['\\', 'n'] := by decide
  simp [segmentLines, segmentStart, escape_append, hnewline]

/-- Blanks aside, the segments of a text start and end with a quote. -/
theorem exists_segmentLines (l : Text) (ls : List Text) :
    ∃ q, segmentLines (l :: ls) = segmentStart ++ '"' :: (q ++ ['"']) := by
  induction ls generalizing l with
  | nil => exact ⟨escape l, segmentLines_singleton l⟩
  | cons m ls ih =>
    obtain ⟨q, hq⟩ := ih m
    refine ⟨escape (l ++ ['\n']) ++ '"' :: (segmentStart ++ '"' :: q), ?_⟩
    rw [segmentLines_cons_cons, hq]
    simp

end Emit

/-- **The segments of a text hold the escaped text**: the line feeds at which the text was cut are
the escapes at the ends of the segments. -/
theorem text_segments_segmentLines (l : Text) (ls : List Text) :
    (segments (Emit.segmentLines (l :: ls))).text = escape (joinWith ['\n'] (l :: ls)) := by
  have hstart : '"' ∉ Emit.segmentStart := by decide
  induction ls generalizing l with
  | nil =>
    rw [Emit.segmentLines_singleton, text_segments_quoted hstart, joinWith]
    exact List.append_nil _
  | cons m ls ih =>
    rw [Emit.segmentLines_cons_cons, text_segments_quoted hstart, ih m, joinWith_cons_cons,
      escape_append (l ++ ['\n'])]

/-! ## The literal around the segments -/

theorem unwrapLiteral_compoundString (s : Text) :
    unwrapLiteral ("COMPOUND_STRING(".toList ++ (s ++ [')'])) = s := by
  simp only [unwrapLiteral, dropStart?_append, Option.some_or, dropEnd?_append, Option.getD_some]

/-- **A literal on several lines is read as its text.** -/
theorem description?_compoundString (t : Text) :
    description? (Emit.compoundString t) = some (.ofText t) := by
  by_cases hempty : t = []
  · subst hempty
    decide
  · have hjoin : joinWith ['\n'] (splitOn ['\n'] t) = t := joinWith_splitOn '\n' t
    obtain ⟨l, ls, hsplit⟩ := List.exists_cons_of_ne_nil (splitOn_ne_nil '\n' t)
    obtain ⟨q, hq⟩ := Emit.exists_segmentLines l ls
    have hmark : ∀ c : Char, isBlank c = false → IsTrimmed [c] := fun c hc =>
      isTrimmed_of_forall (by simpa using hc)
    have hshape : Emit.compoundString t =
        "COMPOUND_STRING(".toList ++ (Emit.segmentLines (l :: ls) ++ [')']) := by
      simp [Emit.compoundString, hempty, hsplit]
    have htrim : trim (Emit.compoundString t) = Emit.compoundString t := by
      rw [hshape]
      exact trim_eq_self (isTrimmed_append (isTrimmed_of_forall (by decide)) (by decide)
        (hmark ')' rfl) (by simp) _)
    -- the line feed and the indent before the first quote are trimmed off
    have hinner : trim (Emit.segmentLines (l :: ls)) = '"' :: (q ++ ['"']) := by
      rw [hq, trim_blanks_append (by decide)]
      exact trim_eq_self (isTrimmed_append (hmark '"' rfl) (by simp) (hmark '"' rfl) (by simp) q)
    have htext : (segments ('"' :: (q ++ ['"']))).text = escape t := by
      rw [← hjoin, hsplit, ← text_segments_segmentLines, hq, segments_append (by decide)]
    have hquote : startsWith ['"'] ('"' :: (q ++ ['"'])) = true := startsWith_iff.2 ⟨_, rfl⟩
    rw [description?, htrim, hshape, unwrapLiteral_compoundString, hinner]
    simp only [hquote, if_true, htext, unescape_escape]

/-- **What is written for a text is read as the text**, in both forms of a string literal. -/
theorem read_emittedLiteral (s : String) :
    description? (Emit.compoundString s.toList) = some (.str s) ∧
      localized? (Emit.localized s.toList) = some (.str s) := by
  have htext : Value.ofText s.toList = .str s := by rw [Value.ofText, String.ofList_toList]
  rw [← htext]
  exact ⟨description?_compoundString s.toList, localized?_localized s.toList⟩

/-- A text of an empty line and a line that looks like the end of a literal. -/
example : Emit.compoundString "\n\\n\")".toList =
    "COMPOUND_STRING(\n            \"\\n\"\n            \"\\\\n\\\")\")".toList := by decide

end TableSync
