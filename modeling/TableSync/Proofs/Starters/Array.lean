import TableSync.Proofs.Emit.Region
import TableSync.Proofs.Starters.Reading

/-!
# Splicing the array

The array is looked for by three lines in turn: one with its mark, one that starts with a brace, and
one with a closing brace.  What stands between the last two is replaced.  That is the array if its
brace stands on the line after its mark; a brace on the mark's own line is not seen, and the splice
then takes the next brace of the file for it.

* `IsPlace` are the three lines, and `exists_isPlace` says that every splice which succeeds has
  them.
* `IsFramed` says that a text has kept all but the lines of the array; it is said of any two texts,
  without the splice and without the place that the splice has found.
* `isFramed_of_opensNext` is the good case: the brace that the splice finds is the one after the
  mark.
* `IsPlace.opensNext` is the other direction.  Starters are chosen of which there are as many as the
  text has lines, so that a line behind theirs has a larger number than any line of the text.  If
  the splice has then replaced the array alone, the first closing brace behind the mark is the one
  that the splice has found, and by the number of lines there is no line between the mark and the
  opening one.
* `spliceArray_frame` says what a splice replaces, and for which texts that is the array.

Lines are pieces here, with their line ends, and are told apart by their numbers.
-/

set_option autoImplicit false

namespace TableSync.Starters

/-! ## The place of the array

The marks of the three lines, as the splice has them. -/

/-- The mark of the array. -/
def arrayMarker : Marker := .contains arrayMark

/-- A brace at the start of a line, blanks aside. -/
def openingMarker : Marker := .trimmedStartsWith ['{']

/-- A closing brace. -/
def closingMarker : Marker := .contains ['}']

/-- The numbers of the lines that the splice looks for. -/
structure IsPlace (text : Text) (mark opening closing : Nat) : Prop where
  /-- The first line with the mark of the array. -/
  marked : arrayMarker.IsFirst (pieces text) 0 mark
  /-- The first line after it that starts with an opening brace. -/
  opened : openingMarker.IsFirst (pieces text) (mark + 1) opening
  /-- The first line after that one with a closing brace. -/
  closed : closingMarker.IsFirst (pieces text) (opening + 1) closing

/-- The lines up to the first one with the mark and those from the next closing brace on have stayed
as they are, and between them stand the new lines, after the line that opens the array at most. -/
def IsFramed (text : Text) (body : List Text) (out : Text) : Prop :=
  ∃ mark closing head, arrayMarker.IsFirst (pieces text) 0 mark ∧
    closingMarker.IsFirst (pieces text) (mark + 1) closing ∧
    (head = [] ∨ ∃ i line, mark < i ∧ i < closing ∧ (pieces text)[i]? = some line ∧
      openingMarker.accepts line = true ∧ head = [line]) ∧
    out = ((pieces text).take (mark + 1)).flatten ++ head.flatten ++ unlines body
      ++ ((pieces text).drop closing).flatten

/-- The line after the first one with the mark opens the array, and does not close it. -/
def OpensNext (text : Text) : Prop :=
  ∃ mark line, arrayMarker.IsFirst (pieces text) 0 mark ∧ (pieces text)[mark + 1]? = some line ∧
    openingMarker.accepts line = true ∧ closingMarker.accepts line = false

variable {text out : Text} {records : Record} {mark opening closing : Nat}

namespace IsPlace

theorem closing_lt (h : IsPlace text mark opening closing) : closing < (pieces text).length := by
  obtain ⟨line, hline, -⟩ := h.closed.exists_line
  exact (List.getElem?_eq_some_iff.1 hline).1

/-- What a splice puts out. -/
theorem spliceArray_eq (h : IsPlace text mark opening closing) (records : Record) :
    spliceArray text records = .ok (((pieces text).take (opening + 1)).flatten
      ++ unlines (arrayBody records) ++ ((pieces text).drop closing).flatten) :=
  spliceRegion_of_located (List.cons_ne_nil _ _) (.cons h.marked (.cons h.opened (.nil _))) h.closed
    arrayFile (arrayBody records)

end IsPlace

/-- A splice that has succeeded has found its three lines. -/
theorem exists_isPlace (h : spliceArray text records = .ok out) :
    ∃ mark opening closing, IsPlace text mark opening closing := by
  obtain ⟨start, closing, hanchors, hclosed⟩ := exists_located_of_spliceRegion h
  cases hanchors with
  | cons hmarked hrest =>
    cases hrest with
    | cons hopened hnil =>
      cases hnil
      exact ⟨_, _, closing, hmarked, hopened, hclosed⟩

/-! ## Which lines are replaced

Both directions of the condition.  The first one is about any starters, and the second one needs
only one choice of them. -/

/-- Where the line after the mark opens the array, the splice replaces the lines of the array. -/
theorem isFramed_of_opensNext (h : OpensNext text) (hsplice : spliceArray text records = .ok out) :
    IsFramed text (arrayBody records) out := by
  obtain ⟨mark, line, hmarked, hline, hopens, hopen⟩ := h
  obtain ⟨mark', opening, closing, hplace⟩ := exists_isPlace hsplice
  obtain rfl := hmarked.unique hplace.marked
  have hopened : openingMarker.IsFirst (pieces text) (mark + 1) (mark + 1) := by
    refine ⟨Nat.le_refl _, ?_, fun k hk hle => absurd hk (Nat.not_lt.2 hle)⟩
    rw [hline]
    exact hopens
  obtain rfl := hopened.unique hplace.opened
  have hclosed : closingMarker.IsFirst (pieces text) (mark + 1) closing := by
    refine hplace.closed.of_succ ?_
    rw [hline]
    exact hopen
  rw [hplace.spliceArray_eq] at hsplice
  obtain rfl := Except.ok.inj hsplice
  obtain ⟨hlt, rfl⟩ := List.getElem?_eq_some_iff.1 hline
  refine ⟨mark, closing, [(pieces text)[mark + 1]], hmarked, hclosed,
    .inr ⟨mark + 1, _, Nat.lt_succ_self mark, hplace.closed.1, hline, hopens, rfl⟩, ?_⟩
  rw [← List.take_append_getElem hlt, List.flatten_append]

/-- The pieces of a text that has kept all but the lines of the array. -/
theorem IsFramed.exists_pieces {body : List Text} (h : IsFramed text body out)
    (hbody : ∀ line ∈ body, '\n' ∉ line) :
    ∃ mark closing head, arrayMarker.IsFirst (pieces text) 0 mark ∧
      closingMarker.IsFirst (pieces text) (mark + 1) closing ∧ head.length ≤ 1 ∧
      (∀ l ∈ head, closingMarker.accepts l = false) ∧
      pieces out = (pieces text).take (mark + 1)
        ++ (head ++ body.map (· ++ ['\n']) ++ (pieces text).drop closing) := by
  obtain ⟨mark, closing, head, hmarked, hclosed, hhead, rfl⟩ := h
  obtain ⟨line, hline, -⟩ := hclosed.exists_line
  have hlt := (List.getElem?_eq_some_iff.1 hline).1
  have hparts : head.length ≤ 1 ∧ (∀ l ∈ head, closingMarker.accepts l = false) ∧
      ∀ l ∈ head, IsEnded l := by
    rcases hhead with rfl | ⟨i, line, hi, hi', hline, -, rfl⟩
    · exact ⟨Nat.zero_le 1, fun l hl => absurd hl List.not_mem_nil,
        fun l hl => absurd hl List.not_mem_nil⟩
    · have hopen := hclosed.2.2 i hi' hi
      rw [hline] at hopen
      have hmem : line ∈ (pieces text).take closing := by
        refine List.mem_of_getElem? (i := i) ?_
        rw [List.getElem?_take_of_lt hi', hline]
      simp only [List.forall_mem_singleton]
      exact ⟨Nat.le_refl 1, hopen, isEnded_of_mem_take hlt line hmem⟩
  obtain ⟨hlength, hopen, hended⟩ := hparts
  have hkept : ∀ p ∈ (pieces text).take (mark + 1) ++ head, IsEnded p :=
    List.forall_mem_append.2
      ⟨isEnded_of_mem_take (Nat.lt_of_le_of_lt hclosed.1 hlt), hended⟩
  refine ⟨mark, closing, head, hmarked, hclosed, hlength, hopen, ?_⟩
  rw [← List.flatten_append, pieces_spliced hkept hbody (pieces_drop text closing),
    List.append_assoc, List.append_assoc head]

/-- The pieces of what a splice puts out. -/
theorem IsPlace.pieces_eq (h : IsPlace text mark opening closing)
    (hsplice : spliceArray text records = .ok out)
    (hbody : ∀ line ∈ arrayBody records, '\n' ∉ line) :
    pieces out = (pieces text).take (opening + 1)
      ++ ((arrayBody records).map (· ++ ['\n']) ++ (pieces text).drop closing) := by
  rw [h.spliceArray_eq] at hsplice
  obtain rfl := Except.ok.inj hsplice
  exact pieces_spliced (isEnded_of_mem_take (Nat.lt_of_le_of_lt h.closed.1 h.closing_lt)) hbody
    (pieces_drop text closing)

/-- If as many lines are put in as the text has, and yet the array alone is replaced, then the line
after the mark opens it: else a closing brace comes too early, or a line too many stays. -/
theorem IsPlace.opensNext {closing' : Nat} {head new : List Text}
    (h : IsPlace text mark opening closing)
    (hclosed : closingMarker.IsFirst (pieces text) (mark + 1) closing') (hhead : head.length ≤ 1)
    (hopen : ∀ l ∈ head, closingMarker.accepts l = false)
    (hnew : ∀ l ∈ new, closingMarker.accepts l = false) (hlong : (pieces text).length ≤ new.length)
    (heq : (pieces text).take (opening + 1) ++ (new ++ (pieces text).drop closing) =
      (pieces text).take (mark + 1) ++ (head ++ new ++ (pieces text).drop closing')) :
    OpensNext text := by
  obtain ⟨line, hline, haccepts⟩ := hclosed.exists_line
  obtain ⟨hlt, rfl⟩ := List.getElem?_eq_some_iff.1 hline
  have hle : mark + 1 ≤ opening := h.opened.1
  have hopening : opening + 1 ≤ closing := h.closed.1
  have hclosing := h.closing_lt
  -- a closing brace before the opening line would stand before the new lines, and after them
  have hlate : opening < closing' := by
    refine Nat.lt_of_not_le fun hearly => ?_
    have hbefore : closingMarker.IsFirst ((pieces text).take (opening + 1)
        ++ (new ++ (pieces text).drop closing)) (mark + 1) closing' := by
      refine hclosed.congr fun k hk => ?_
      rw [List.getElem?_append_left (by rw [List.length_take]; omega),
        List.getElem?_take_of_lt (by omega)]
    have hafter := Marker.isFirst_append ((pieces text).take (mark + 1))
      ((pieces text).drop (closing' + 1)) (List.forall_mem_append.2 ⟨hopen, hnew⟩) haccepts
    rw [← List.drop_eq_getElem_cons hlt, ← heq, List.length_append, List.length_take,
      Nat.min_eq_left (by omega)] at hafter
    have := hbefore.unique hafter
    omega
  obtain rfl := (hclosed.mono (Nat.le_succ_of_le hle) hlate).unique h.closed
  have hlength := congrArg List.length heq
  simp only [List.length_append, List.length_take] at hlength
  obtain rfl : opening = mark + 1 := by omega
  obtain ⟨line, hline, hopens⟩ := h.opened.exists_line
  have hopen' := hclosed.2.2 (mark + 1) hlate (Nat.le_refl _)
  rw [hline] at hopen'
  exact ⟨mark, line, h.marked, hline, hopens, hopen'⟩

/-- Starters without settings, as many as are asked for. -/
def manyStarters (n : Nat) : Record :=
  choiceRecords (List.replicate n (Choice.plain noSpecies))

theorem arrayBody_manyStarters (n : Nat) :
    arrayBody (manyStarters n) = List.replicate n (entryLine noSpecies) := by
  rw [manyStarters, arrayBody_choiceRecords, List.map_replicate]
  rfl

/-- **What a splice replaces.**  It keeps a text up to the first line behind the mark that starts
with a brace, and from the next closing brace on.  That the array alone is replaced, whatever the
starters are, is the case exactly for the texts in which the line after the mark opens the array. -/
theorem spliceArray_frame {records₀ : Record} {out₀ : Text}
    (h : spliceArray text records₀ = .ok out₀) :
    (∃ mark opening closing, IsPlace text mark opening closing ∧ ∀ records,
      spliceArray text records = .ok (((pieces text).take (opening + 1)).flatten
        ++ unlines (arrayBody records) ++ ((pieces text).drop closing).flatten)) ∧
    ((∀ records out, spliceArray text records = .ok out →
        IsFramed text (arrayBody records) out) ↔ OpensNext text) := by
  obtain ⟨mark, opening, closing, hplace⟩ := exists_isPlace h
  refine ⟨⟨mark, opening, closing, hplace, hplace.spliceArray_eq⟩, fun hall => ?_,
    fun hnext records out => isFramed_of_opensNext hnext⟩
  have hsplice := hplace.spliceArray_eq (manyStarters (pieces text).length)
  have hbody : ∀ line ∈ arrayBody (manyStarters (pieces text).length),
      '\n' ∉ line ∧ closingMarker.accepts (line ++ ['\n']) = false := by
    intro line hline
    rw [arrayBody_manyStarters] at hline
    rw [List.eq_of_mem_replicate hline]
    decide
  obtain ⟨mark', closing', head, hmarked, hclosed, hhead, hopen, hframe⟩ :=
    (hall _ _ hsplice).exists_pieces fun line hline => (hbody line hline).1
  obtain rfl := hplace.marked.unique hmarked
  rw [hplace.pieces_eq hsplice fun line hline => (hbody line hline).1] at hframe
  refine hplace.opensNext hclosed hhead hopen (List.forall_mem_map.2 fun line hline =>
    (hbody line hline).2) (Nat.le_of_eq ?_) hframe
  rw [List.length_map, arrayBody_manyStarters, List.length_replicate]

/-! ## The brace on a line of its own, and on the line of the mark

Two texts that differ in where their brace stands, and a function behind the array. -/

/-- An array after some lines that open it, and a function that reads it. -/
def arraySource (opening : List Text) : Text :=
  unlines (opening ++ ["    SPECIES_TREECKO,".toList, "\x7d;".toList, [],
    "u16 GetStarterPokemon(u16 chosenStarterId)".toList, "\x7b".toList,
    "    return sStarterMon[chosenStarterId];".toList, "\x7d".toList])

/-- The brace on a line of its own. -/
def ownLine : Text := arraySource ["static const u16 sStarterMon[] =".toList, "\x7b".toList]

/-- The brace on the line of the mark. -/
def markLine : Text := arraySource ["static const u16 sStarterMon[] = \x7b".toList]

theorem spliceArray_frame_ownLine : ∃ out, spliceArray ownLine (manyStarters 1) = .ok out ∧
    OpensNext ownLine ∧ IsFramed ownLine (arrayBody (manyStarters 1)) out := by
  have hplace : IsPlace ownLine 0 1 3 := ⟨by decide, by decide, by decide⟩
  have hnext : OpensNext ownLine := ⟨0, _, by decide, rfl, by decide, by decide⟩
  have hsplice := hplace.spliceArray_eq (manyStarters 1)
  exact ⟨_, hsplice, hnext, (spliceArray_frame hsplice).2.2 hnext _ _ hsplice⟩

/-- The function loses its body to the array, which stays as it is. -/
theorem spliceArray_frame_markLine : ∃ out, spliceArray markLine (manyStarters 1) = .ok out ∧
    out = unlines ["static const u16 sStarterMon[] = \x7b".toList, "    SPECIES_TREECKO,".toList,
      "\x7d;".toList, [], "u16 GetStarterPokemon(u16 chosenStarterId)".toList, "\x7b".toList,
      "    SPECIES_NONE,".toList, "\x7d".toList] ∧
    ¬ IsFramed markLine (arrayBody (manyStarters 1)) out := by
  have hplace : IsPlace markLine 0 5 7 := ⟨by decide, by decide, by decide⟩
  refine ⟨_, hplace.spliceArray_eq (manyStarters 1), by decide, ?_⟩
  rintro ⟨mark, closing, head, hmarked, hclosed, hhead, hout⟩
  obtain rfl := hplace.marked.unique hmarked
  have hbrace : closingMarker.IsFirst (pieces markLine) (0 + 1) 2 := by decide
  obtain rfl := hbrace.unique hclosed
  rcases hhead with rfl | ⟨i, line, hi, hi', hline, hopens, -⟩
  · exact absurd hout (by decide)
  · obtain rfl : i = 1 := by omega
    have hentry : (pieces markLine)[1]?.any openingMarker.accepts = false := by decide
    rw [hline, Option.any_some, hopens] at hentry
    cases hentry

end TableSync.Starters
