import TableSync.Category.Starters
import TableSync.Proofs.Emit.Line

/-!
# Splicing the function

The function that gives the starters is edited twice: its call makes room for a switch, and the
variable for an ability is declared behind the function's own.  The second edit looks for its lines
in the text that the first one has changed, the lines of the switch among them.

* `IsCall` are the first line of the function and the call, `withSwitch` are the lines after the
  first edit, and `IsDeclaration` is the line that the second edit looks for there.
* `exists_isAssignment_iff` says that the switch assigns an ability number where the declaration is
  asked for.  It is not read off the starters, but off the lines of the switch, whatever texts stand
  in them.
* `IsCall.spliceGiving_eq` gets the first edit out of the way: where the call is found, the splice
  is the second edit, of the text `switched`.
* `IsCall.declareAbility_eq_ok_iff` is the second edit, and `IsCall.spliceGiving_eq_ok_iff` both.
  Since a text is determined by its lines, an edit is described by the lines that it puts out.
* `spliceGiving_frame` says when both edits succeed, and which lines they leave as they are.

The first line of the function stands before the call, so it has the same number in both texts
(`IsCall.marked_withSwitch`), and both edits start to look behind it.
-/

set_option autoImplicit false

namespace TableSync.Starters

variable {pristine out : Text} {records : Record} {ls : List Text} {mark call : Nat}

/-! ## The place of the call

The marks of the lines, as the two edits have them. -/

/-- The first line of the function. -/
def functionMarker : Marker := .startsWith functionMark

/-- A call that gives a starter. -/
def givingMarker : Marker := .contains givingMark

/-- A declaration of the starter's variable. -/
def declarationMarker : Marker := .contains declarationMark

/-- The numbers of the lines that the first edit looks for. -/
structure IsCall (ls : List Text) (mark call : Nat) : Prop where
  /-- The first line that starts as the function does. -/
  marked : functionMarker.IsFirst ls 0 mark
  /-- The first line after it that gives a starter. -/
  called : givingMarker.IsFirst ls (mark + 1) call

/-- The lines of a text with the switch in the place of a call.  They are cut anew, since the texts
of a starter may hold line feeds. -/
def withSwitch (ls : List Text) (records : Record) (call : Nat) : List Text :=
  ls.take call ++ pieces (unlines (switchLines records)) ++ ls.drop (call + 1)

/-- The number of the line that the second edit looks for, in the lines after the first one. -/
def IsDeclaration (ls : List Text) (records : Record) (mark call decl : Nat) : Prop :=
  declarationMarker.IsFirst (withSwitch ls records call) (mark + 1) decl

theorem IsCall.call_lt (h : IsCall ls mark call) : call < ls.length := by
  obtain ⟨line, hline, -⟩ := h.called.exists_line
  exact (List.getElem?_eq_some_iff.1 hline).1

/-- The function starts on the same line after the first edit. -/
theorem IsCall.marked_withSwitch (h : IsCall ls mark call) (records : Record) :
    functionMarker.IsFirst (withSwitch ls records call) 0 mark := by
  have hlt : mark < call := h.called.1
  have hlength := h.call_lt
  refine h.marked.congr fun n hn => ?_
  rw [withSwitch, List.append_assoc,
    List.getElem?_append_left (by rw [List.length_take]; omega),
    List.getElem?_take_of_lt (by omega)]

/-! ## When the declaration is asked for

A declaration without an assignment would be a variable that nothing uses, and an assignment without
a declaration would not compile. -/

/-- An assignment of an ability number. -/
def assignmentMarker : Marker := .trimmedStartsWith "abilityNum = ".toList

/-- The lines of a case assign an ability number if its starter has one of its own, whatever the
texts in them are. -/
theorem any_isAssignment_caseLines (slot : String) (starter : Record) :
    (caseLines slot starter).any assignmentMarker.accepts =
      decide (abilityOf starter ≠ defaultAbility) := by
  rw [caseLines]
  by_cases hability : abilityOf starter = defaultAbility
  · by_cases hnone : textField starter "custom_move" noMove = noMove.toList
    · rw [if_pos hability, if_pos hnone, decide_eq_false (not_not_intro hability)]
      rfl
    · rw [if_pos hability, if_neg hnone, decide_eq_false (not_not_intro hability)]
      rfl
  · rw [if_neg hability, decide_eq_true hability, List.any_append, List.any_append]
    have hassign : assignmentMarker.accepts (statementIndent ++ "abilityNum = ".toList
        ++ showInt (abilityOf starter) ++ [';']) = true := rfl
    rw [List.any_cons, hassign, Bool.true_or, Bool.or_true, Bool.true_or]

theorem needsAbility_iff : needsAbility records = true ↔
    ∃ choice ∈ slots records, abilityOf choice.2 ≠ defaultAbility := by
  rw [needsAbility, List.any_eq_true]
  exact exists_congr fun choice => and_congr_right fun _ => decide_eq_true_iff

/-- **The switch assigns an ability number exactly if some starter has one of its own.** -/
theorem exists_isAssignment_iff :
    (∃ line ∈ switchLines records, assignmentMarker.accepts line = true) ↔
      ∃ choice ∈ slots records, abilityOf choice.2 ≠ defaultAbility := by
  have hopening : ["    switch(gSpecialVar_Result)".toList, "    \x7b".toList].any
      assignmentMarker.accepts = false := rfl
  have hclosing : ["    \x7d".toList].any assignmentMarker.accepts = false := rfl
  rw [← List.any_eq_true, switchLines, List.any_append, List.any_append, hopening, hclosing,
    Bool.false_or, Bool.or_false, List.any_flatMap, List.any_eq_true]
  refine exists_congr fun choice => and_congr_right fun _ => ?_
  rw [any_isAssignment_caseLines, decide_eq_true_iff]

/-! ## The two edits

Each edit as an equivalence, with the numbers of the lines that it has found. -/

/-- The text after the first edit. -/
def switched (pristine : Text) (records : Record) (call : Nat) : Text :=
  ((pieces pristine).take call).flatten ++ unlines (switchLines records)
    ++ ((pieces pristine).drop (call + 1)).flatten

/-- The line of a declaration of the ability number. -/
def abilityDeclaration : Text := "    u16 abilityNum;".toList

theorem IsCall.pieces_switched (h : IsCall (pieces pristine) mark call) (records : Record) :
    pieces (switched pristine records call) = withSwitch (pieces pristine) records call :=
  pieces_replaced h.call_lt (switchLines records)

/-- Where its call is found, the function is spliced by the second edit. -/
theorem IsCall.spliceGiving_eq (h : IsCall (pieces pristine) mark call) (records : Record) :
    spliceGiving pristine records =
      if needsAbility records then
        editLine (switched pristine records call) givingFile functionMarker declarationMarker
          (.append [abilityDeclaration])
      else .ok (switched pristine records call) := by
  obtain ⟨line, hline, -⟩ := h.called.exists_line
  have hreplace : editLine pristine givingFile (.startsWith functionMark) (.contains givingMark)
      (.replace (switchLines records)) = .ok (switched pristine records call) :=
    editLine_of_isFirst h.marked h.called hline givingFile _
  rw [spliceGiving, hreplace]
  rfl

theorem exists_isCall (h : spliceGiving pristine records = .ok out) :
    ∃ mark call, IsCall (pieces pristine) mark call := by
  rw [spliceGiving] at h
  cases hreplace : editLine pristine givingFile (.startsWith functionMark) (.contains givingMark)
      (.replace (switchLines records)) with
  | error e =>
    rw [hreplace] at h
    cases h
  | ok text =>
    obtain ⟨mark, call, line, hmarked, hcalled, -⟩ := editLine_eq_ok_iff.1 hreplace
    exact ⟨mark, call, hmarked, hcalled⟩

/-- The lines with the declaration of the ability number behind a line. -/
def withDeclaration (ls : List Text) (decl : Nat) (line : Text) : List Text :=
  ls.take decl ++ [ended line, abilityDeclaration ++ ['\n']] ++ ls.drop (decl + 1)

theorem IsDeclaration.exists_line {decl : Nat} (h : IsDeclaration ls records mark call decl) :
    ∃ line, (withSwitch ls records call)[decl]? = some line := by
  obtain ⟨line, hline, -⟩ := Marker.IsFirst.exists_line h
  exact ⟨line, hline⟩

/-- The second edit, where its lines are found. -/
theorem IsCall.exists_declareAbility (h : IsCall (pieces pristine) mark call) {decl : Nat}
    (hdecl : IsDeclaration (pieces pristine) records mark call decl) {line : Text}
    (hline : (withSwitch (pieces pristine) records call)[decl]? = some line) :
    ∃ out, editLine (switched pristine records call) givingFile functionMarker declarationMarker
        (.append [abilityDeclaration]) = .ok out ∧
      pieces out = withDeclaration (withSwitch (pieces pristine) records call) decl line := by
  have hmarked := h.marked_withSwitch records
  rw [IsDeclaration] at hdecl
  rw [← h.pieces_switched records] at hmarked hdecl hline ⊢
  exact ⟨_, editLine_of_isFirst hmarked hdecl hline givingFile _,
    pieces_extended hline [abilityDeclaration]⟩

/-- The second edit, of a text after the first one. -/
theorem IsCall.declareAbility_eq_ok_iff (h : IsCall (pieces pristine) mark call) :
    editLine (switched pristine records call) givingFile functionMarker declarationMarker
        (.append [abilityDeclaration]) = .ok out ↔
      ∃ decl line, IsDeclaration (pieces pristine) records mark call decl ∧
        (withSwitch (pieces pristine) records call)[decl]? = some line ∧
        pieces out = withDeclaration (withSwitch (pieces pristine) records call) decl line := by
  constructor
  · intro hedit
    obtain ⟨mark', decl, line, hmarked, hdecl, hline, -⟩ := editLine_eq_ok_iff.1 hedit
    rw [h.pieces_switched records] at hmarked hdecl hline
    obtain rfl := (h.marked_withSwitch records).unique hmarked
    obtain ⟨out', hedit', hout'⟩ := h.exists_declareAbility hdecl hline
    obtain rfl := Except.ok.inj (hedit.symm.trans hedit')
    exact ⟨decl, line, hdecl, hline, hout'⟩
  · rintro ⟨decl, line, hdecl, hline, hout⟩
    obtain ⟨out', hedit', hout'⟩ := h.exists_declareAbility hdecl hline
    -- a text is the only one with its lines
    have heq : out' = out := by rw [← flatten_pieces out', hout', ← hout, flatten_pieces]
    rw [← heq]
    exact hedit'

/-- A successful splice, by the lines that it puts out where its call is found. -/
theorem IsCall.spliceGiving_eq_ok_iff (h : IsCall (pieces pristine) mark call) :
    spliceGiving pristine records = .ok out ↔
      if ∃ choice ∈ slots records, abilityOf choice.2 ≠ defaultAbility then
        ∃ decl line, IsDeclaration (pieces pristine) records mark call decl ∧
          (withSwitch (pieces pristine) records call)[decl]? = some line ∧
          pieces out = withDeclaration (withSwitch (pieces pristine) records call) decl line
      else pieces out = withSwitch (pieces pristine) records call := by
  rw [h.spliceGiving_eq records]
  by_cases hability : ∃ choice ∈ slots records, abilityOf choice.2 ≠ defaultAbility
  · rw [if_pos hability, if_pos (needsAbility_iff.2 hability), h.declareAbility_eq_ok_iff]
  · rw [if_neg hability, if_neg (hability ∘ needsAbility_iff.1), Except.ok.injEq,
      ← h.pieces_switched records]
    exact ⟨fun heq => by rw [heq], fun heq => by rw [← flatten_pieces out, heq, flatten_pieces]⟩

/-- **What the two edits change.**  They succeed exactly if the function and its call are found and,
where some starter has an ability number of its own, a declaration is found in the text with the
switch.  The lines are then those of the text with the switch, and the declaration of the ability
number follows the declaration that was found, exactly if the switch assigns that number. -/
theorem spliceGiving_frame (pristine : Text) (records : Record) :
    ((∃ out, spliceGiving pristine records = .ok out) ↔
      ∃ mark call, IsCall (pieces pristine) mark call ∧
        ((∃ choice ∈ slots records, abilityOf choice.2 ≠ defaultAbility) →
          ∃ decl, IsDeclaration (pieces pristine) records mark call decl)) ∧
    ∀ out, spliceGiving pristine records = .ok out →
      ∃ mark call, IsCall (pieces pristine) mark call ∧
        if ∃ line ∈ switchLines records, assignmentMarker.accepts line = true then
          ∃ decl line, IsDeclaration (pieces pristine) records mark call decl ∧
            (withSwitch (pieces pristine) records call)[decl]? = some line ∧
            pieces out = withDeclaration (withSwitch (pieces pristine) records call) decl line
        else pieces out = withSwitch (pieces pristine) records call := by
  simp only [exists_isAssignment_iff]
  refine ⟨⟨?_, ?_⟩, fun out h => ?_⟩
  · rintro ⟨out, h⟩
    obtain ⟨mark, call, hcall⟩ := exists_isCall h
    refine ⟨mark, call, hcall, fun hability => ?_⟩
    have hout := hcall.spliceGiving_eq_ok_iff.1 h
    rw [if_pos hability] at hout
    obtain ⟨decl, -, hdecl, -⟩ := hout
    exact ⟨decl, hdecl⟩
  · rintro ⟨mark, call, hcall, hdeclared⟩
    rw [hcall.spliceGiving_eq records]
    split
    · next hability =>
      obtain ⟨decl, hdecl⟩ := hdeclared (needsAbility_iff.1 hability)
      obtain ⟨line, hline⟩ := hdecl.exists_line
      obtain ⟨out, hout, -⟩ := hcall.exists_declareAbility hdecl hline
      exact ⟨out, hout⟩
    · exact ⟨_, rfl⟩
  · obtain ⟨mark, call, hcall⟩ := exists_isCall h
    exact ⟨mark, call, hcall, hcall.spliceGiving_eq_ok_iff.1 h⟩

end TableSync.Starters
