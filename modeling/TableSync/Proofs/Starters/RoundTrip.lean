import TableSync.Proofs.Starters.Reading

/-!
# Generated starters are read back

The array and the function are looked for in one way when they are written and in another when they
are read.  Where the two agree, the starters that were written are read.

* `applyGiving_switchFunction` is about the function by itself: its switch is read as the starters
  it was written for.
* `ArrayDefinition` and `GivingDefinition` are the places in the pristine texts.  They are
  structures with the lines of the text as their fields, and a condition for each group of lines.
* `GivingDefinition.IsReached` and `GivingDefinition.IsHidden` say whether the reader comes to the
  function that the writer has changed.  The writer takes the first line that starts as the function
  does, too, but then goes on to the call; the reader stops at the first line behind it that starts
  with a closing brace, whatever function that line closes.
* `applyGiving_of_editLine` is what both of the next theorems have in common.  The declaration of
  the ability number is put in somewhere before or behind the line at which reading stops, and makes
  no difference.
* `applyGiving_splice` says that generated starters are read back, if the reader comes to the
  function.
* `applyGiving_spliceGiving_of_isHidden` says that nothing that was written is read if it does not:
  if a declaration of the function stands before another function.
-/

set_option autoImplicit false

namespace TableSync.Starters

/-! ## What is written are lines

No line end is written inside a line, so the lines that are written are the lines that are read. -/

/-- A text without the characters of a line end. -/
def IsEndless (s : Text) : Prop := ∀ x ∈ ['\n', '\r'], x ∉ s

instance (s : Text) : Decidable (IsEndless s) := inferInstanceAs (Decidable (∀ _ ∈ _, _))

theorem IsEndless.isLine {s : Text} (h : IsEndless s) : IsLine s :=
  ⟨h '\n' (by decide), fun hlast => h '\r' (by decide) (List.mem_of_getLast? hlast)⟩

theorem IsEndless.append {s t : Text} (hs : IsEndless s) (ht : IsEndless t) :
    IsEndless (s ++ t) := by
  intro x hx
  rw [List.mem_append, not_or]
  exact ⟨hs x hx, ht x hx⟩

theorem isEndless_of_forall {s : Text} (h : ∀ c ∈ s, isWordChar c = true ∨ c = '-') :
    IsEndless s := by
  intro x hx hmem
  have hlineEnd : ∀ x ∈ ['\n', '\r'], isWordChar x = false ∧ x ≠ '-' := by decide
  obtain ⟨hword, hminus⟩ := hlineEnd x hx
  rcases h x hmem with h | h
  · rw [h] at hword
    cases hword
  · exact hminus h

theorem isEndless_of_isWord {s : Text} (h : IsWord s) : IsEndless s :=
  isEndless_of_forall fun c hc => .inl (h.2 c hc)

theorem isEndless_showInt (n : Int) : IsEndless (showInt n) :=
  isEndless_of_forall (isToken_showInt n).2

theorem isEndless_slotKey (slot : Nat) : IsEndless (slotKey slot).toList := by
  have hkey : (slotKey slot).toList = showNat slot := String.toList_ofList
  rw [hkey]
  exact isEndless_showInt slot

namespace Choice.IsGivable

variable {c : Choice} (hc : c.IsGivable)

include hc

theorem isEndless_entryLine : IsEndless (entryLine c.species) := by
  exact (IsEndless.append (by decide) (isEndless_of_isWord hc.species)).append (by decide)

/-- No line of a case holds a line end. -/
theorem isEndless_caseLines (slot : Nat) :
    ∀ line ∈ caseLines (slotKey slot) c.record, IsEndless line := by
  have hitem := isEndless_of_isWord hc.item
  have hmove := isEndless_of_isWord hc.move
  have hhead : IsEndless (caseHead (slotKey slot) c.species) :=
    ((IsEndless.append (by decide) (isEndless_slotKey slot)).append (by decide)).append
      (isEndless_of_isWord hc.species)
  have hgive : IsEndless (giveLine c.level c.item) :=
    ((((IsEndless.append (by decide) (by decide)).append (isEndless_showInt c.level)).append
      (by decide)).append hitem).append (by decide)
  have hmoves : ∀ line ∈ moveLines c.move, IsEndless line := by
    rw [moveLines]
    split
    · exact fun line hline => absurd hline List.not_mem_nil
    · rw [List.forall_mem_singleton]
      exact ((IsEndless.append (by decide) (by decide)).append hmove).append (by decide)
  have hability : ∀ line ∈ abilityLines c.ability, IsEndless line := by
    rw [abilityLines]
    split
    · exact fun line hline => absurd hline List.not_mem_nil
    · rw [List.forall_mem_cons, List.forall_mem_singleton]
      exact ⟨((IsEndless.append (by decide) (by decide)).append
        (isEndless_showInt c.ability)).append (by decide), by decide⟩
  have hbreak : IsEndless (statementIndent ++ "break;".toList) := by decide
  rw [caseLines_record, List.forall_mem_append, List.forall_mem_append, List.forall_mem_append,
    List.forall_mem_cons, List.forall_mem_singleton, List.forall_mem_singleton]
  exact ⟨⟨⟨⟨hhead, hgive⟩, hmoves⟩, hability⟩, hbreak⟩

end Choice.IsGivable

theorem isLine_of_mem_arrayBody {cs : List Choice} (hcs : ∀ c ∈ cs, c.IsGivable) :
    ∀ line ∈ arrayBody (choiceRecords cs), IsLine line := by
  rw [arrayBody_choiceRecords]
  intro line hline
  obtain ⟨c, hc, rfl⟩ := List.mem_map.1 hline
  exact (hcs c hc).isEndless_entryLine.isLine

theorem isLine_of_mem_switchLines {cs : List Choice} (hcs : ∀ c ∈ cs, c.IsGivable) :
    ∀ line ∈ switchLines (choiceRecords cs), IsLine line := by
  have hcases : ∀ slot, ∀ line ∈ (slots ⟨slotted slot (cs.map Choice.record)⟩).flatMap
      (fun entry => caseLines entry.1 entry.2), IsEndless line := by
    induction cs with
    | nil => exact fun _ line hline => absurd hline List.not_mem_nil
    | cons c cs ih =>
      obtain ⟨hc, hcs⟩ := List.forall_mem_cons.1 hcs
      intro slot
      rw [List.map_cons, slotted_cons, slots_cons, List.flatMap_cons, List.forall_mem_append]
      exact ⟨hc.isEndless_caseLines slot, ih hcs (slot + 1)⟩
  have hopening : ∀ line ∈ ["    switch(gSpecialVar_Result)".toList, "    \x7b".toList],
      IsEndless line := by decide
  have hclosing : ∀ line ∈ ["    \x7d".toList], IsEndless line := by decide
  have hall : ∀ line ∈ switchLines (choiceRecords cs), IsEndless line := by
    rw [switchLines, List.forall_mem_append, List.forall_mem_append]
    exact ⟨⟨hopening, hcases 0⟩, hclosing⟩
  exact fun line hline => (hall line hline).isLine

/-! ## The function by itself

Without the splice: a text whose lines are those of a function with the switch in it. -/

/-- The lines of the function, with the switch of some starters between other lines. -/
def switchFunction (cs : List Choice) (intro outro : List Text) : List Text :=
  functionMark :: ['{'] :: (intro ++ (switchLines (choiceRecords cs) ++ (outro ++ [['}']])))

theorem isLine_of_mem_switchFunction {cs : List Choice} (hcs : ∀ c ∈ cs, c.IsGivable)
    {intro outro : List Text} (hintro : ∀ line ∈ intro, IsLine line)
    (houtro : ∀ line ∈ outro, IsLine line) : ∀ line ∈ switchFunction cs intro outro, IsLine line := by
  have hmark : IsLine functionMark := by decide
  have hopening : IsLine ['{'] := by decide
  have hclosing : ∀ line ∈ [['}']], IsLine line := by decide
  rw [switchFunction, List.forall_mem_cons, List.forall_mem_cons, List.forall_mem_append,
    List.forall_mem_append, List.forall_mem_append]
  exact ⟨hmark, hopening, hintro, isLine_of_mem_switchLines hcs, houtro, hclosing⟩

/-- **The switch is read as the starters it was written for.**  Whatever other lines the function
has, if they set nothing, a text with its lines makes the settings of each starter and of no other
one; and the lines put together are such a text. -/
theorem applyGiving_switchFunction {cs : List Choice} (hcs : ∀ c ∈ cs, c.IsGivable)
    {intro outro : List Text} (hintro : ∀ line ∈ intro, IsCalm line)
    (houtro : ∀ line ∈ outro, IsIdle line) :
    (∀ text, lines text = switchFunction cs intro outro →
      applyGiving text ⟨slotted 0 (cs.map fun c => starter c.species)⟩ = choiceRecords cs) ∧
    ((∀ line ∈ intro, IsLine line) → (∀ line ∈ outro, IsLine line) →
      lines (unlines (switchFunction cs intro outro)) = switchFunction cs intro outro) := by
  constructor
  · intro text hlines
    have hopening : ∀ line ∈ [['{']], IsCalm line := by decide
    have hcalm : ∀ line ∈ ['{'] :: intro, IsCalm line :=
      List.forall_mem_append.2 ⟨hopening, hintro⟩
    have hclosing : startsWith ['}'] ['}'] = true := rfl
    rw [applyGiving, hlines]
    exact applyLines_generated hcs (fun _ hline => absurd hline List.not_mem_nil) rfl hcalm houtro
      hclosing []
  · intro hintro houtro
    have hread := lines_unlines_append (isLine_of_mem_switchFunction hcs hintro houtro) []
    rw [List.append_nil] at hread
    rw [hread]
    exact List.append_nil _

/-- Two starters, of which the second has the move and the ability number that are not written. -/
def mixedChoices : List Choice :=
  [⟨"SPECIES_TREECKO", 10, "ITEM_POTION", "MOVE_EMBER", 1⟩,
    ⟨"SPECIES_MUDKIP", 0, "ITEM_NONE", "MOVE_NONE", -1⟩]

theorem applyGiving_switchFunction_mixedChoices :
    let intro := ["    u16 starterMon;".toList, []]
    let outro := ["    ResetTasks();".toList]
    (∀ c ∈ mixedChoices, c.IsGivable) ∧ (∀ line ∈ intro, IsCalm line) ∧
      (∀ line ∈ outro, IsIdle line) ∧
      applyGiving (unlines (switchFunction mixedChoices intro outro))
        ⟨slotted 0 (mixedChoices.map fun c => starter c.species)⟩ = choiceRecords mixedChoices := by
  intro intro outro
  have hcs : ∀ c ∈ mixedChoices, c.IsGivable := by
    rw [mixedChoices, List.forall_mem_cons, List.forall_mem_singleton]
    exact ⟨⟨⟨by decide, by decide⟩, by decide, ⟨by decide, by decide⟩, ⟨by decide, by decide⟩,
      by decide⟩, ⟨by decide, by decide⟩, by decide, ⟨by decide, by decide⟩,
      ⟨by decide, by decide⟩, by decide⟩
  have hintro : ∀ line ∈ intro, IsCalm line := by decide
  have houtro : ∀ line ∈ outro, IsIdle line := by decide
  obtain ⟨hread, hlines⟩ := applyGiving_switchFunction hcs hintro houtro
  exact ⟨hcs, hintro, houtro, hread _ (hlines (by decide) (by decide))⟩

/-! ## The places in the pristine texts

What the texts have to be like before anything is written.  Nothing is asked of what stands before
the function here; that decides whether it is reached. -/

/-- The array in a text: a line with its mark, the line that opens it, the lines in it and the line
that closes it.  Nothing between the mark and the first brace looks like a part of the array. -/
structure ArrayDefinition (text : Text) where
  /-- The lines before the mark. -/
  before : List Text
  /-- The line with the mark. -/
  mark : Text
  /-- The lines between the mark and the brace that opens the array, often none. -/
  between : List Text
  /-- The line that opens the array. -/
  opening : Text
  /-- The lines in the array, which are replaced. -/
  region : List Text
  /-- The line that closes the array. -/
  closing : Text
  /-- The lines behind the array. -/
  after : List Text
  /-- The text has these lines and no others. -/
  lines_eq : lines text = before ++ mark :: (between ++ opening :: (region ++ closing :: after))
  /-- The mark is the first one. -/
  before_unmarked : ∀ line ∈ before, contains arrayMark line = false
  /-- The mark is found on its line. -/
  mark_marked : contains arrayMark mark = true
  /-- No line between opens the array, holds a closing brace, or is read as an entry. -/
  between_plain : ∀ line ∈ between, startsWith ['{'] (trimStart line) = false ∧ IsPlain line
  /-- The opening line starts with a brace, blanks aside. -/
  opening_opens : startsWith ['{'] (trimStart opening) = true
  /-- The opening line does not close the array, and is not read as an entry. -/
  opening_plain : IsPlain opening
  /-- No line in the array closes it. -/
  region_open : ∀ line ∈ region, line.contains '}' = false
  /-- The closing line has a closing brace. -/
  closing_closes : closing.contains '}' = true
  /-- The closing line is not taken for another mark. -/
  closing_unmarked : contains arrayMark closing = false

/-- The function in a text: its first line, a single line that gives the starter among lines that
set nothing, and the line that closes it.  Anything may stand before it. -/
structure GivingDefinition (text : Text) where
  /-- The lines before the function. -/
  before : List Text
  /-- The first line of the function. -/
  header : Text
  /-- The lines of the function before the call. -/
  intro : List Text
  /-- The line with the call, which gives way to the switch. -/
  call : Text
  /-- The lines of the function behind the call. -/
  outro : List Text
  /-- The line that closes the function. -/
  closing : Text
  /-- The lines behind the function. -/
  after : List Text
  /-- The text has these lines and no others. -/
  lines_eq : lines text = before ++ header :: (intro ++ call :: (outro ++ closing :: after))
  /-- The first line starts as the function does. -/
  header_starts : startsWith functionMark header = true
  /-- The call does not stand on the first line. -/
  header_silent : contains givingMark header = false
  /-- No line before the call ends the function, is a case, makes a setting or gives the starter.
  -/
  intro_idle : ∀ line ∈ intro, IsIdle line ∧ contains givingMark line = false
  /-- The call is found on its line. -/
  call_gives : contains givingMark call = true
  /-- No line behind the call does any of these, either. -/
  outro_idle : ∀ line ∈ outro, IsIdle line ∧ contains givingMark line = false
  /-- The closing line starts with a brace. -/
  closing_closes : startsWith ['}'] closing = true

namespace GivingDefinition

variable {text : Text} (d : GivingDefinition text)

/-- The lines before the first declaration of the function. -/
def undeclared : List Text := d.before.takeWhile fun line => !startsWith functionMark line

/-- The lines before the function from the first declaration of it on. -/
def declared : List Text := d.before.dropWhile fun line => !startsWith functionMark line

/-- The reader comes to the function: after a declaration nothing before it ends the reading, opens
a case, or gives the starter. -/
def IsReached : Prop := ∀ line ∈ d.declared, IsCalm line ∧ contains givingMark line = false

instance : Decidable d.IsReached := inferInstanceAs (Decidable (∀ _ ∈ _, _))

/-- The reader does not come to the function: after a declaration a line before it ends the
reading. -/
def IsHidden : Prop :=
  (∃ line ∈ d.declared, startsWith ['}'] line = true) ∧
    ∀ line ∈ d.declared, contains givingMark line = false

instance : Decidable d.IsHidden := inferInstanceAs (Decidable ((∃ _ ∈ _, _) ∧ ∀ _ ∈ _, _))

theorem before_eq : d.before = d.undeclared ++ d.declared :=
  List.takeWhile_append_dropWhile.symm

theorem startsWith_of_undeclared {line : Text} (hline : line ∈ d.undeclared) :
    startsWith functionMark line = false := by
  simpa using List.all_eq_true.1 List.all_takeWhile line hline

theorem startsWith_of_declared {first : Text} {opened : List Text}
    (h : d.declared = first :: opened) : startsWith functionMark first = true := by
  have hfirst := List.head?_dropWhile_not (fun line => !startsWith functionMark line) d.before
  rw [← declared, h, List.head?_cons] at hfirst
  simpa using hfirst

/-- The lines of the text around the first line at which reading starts. -/
theorem exists_lines_of_isReached (h : d.IsReached) :
    ∃ passed first calm, lines text = passed ++ first :: (calm ++ d.call :: (d.outro ++
        d.closing :: d.after)) ∧
      (∀ line ∈ passed, startsWith functionMark line = false) ∧
      startsWith functionMark first = true ∧
      ∀ line ∈ calm, IsCalm line ∧ contains givingMark line = false := by
  have hintro : ∀ line ∈ d.intro, IsCalm line ∧ contains givingMark line = false :=
    fun line hline => ⟨(d.intro_idle line hline).1.1, (d.intro_idle line hline).2⟩
  have hbefore := d.before_eq
  have hpassed : ∀ line ∈ d.undeclared, startsWith functionMark line = false :=
    fun line => d.startsWith_of_undeclared
  cases hdeclared : d.declared with
  | nil =>
    rw [hdeclared, List.append_nil] at hbefore
    rw [← hbefore] at hpassed
    exact ⟨d.before, d.header, d.intro, d.lines_eq, hpassed, d.header_starts, hintro⟩
  | cons first opened =>
    have hheader : IsCalm d.header := by
      obtain ⟨r, hr⟩ := startsWith_iff.1 d.header_starts
      rw [hr]
      exact ⟨rfl, rfl⟩
    refine ⟨_, first, opened ++ d.header :: d.intro, ?_, hpassed,
      d.startsWith_of_declared hdeclared, ?_⟩
    · rw [d.lines_eq, hbefore.trans (congrArg _ hdeclared)]
      simp only [List.append_assoc, List.cons_append]
    · rw [IsReached, hdeclared] at h
      rw [List.forall_mem_append, List.forall_mem_cons]
      exact ⟨(List.forall_mem_cons.1 h).2, ⟨hheader, d.header_silent⟩, hintro⟩

/-- The lines of the text around a declaration and the line that ends the reading after it. -/
theorem exists_lines_of_isHidden (h : d.IsHidden) :
    ∃ passed first opened brace left, lines text = passed ++ first :: ((opened ++ brace :: left) ++
        d.call :: (d.outro ++ d.closing :: d.after)) ∧
      (∀ line ∈ passed, startsWith functionMark line = false) ∧
      startsWith functionMark first = true ∧ startsWith ['}'] brace = true ∧
      ∀ line ∈ opened ++ brace :: left, contains givingMark line = false := by
  obtain ⟨⟨brace, hmem, hbrace⟩, hsilent⟩ := h
  obtain ⟨u, v, hdeclared⟩ := List.append_of_mem hmem
  cases u with
  | nil =>
    -- a declaration does not start with a brace
    have hfirst := d.startsWith_of_declared hdeclared
    obtain ⟨r, rfl⟩ := startsWith_iff.1 hbrace
    cases hfirst
  | cons first opened =>
    refine ⟨_, first, opened, brace, v ++ d.header :: d.intro, ?_, fun line => d.startsWith_of_undeclared,
      d.startsWith_of_declared hdeclared, hbrace, ?_⟩
    · rw [d.lines_eq, d.before_eq.trans (congrArg _ hdeclared)]
      simp only [List.append_assoc, List.cons_append]
    · rw [hdeclared, List.cons_append, List.forall_mem_cons] at hsilent
      rw [← List.cons_append, ← List.append_assoc, List.forall_mem_append, List.forall_mem_cons]
      exact ⟨hsilent.2, d.header_silent, fun line hline => (d.intro_idle line hline).2⟩

end GivingDefinition

/-! ## Writing and reading

The lines of a spliced text are known from `editLine_replace` and `spliceRegion_anchors`, and how
they are read from the module before this one. -/

theorem arrayRecords_eq (text : Text) :
    arrayRecords text = ⟨slotted 0 ((arraySpecies false (lines text)).map starter)⟩ := by
  rw [arrayRecords, slotted, List.zipIdx_map, List.map_map]
  rfl

theorem isInLine_functionMark : (Marker.startsWith functionMark).IsInLine := by
  decide

theorem isInLine_givingMark : (Marker.contains givingMark).IsInLine := by
  decide

/-- The declaration of the ability number makes no difference to what is read up to a closing
line. -/
theorem applyGiving_of_editLine {text switched out : Text} {records before after : Record}
    (ls rest : List Text) {closing : Text}
    (hswitched : editLine text givingFile (.startsWith functionMark) (.contains givingMark)
      (.replace (switchLines records)) = .ok switched)
    (hout : spliceGiving text records = .ok out) (hlines : lines switched = ls ++ closing :: rest)
    (hclosing : startsWith ['}'] closing = true)
    (hread : ∀ closing rest, startsWith ['}'] closing = true →
      applyLines false none before (ls ++ closing :: rest) = after) :
    applyGiving out before = after := by
  rw [spliceGiving, hswitched] at hout
  by_cases hability : needsAbility records = true
  · replace hout : editLine switched givingFile (.startsWith functionMark)
        (.contains declarationMark) (.append ["    u16 abilityNum;".toList]) = .ok out := by
      simpa [hability, bind, Except.bind] using hout
    obtain ⟨passed, hit, hit', left, hpassed, hdeclared, hhit⟩ :=
      lines_of_editLine_append hout (by decide)
    rw [applyGiving, hdeclared]
    rcases hhit with rfl | ⟨rfl, rfl⟩
    · have hidle : IsIdle "    u16 abilityNum;".toList := by decide
      have hinsert := applyLines_insert hidle rfl (passed ++ [hit']) left false none before
      rw [List.append_assoc, List.append_assoc, List.singleton_append, List.singleton_append,
        ← hpassed, hlines, hread closing rest hclosing] at hinsert
      exact hinsert
    · -- the declaration follows the last line, which the reader does not reach or which ends it
      rw [hpassed] at hlines
      rcases List.eq_nil_or_concat rest with rfl | ⟨l, x, rfl⟩
      · obtain ⟨rfl, hhit⟩ := List.append_inj' hlines rfl
        refine hread hit' _ ?_
        rw [← startsWith_concat (c := '\r') (by decide), List.singleton_inj.1 hhit]
        exact hclosing
      · have hlast : passed ++ [hit' ++ ['\r']] = (ls ++ closing :: l) ++ [x] := by
          simp only [hlines, List.concat_eq_append, List.append_assoc, List.cons_append]
        obtain ⟨rfl, -⟩ := List.append_inj' hlast rfl
        rw [List.append_assoc, List.cons_append]
        exact hread closing _ hclosing
  · replace hout : switched = out := by
      simpa [hability, bind, Except.bind, pure, Except.pure] using hout
    rw [applyGiving, ← hout, hlines]
    exact hread closing rest hclosing

section

variable {cs : List Choice} (hcs : ∀ c ∈ cs, c.IsWritable)

include hcs

/-- The array that was written is read, each starter without its settings. -/
theorem exists_spliceArray {text : Text} (d : ArrayDefinition text) :
    ∃ out, spliceArray text (choiceRecords cs) = .ok out ∧
      arrayRecords out = ⟨slotted 0 (cs.map fun c => starter c.species)⟩ := by
  have hregion : ∀ line ∈ d.region, contains ['}'] line = false := fun line hline => by
    rw [contains_singleton]
    exact d.region_open line hline
  have hclosing : contains ['}'] d.closing = true := by
    rw [contains_singleton]
    exact d.closing_closes
  have hmark : (Marker.contains arrayMark).IsInLine := by decide
  have hopening : (Marker.trimmedStartsWith ['{']).IsInLine := by decide
  have hstop : (Marker.contains ['}']).IsInLine := by decide
  obtain ⟨out, hout, hlines⟩ := spliceRegion_anchors hmark hopening hstop d.lines_eq d.mark_marked
    d.opening_opens hclosing d.before_unmarked (fun line hline => (d.between_plain line hline).1)
    hregion (isLine_of_mem_arrayBody fun c hc => (hcs c hc).isGivable) arrayFile
  refine ⟨out, hout, ?_⟩
  have hplain : ∀ line ∈ d.between ++ [d.opening], IsPlain line :=
    List.forall_mem_append.2 ⟨fun line hline => (d.between_plain line hline).2,
      List.forall_mem_singleton.2 d.opening_plain⟩
  have hspecies := arraySpecies_generated hcs d.before_unmarked d.mark_marked hplain
    d.closing_closes d.closing_unmarked d.after
  rw [List.append_assoc, List.singleton_append] at hspecies
  rw [arrayRecords_eq, hlines, hspecies, List.map_map]
  rfl

/-- The function that was written is read with what the starters have. -/
theorem applyGiving_spliceGiving {text out : Text} (d : GivingDefinition text) (h : d.IsReached)
    (hout : spliceGiving text (choiceRecords cs) = .ok out) :
    applyGiving out ⟨slotted 0 (cs.map fun c => starter c.species)⟩ = choiceRecords cs := by
  obtain ⟨passed, first, calm, hlines, hpassed, hfirst, hcalm⟩ := d.exists_lines_of_isReached h
  obtain ⟨switched, hswitched, hswitchedLines⟩ := editLine_replace isInLine_functionMark
    isInLine_givingMark hlines hfirst d.call_gives hpassed (fun line hline => (hcalm line hline).2)
    (isLine_of_mem_switchLines fun c hc => (hcs c hc).isGivable) givingFile
  refine applyGiving_of_editLine
    (passed ++ first :: (calm ++ (switchLines (choiceRecords cs) ++ d.outro))) d.after hswitched
    hout ?_ d.closing_closes fun closing rest hclosing => ?_
  · rw [hswitchedLines]
    simp only [List.append_assoc, List.cons_append]
  · have hgenerated := applyLines_generated (fun c hc => (hcs c hc).isGivable) hpassed hfirst
      (fun line hline => (hcalm line hline).1) (fun line hline => (d.outro_idle line hline).1)
      hclosing rest
    simp only [List.append_assoc, List.cons_append] at hgenerated ⊢
    exact hgenerated

/-- **Nothing that was written is read** if the reader does not come to the function. -/
theorem applyGiving_spliceGiving_of_isHidden {text out : Text} (d : GivingDefinition text)
    (h : d.IsHidden) (hout : spliceGiving text (choiceRecords cs) = .ok out) (records : Record) :
    applyGiving out records = applyGiving text records := by
  obtain ⟨passed, first, opened, brace, left, hlines, hpassed, hfirst, hbrace, hsilent⟩ :=
    d.exists_lines_of_isHidden h
  obtain ⟨switched, hswitched, hswitchedLines⟩ := editLine_replace isInLine_functionMark
    isInLine_givingMark hlines hfirst d.call_gives hpassed hsilent
    (isLine_of_mem_switchLines fun c hc => (hcs c hc).isGivable) givingFile
  refine applyGiving_of_editLine (passed ++ first :: opened)
    (left ++ (switchLines (choiceRecords cs) ++ (d.outro ++ d.closing :: d.after))) hswitched hout
    ?_ hbrace fun closing rest hclosing => ?_
  · rw [hswitchedLines]
    simp only [List.append_assoc, List.cons_append]
  · rw [applyGiving, hlines]
    simp only [List.append_assoc, List.cons_append]
    rw [applyLines_passed hpassed, applyLines_passed hpassed, applyLines_mark hfirst,
      applyLines_mark hfirst]
    exact applyLines_closed hclosing hbrace opened _ _ none records

/-- **Generated starters are read back**, with their species, levels, items, moves and ability
numbers, if the reader comes to the function. -/
theorem applyGiving_splice {arrayText givingText array giving : Text}
    (a : ArrayDefinition arrayText) (g : GivingDefinition givingText) (hreached : g.IsReached)
    (harray : spliceArray arrayText (choiceRecords cs) = .ok array)
    (hgiving : spliceGiving givingText (choiceRecords cs) = .ok giving) :
    applyGiving giving (arrayRecords array) = choiceRecords cs := by
  obtain ⟨out, hout, hrecords⟩ := exists_spliceArray hcs a
  rw [harray] at hout
  obtain rfl := Except.ok.inj hout
  rw [hrecords]
  exact applyGiving_spliceGiving hcs g hreached hgiving

end

/-! ## A starter in two texts

The same function after two declarations, and after a declaration and another function. -/

/-- An array with one species. -/
def speciesText : Text :=
  unlines ["static const u16 sStarterMon[STARTER_MON_COUNT] =".toList, "\x7b".toList,
    "    SPECIES_TREECKO,".toList, "\x7d;".toList]

/-- The place of the array. -/
def speciesDefinition : ArrayDefinition speciesText where
  before := []
  mark := "static const u16 sStarterMon[STARTER_MON_COUNT] =".toList
  between := []
  opening := "\x7b".toList
  region := ["    SPECIES_TREECKO,".toList]
  closing := "\x7d;".toList
  after := []
  lines_eq := by decide +kernel
  before_unmarked := by decide
  mark_marked := by decide
  between_plain := by decide
  opening_opens := by decide
  opening_plain := by decide
  region_open := by decide
  closing_closes := by decide
  closing_unmarked := by decide

/-- The lines of the function. -/
def functionLines : List Text :=
  ["static void CB2_GiveStarter(void)".toList, "\x7b".toList, "    u16 starterMon;".toList, [],
    "    ScriptGiveMon(starterMon, 5, ITEM_NONE);".toList, "    ResetTasks();".toList,
    "\x7d".toList]

/-- The place of the function after other lines. -/
def functionDefinition (before : List Text) (hbefore : ∀ line ∈ before, IsLine line) :
    GivingDefinition (unlines (before ++ functionLines)) where
  before := before
  header := "static void CB2_GiveStarter(void)".toList
  intro := ["\x7b".toList, "    u16 starterMon;".toList, []]
  call := "    ScriptGiveMon(starterMon, 5, ITEM_NONE);".toList
  outro := ["    ResetTasks();".toList]
  closing := "\x7d".toList
  after := []
  lines_eq := by
    have hlines : ∀ line ∈ functionLines, IsLine line := by decide
    have hread := lines_unlines_append (List.forall_mem_append.2 ⟨hbefore, hlines⟩) []
    rw [List.append_nil] at hread
    rw [hread]
    exact List.append_nil _
  header_starts := by decide
  header_silent := by decide
  intro_idle := by decide
  call_gives := by decide
  outro_idle := by decide
  closing_closes := by decide

/-- A declaration of the function. -/
def declaration : Text := "static void CB2_GiveStarter(void);".toList

/-- Two declarations before the function. -/
def declarations : List Text := [declaration, "static void CB2_StartFirstBattle(void);".toList, []]

/-- A declaration and another function before the function. -/
def otherFunction : List Text :=
  [declaration, [], "static void CB2_StartFirstBattle(void)".toList, "\x7b".toList,
    "    ResetTasks();".toList, "\x7d".toList, []]

/-- A starter with settings of its own. -/
def treecko : Choice := ⟨"SPECIES_TREECKO", 10, "ITEM_POTION", "MOVE_EMBER", 1⟩

theorem isWritable_treecko : ∀ c ∈ [treecko], c.IsWritable := by
  rw [List.forall_mem_singleton]
  exact ⟨⟨"TREECKO".toList, ⟨by decide, by decide⟩, by decide⟩, by decide, ⟨by decide, by decide⟩,
    ⟨by decide, by decide⟩, by decide⟩

theorem exists_of_isOk {α : Type} {r : Result α} (h : r.isOk = true) : ∃ a, r = .ok a := by
  cases r with
  | ok a => exact ⟨a, rfl⟩
  | error e => cases h

theorem applyGiving_splice_treecko : (∀ c ∈ [treecko], c.IsWritable) ∧
    ∃ array giving, spliceArray speciesText (choiceRecords [treecko]) = .ok array ∧
      spliceGiving (unlines (declarations ++ functionLines)) (choiceRecords [treecko]) =
        .ok giving ∧
      (functionDefinition declarations (by decide)).IsReached ∧
      applyGiving giving (arrayRecords array) = choiceRecords [treecko] := by
  obtain ⟨array, harray⟩ :=
    exists_of_isOk (r := spliceArray speciesText (choiceRecords [treecko])) (by decide +kernel)
  obtain ⟨giving, hgiving⟩ := exists_of_isOk (r := spliceGiving
    (unlines (declarations ++ functionLines)) (choiceRecords [treecko])) (by decide +kernel)
  have hreached : (functionDefinition declarations (by decide)).IsReached := by decide
  exact ⟨isWritable_treecko, array, giving, harray, hgiving, hreached,
    applyGiving_splice isWritable_treecko speciesDefinition _ hreached harray hgiving⟩

/-- A declaration of the function before another one hides the starters that were written. -/
theorem applyGiving_splice_otherFunction : (∀ c ∈ [treecko], c.IsWritable) ∧
    Nonempty (ArrayDefinition speciesText) ∧
    Nonempty (GivingDefinition (unlines (otherFunction ++ functionLines))) ∧
    ∃ array giving, spliceArray speciesText (choiceRecords [treecko]) = .ok array ∧
      spliceGiving (unlines (otherFunction ++ functionLines)) (choiceRecords [treecko]) =
        .ok giving ∧
      applyGiving giving (arrayRecords array) ≠ choiceRecords [treecko] := by
  obtain ⟨array, harray, hrecords⟩ := exists_spliceArray isWritable_treecko speciesDefinition
  obtain ⟨giving, hgiving⟩ := exists_of_isOk (r := spliceGiving
    (unlines (otherFunction ++ functionLines)) (choiceRecords [treecko])) (by decide +kernel)
  have hhidden : (functionDefinition otherFunction (by decide)).IsHidden := by decide
  refine ⟨isWritable_treecko, ⟨speciesDefinition⟩, ⟨functionDefinition otherFunction (by decide)⟩,
    array, giving, harray, hgiving, ?_⟩
  rw [hrecords, applyGiving_spliceGiving_of_isHidden isWritable_treecko _ hhidden hgiving]
  decide +kernel

end TableSync.Starters
