import TableSync.Proofs.Emit.Splice
import TableSync.Proofs.Starters.Written

/-!
# Reading generated starters

The lines that were generated for some starters are read as them, wherever they stand.

* `choiceRecords` are the records of some starters, by slot.
* `IsCalm` and `IsIdle` are the lines that may stand around the switch: before the first case a line
  may hold anything but an end of the function and a case, since without a case it makes no setting;
  after the switch the last case is still open, so a line must make none.
* `applyLines_passed` to `applyLines_insert` say what lines of each kind do to the reader, each by
  induction on the lines.
* `applyLines_cases` is the list of cases, by induction on the starters.  The records of the
  starters before the first case are set, those after it are not yet, and the slots before have
  other keys.
* `applyLines_generated` is about the function that gives them, and `applyLines_insert` about a
  declaration in it.
* `arraySpecies_generated` is about the array, whose reader has only two states.

What the lines of one case do is the subject of `TableSync.Proofs.Starters.Written`.
-/

set_option autoImplicit false

namespace TableSync.Starters

/-! ## Records by slot

The keys of a document of starters are the numbers of their slots. -/

/-- Records under the keys of their slots, from a slot on. -/
def slotted (slot : Nat) (rs : List Record) : List (String × Value) :=
  (rs.zipIdx slot).map fun (r, slot) => (slotKey slot, .record r)

/-- The records of some starters. -/
def choiceRecords (cs : List Choice) : Record := ⟨slotted 0 (cs.map Choice.record)⟩

theorem slotted_cons (slot : Nat) (r : Record) (rs : List Record) :
    slotted slot (r :: rs) = (slotKey slot, .record r) :: slotted (slot + 1) rs := rfl

theorem slots_cons (key : String) (r : Record) (fields : List (String × Value)) :
    slots ⟨(key, .record r) :: fields⟩ = (key, r) :: slots ⟨fields⟩ := rfl

theorem slotKey_injective {m n : Nat} (h : slotKey m = slotKey n) : m = n := by
  have hdigits : showNat m = showNat n := String.ofList_inj.1 h
  have hvalue := congrArg digitsValue? hdigits
  rw [digitsValue?_showNat, digitsValue?_showNat] at hvalue
  exact Option.some.inj hvalue

/-! ## Reading the function

The reader is inside the function or not, and has met a case or not.  A lemma says for which of
these states it holds by the first two arguments of `applyLines`. -/

/-- A line that does not end the function and is no case. -/
def IsCalm (line : Text) : Prop :=
  startsWith ['}'] line = false ∧ (caseSlot? line).isSome = false

instance (line : Text) : Decidable (IsCalm line) := inferInstanceAs (Decidable (_ ∧ _))

/-- A calm line that makes no setting. -/
def IsIdle (line : Text) : Prop :=
  IsCalm line ∧ (search? givenMonAt? line).isSome = false ∧
    (search? givenMoveAt? line).isSome = false ∧ (search? givenAbilityAt? line).isSome = false

instance (line : Text) : Decidable (IsIdle line) := inferInstanceAs (Decidable (_ ∧ _))

theorem IsIdle.applyLine {line : Text} (h : IsIdle line) (r : Record) : applyLine line r = r := by
  obtain ⟨-, hmon, hmove, hability⟩ := h
  rw [Option.isSome_eq_false_iff, Option.isNone_iff_eq_none] at hmon hmove hability
  rw [Starters.applyLine, hmon, hmove, hability]

section Reading

variable {records : Record} {slot? : Option String} {line : Text} {rest : List Text}

/-- Before the function nothing is read. -/
theorem applyLines_passed {passed : List Text}
    (h : ∀ line ∈ passed, startsWith functionMark line = false) (records : Record)
    (rest : List Text) :
    applyLines false none records (passed ++ rest) = applyLines false none records rest := by
  induction passed with
  | nil => rfl
  | cons line passed ih =>
    obtain ⟨hline, hpassed⟩ := List.forall_mem_cons.1 h
    rw [List.cons_append, applyLines, hline]
    exact ih hpassed

theorem applyLines_mark (h : startsWith functionMark line = true) (inside : Bool)
    (slot? : Option String) (records : Record) (rest : List Text) :
    applyLines inside slot? records (line :: rest) = applyLines true slot? records rest := by
  rw [applyLines, if_pos h]

/-- Without a case no line sets anything. -/
theorem applyLines_calm {ls : List Text} (h : ∀ line ∈ ls, IsCalm line) (records : Record)
    (rest : List Text) :
    applyLines true none records (ls ++ rest) = applyLines true none records rest := by
  induction ls with
  | nil => rfl
  | cons line ls ih =>
    obtain ⟨⟨hstays, hcase⟩, hls⟩ := List.forall_mem_cons.1 h
    rw [Option.isSome_eq_false_iff, Option.isNone_iff_eq_none] at hcase
    rw [List.cons_append, applyLines, hstays, hcase]
    split
    · exact ih hls
    · exact ih hls

/-- An idle line changes nothing. -/
theorem applyLines_idle_cons (h : IsIdle line) (inside : Bool) (slot? : Option String)
    (records : Record) (rest : List Text) (hmark : startsWith functionMark line = false) :
    applyLines inside slot? records (line :: rest) = applyLines inside slot? records rest := by
  have hcase := h.1.2
  rw [Option.isSome_eq_false_iff, Option.isNone_iff_eq_none] at hcase
  have hsame : ∀ slot, (records.modifyRecord? slot (applyLine line)).getD records = records := by
    intro slot
    rw [Record.modifyRecord?]
    cases hslot : records.record? slot with
    | none => rfl
    | some r =>
      obtain ⟨v, hv, hr⟩ := Option.bind_eq_some_iff.1 hslot
      cases v with
      | record r' =>
        obtain rfl := Option.some.inj hr
        rw [Option.map_some, Option.getD_some, h.applyLine, Record.insert_eq_self hv]
      | _ => cases hr
  rw [applyLines, hmark, h.1.1, hcase]
  cases inside with
  | false => rfl
  | true => cases slot? with
    | none => rfl
    | some slot =>
      simp only [Bool.false_eq_true, if_false, Bool.not_true, Option.bind_some, hsame]

/-- Idle lines change nothing, wherever they stand. -/
theorem applyLines_idle {ls : List Text} (h : ∀ line ∈ ls, IsIdle line) (slot? : Option String)
    (records : Record) (rest : List Text) :
    applyLines true slot? records (ls ++ rest) = applyLines true slot? records rest := by
  induction ls with
  | nil => rfl
  | cons line ls ih =>
    obtain ⟨hline, hls⟩ := List.forall_mem_cons.1 h
    rw [List.cons_append]
    cases hmark : startsWith functionMark line with
    | true => rw [applyLines_mark hmark, ih hls]
    | false => rw [applyLines_idle_cons hline _ _ _ _ hmark, ih hls]

/-- A closing brace at the start of a line ends the function. -/
theorem applyLines_closing {line : Text} (h : startsWith ['}'] line = true) (slot? : Option String)
    (records : Record) (rest : List Text) :
    applyLines true slot? records (line :: rest) = records := by
  obtain ⟨r, rfl⟩ := startsWith_iff.1 h
  rfl

/-- Nothing is read from the line on that ends the function. -/
theorem applyLines_closed {closing closing' : Text} (h : startsWith ['}'] closing = true)
    (h' : startsWith ['}'] closing' = true) (ls rest rest' : List Text) (slot? : Option String)
    (records : Record) :
    applyLines true slot? records (ls ++ closing :: rest) =
      applyLines true slot? records (ls ++ closing' :: rest') := by
  induction ls generalizing slot? records with
  | nil =>
    rw [List.nil_append, List.nil_append, applyLines_closing h, applyLines_closing h']
  | cons l ls ih =>
    rw [List.cons_append, List.cons_append, applyLines, applyLines]
    simp only [ih, Bool.not_true, Bool.false_eq_true, if_false]

/-- A line that is put in makes no difference if it is idle. -/
theorem applyLines_insert {line : Text} (h : IsIdle line)
    (hmark : startsWith functionMark line = false) (ls rest : List Text) (inside : Bool)
    (slot? : Option String) (records : Record) :
    applyLines inside slot? records (ls ++ line :: rest) =
      applyLines inside slot? records (ls ++ rest) := by
  induction ls generalizing inside slot? records with
  | nil => exact applyLines_idle_cons h inside slot? records rest hmark
  | cons l ls ih =>
    rw [List.cons_append, List.cons_append, applyLines, applyLines]
    split
    · exact ih true slot? records
    · split
      · exact ih false slot? records
      · split
        · rfl
        · split
          · exact ih true _ records
          · exact ih true slot? _

/-- The cases set what the starters have, one after the other. -/
theorem applyLines_cases {cs : List Choice} (hcs : ∀ c ∈ cs, c.IsGivable) (slot : Nat)
    {before : List (String × Value)} (hbefore : ∀ i, slot ≤ i → slotKey i ∉ before.map Prod.fst)
    (slot? : Option String) (rest : List Text) :
    ∃ last?, applyLines true slot?
        ⟨before ++ slotted slot (cs.map fun c => starter c.species)⟩
        ((slots ⟨slotted slot (cs.map Choice.record)⟩).flatMap
          (fun (slot, starter) => caseLines slot starter) ++ rest) =
      applyLines true last? ⟨before ++ slotted slot (cs.map Choice.record)⟩ rest := by
  induction cs generalizing slot before slot? with
  | nil => exact ⟨slot?, rfl⟩
  | cons c cs ih =>
    obtain ⟨hc, hcs⟩ := List.forall_mem_cons.1 hcs
    have hnext : ∀ i, slot + 1 ≤ i →
        slotKey i ∉ (before ++ [(slotKey slot, Value.record c.record)]).map Prod.fst := by
      intro i hi
      rw [List.map_append, List.mem_append, not_or]
      refine ⟨hbefore i (by omega), fun hmem => ?_⟩
      have hkey := slotKey_injective (List.mem_singleton.1 hmem)
      omega
    obtain ⟨last?, hlast⟩ := ih hcs (slot + 1) hnext (some (slotKey slot))
    rw [List.append_assoc, List.append_assoc, List.singleton_append, List.singleton_append] at hlast
    refine ⟨last?, ?_⟩
    rw [List.map_cons, List.map_cons, slotted_cons, slotted_cons, ← hlast, slots_cons,
      List.flatMap_cons, List.append_assoc]
    exact applyLines_caseLines hc (hbefore slot (Nat.le_refl slot)) _ _ slot?

/-- The switch sets what all starters have. -/
theorem applyLines_switch {cs : List Choice} (hcs : ∀ c ∈ cs, c.IsGivable) (rest : List Text) :
    ∃ last?, applyLines true none ⟨slotted 0 (cs.map fun c => starter c.species)⟩
        (switchLines (choiceRecords cs) ++ rest) =
      applyLines true last? (choiceRecords cs) rest := by
  have hopening : ∀ line ∈ ["    switch(gSpecialVar_Result)".toList, "    \x7b".toList],
      IsCalm line := by decide
  have hclosing : ∀ line ∈ ["    \x7d".toList], IsIdle line := by decide
  have hfresh : ∀ i, 0 ≤ i → slotKey i ∉ ([] : List (String × Value)).map Prod.fst :=
    fun _ _ => List.not_mem_nil
  obtain ⟨last?, hlast⟩ := applyLines_cases hcs 0 hfresh none (["    \x7d".toList] ++ rest)
  refine ⟨last?, ?_⟩
  rw [switchLines, List.append_assoc, List.append_assoc, applyLines_calm hopening]
  rw [applyLines_idle hclosing] at hlast
  exact hlast

/-- **The function is read as it was generated**: from its first line on nothing makes a setting
before the switch, and nothing after it up to the line that closes it. -/
theorem applyLines_generated {cs : List Choice} (hcs : ∀ c ∈ cs, c.IsGivable)
    {passed calm idle : List Text} {first closing : Text}
    (hpassed : ∀ line ∈ passed, startsWith functionMark line = false)
    (hfirst : startsWith functionMark first = true) (hcalm : ∀ line ∈ calm, IsCalm line)
    (hidle : ∀ line ∈ idle, IsIdle line) (hclosing : startsWith ['}'] closing = true)
    (after : List Text) :
    applyLines false none ⟨slotted 0 (cs.map fun c => starter c.species)⟩
      (passed ++ first :: (calm ++ (switchLines (choiceRecords cs) ++ (idle ++ closing :: after)))) =
        choiceRecords cs := by
  obtain ⟨last?, hlast⟩ := applyLines_switch hcs (idle ++ closing :: after)
  rw [applyLines_passed hpassed, applyLines_mark hfirst, applyLines_calm hcalm, hlast,
    applyLines_idle hidle, applyLines_closing hclosing]

end Reading

/-! ## Reading the array

The reader starts with the first line that has the mark of the array, and stops at the first closing
brace after it. -/

section Array

/-- A line of the array's text that ends nothing and is no entry. -/
def IsPlain (line : Text) : Prop := line.contains '}' = false ∧ arrayEntry? line = none

instance (line : Text) : Decidable (IsPlain line) := inferInstanceAs (Decidable (_ ∧ _))

/-- Before the mark of the array nothing is read. -/
theorem arraySpecies_before {ls : List Text} (h : ∀ line ∈ ls, contains arrayMark line = false)
    (rest : List Text) : arraySpecies false (ls ++ rest) = arraySpecies false rest := by
  induction ls with
  | nil => rfl
  | cons line ls ih =>
    obtain ⟨hline, hls⟩ := List.forall_mem_cons.1 h
    rw [List.cons_append, arraySpecies, hline]
    exact ih hls

theorem arraySpecies_mark {line : Text} (h : contains arrayMark line = true) (rest : List Text) :
    arraySpecies false (line :: rest) = arraySpecies true rest := by
  rw [arraySpecies, if_pos h]

/-- Plain lines are passed over. -/
theorem arraySpecies_plain {ls : List Text} (h : ∀ line ∈ ls, IsPlain line) (rest : List Text) :
    arraySpecies true (ls ++ rest) = arraySpecies true rest := by
  induction ls with
  | nil => rfl
  | cons line ls ih =>
    obtain ⟨⟨hopen, hentry⟩, hls⟩ := List.forall_mem_cons.1 h
    rw [List.cons_append, arraySpecies, hopen, hentry]
    split
    · exact ih hls
    · exact ih hls

theorem arraySpecies_closing {line : Text} (h : line.contains '}' = true)
    (hmark : contains arrayMark line = false) (rest : List Text) :
    arraySpecies true (line :: rest) = [] := by
  rw [arraySpecies, hmark, h]
  rfl

/-- A line of the array. -/
def entryLine (species : String) : Text := List.replicate 4 ' ' ++ species.toList ++ [',']

theorem arrayBody_choiceRecords (cs : List Choice) :
    arrayBody (choiceRecords cs) = cs.map fun c => entryLine c.species := by
  have hfrom : ∀ slot, arrayBody ⟨slotted slot (cs.map Choice.record)⟩ =
      cs.map fun c => entryLine c.species := by
    induction cs with
    | nil => exact fun _ => rfl
    | cons c cs ih =>
      intro slot
      rw [List.map_cons, List.map_cons, slotted_cons, ← ih (slot + 1), arrayBody, slots_cons,
        List.map_cons]
      dsimp only
      rw [(fields_record c).1]
      rfl
  exact hfrom 0

/-- A name is read up to the end of its word. -/
theorem nameAt?_append {stem w r : Text} (hw : IsWord w)
    (hr : ∀ c ∈ r.head?, isWordChar c = false) :
    nameAt? stem (stem ++ (w ++ r)) = some (String.ofList (stem ++ w), r) := by
  rw [nameAt?, dropStart?_append]
  cases w with
  | nil => exact absurd rfl hw.1
  | cons c w => simp only [Option.bind_eq_bind, Option.bind_some, wordRun_append hw.2 hr]

/-- An entry is read from its line. -/
theorem arraySpecies_entryLine {species : String} {word : Text} (hword : IsWord word)
    (hspecies : species.toList = "SPECIES_".toList ++ word) (rest : List Text) :
    arraySpecies true (entryLine species :: rest) = species :: arraySpecies true rest := by
  have hword' := Choice.isWord_species hword hspecies
  have hline : entryLine species = List.replicate 4 ' ' ++ (species.toList ++ [',']) :=
    List.append_assoc _ _ _
  have hmark : contains arrayMark (entryLine species) = false := by
    have hskip : contains arrayMark (List.replicate 4 ' ' ++ (species.toList ++ [','])) =
        contains arrayMark (species.toList ++ [',']) := contains_append (by decide) _
    rw [hline, hskip]
    refine contains_of_notMem (x := ' ') (by decide) ?_
    rw [List.mem_append, not_or]
    exact ⟨notMem_of_word hword'.2 (by decide), by decide⟩
  have hopen : (entryLine species).contains '}' = false := by
    rw [← Bool.not_eq_true, List.contains_iff_mem, entryLine, List.mem_append, List.mem_append,
      not_or, not_or]
    exact ⟨⟨by decide, notMem_of_word hword'.2 (by decide)⟩, by decide⟩
  have hentry : arrayEntry? (entryLine species) = some species := by
    have hblanks : ∀ c ∈ List.replicate 4 ' ', isBlank c = true := by decide
    have hname : nameAt? "SPECIES_".toList (species.toList ++ [',']) = some (species, [',']) := by
      rw [hspecies, List.append_assoc, nameAt?_append hword (by decide), ← hspecies,
        String.ofList_toList]
    unfold arrayEntry?
    rw [hline, trimStart_blanks_word hblanks hword', hname]
    rfl
  rw [arraySpecies, hmark, hopen, hentry]
  rfl

/-- The entries are read in turn. -/
theorem arraySpecies_arrayBody {cs : List Choice} (hcs : ∀ c ∈ cs, c.IsWritable)
    (rest : List Text) :
    arraySpecies true (arrayBody (choiceRecords cs) ++ rest) =
      cs.map Choice.species ++ arraySpecies true rest := by
  rw [arrayBody_choiceRecords]
  induction cs with
  | nil => rfl
  | cons c cs ih =>
    obtain ⟨hc, hcs⟩ := List.forall_mem_cons.1 hcs
    obtain ⟨word, hword, hspecies⟩ := hc.species
    rw [List.map_cons, List.map_cons, List.cons_append, List.cons_append, ← ih hcs,
      arraySpecies_entryLine hword hspecies]

/-- **The array is read as it was generated.** -/
theorem arraySpecies_generated {cs : List Choice} (hcs : ∀ c ∈ cs, c.IsWritable)
    {before plain : List Text} {mark closing : Text}
    (hbefore : ∀ line ∈ before, contains arrayMark line = false)
    (hmark : contains arrayMark mark = true) (hplain : ∀ line ∈ plain, IsPlain line)
    (hclosing : closing.contains '}' = true) (hclosing' : contains arrayMark closing = false)
    (after : List Text) :
    arraySpecies false
        (before ++ mark :: (plain ++ (arrayBody (choiceRecords cs) ++ closing :: after))) =
      cs.map Choice.species := by
  rw [arraySpecies_before hbefore, arraySpecies_mark hmark, arraySpecies_plain hplain,
    arraySpecies_arrayBody hcs, arraySpecies_closing hclosing hclosing', List.append_nil]

end Array

end TableSync.Starters
