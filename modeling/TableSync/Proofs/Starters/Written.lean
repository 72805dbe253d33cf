import TableSync.Category.Starters
import TableSync.Proofs.Data.Record
import TableSync.Proofs.Expr.Literal
import TableSync.Proofs.Text.Lines
import TableSync.Proofs.Text.Search

/-!
# The lines of a starter

Each line that is written for a starter is read as the setting it makes.

* `Choice` is a starter with its settings, and `Choice.record` its record in a document.
  `Choice.IsWritable` says which texts it may have; where only the function is written, the species
  need not have a name of its kind (`Choice.IsGivable`).
* `caseLines_record` writes the lines of a case from the settings of its starter.  The move and the
  ability number have no line if they are what a starter without settings has.
* `Sets` says what a line does to the record of the starter whose case it stands in;
  `sets_giveLine`, `sets_moveLine` and `sets_abilityLine` are about the lines that are written.  The
  reader looks for the three kinds of settings in turn, so for each kind it is shown that those
  before it are not found on its line.
* `applyLines_caseLines` puts them together: the lines of a case set what its starter has.  It
  starts from a starter without settings, `Choice.plain`, and goes through one setting after the
  other.
-/

set_option autoImplicit false

namespace TableSync.Starters

/-- A starter with its settings. -/
structure Choice where
  /-- The name of its species. -/
  species : String
  /-- The level at which it is given. -/
  level : Nat
  /-- The item that it holds. -/
  item : String
  /-- A move that it is taught, or none. -/
  move : String
  /-- The number of its ability, or the number that stands for none. -/
  ability : Int

namespace Choice

/-- The record of a starter. -/
def record (c : Choice) : Record :=
  ⟨[("species", .str c.species), ("level", .int c.level), ("item", .str c.item),
    ("custom_move", .str c.move), ("ability_num", .int c.ability)]⟩

/-- The species has a name of its kind, the item and the move are words, and the numbers have 64
bits. -/
structure IsWritable (c : Choice) : Prop where
  /-- The array is read by names of this kind only. -/
  species : ∃ word, IsWord word ∧ c.species.toList = "SPECIES_".toList ++ word
  /-- The level is read as an integer of 64 bits. -/
  level : IsInt64 c.level
  /-- The item is read up to the end of a word. -/
  item : IsWord c.item.toList
  /-- The move is read up to the end of a word. -/
  move : IsWord c.move.toList
  /-- The ability number is read as an integer of 64 bits. -/
  ability : IsInt64 c.ability

theorem isWord_species {species : String} {word : Text} (hword : IsWord word)
    (h : species.toList = "SPECIES_".toList ++ word) : IsWord species.toList := by
  rw [h]
  refine ⟨fun hnil => hword.1 (List.append_eq_nil_iff.1 hnil).2, ?_⟩
  rw [List.forall_mem_append]
  exact ⟨by decide, hword.2⟩

/-- The species, the item and the move are words, and the numbers have 64 bits.  The function that
gives the starter needs no more: there the species stands in a comment. -/
structure IsGivable (c : Choice) : Prop where
  /-- The species stays on the line of its comment. -/
  species : IsWord c.species.toList
  /-- The level is read as an integer of 64 bits. -/
  level : IsInt64 c.level
  /-- The item is read up to the end of a word. -/
  item : IsWord c.item.toList
  /-- The move is read up to the end of a word. -/
  move : IsWord c.move.toList
  /-- The ability number is read as an integer of 64 bits. -/
  ability : IsInt64 c.ability

theorem IsWritable.isGivable {c : Choice} (hc : c.IsWritable) : c.IsGivable := by
  obtain ⟨word, hword, hspecies⟩ := hc.species
  exact ⟨isWord_species hword hspecies, hc.level, hc.item, hc.move, hc.ability⟩

end Choice

/-! ## Single lines

The lines as they are written, and the recognisers that read them.  A recogniser needs a character
that it starts with, or one that it holds; where this character is missing nothing is found. -/

/-- The line of a case. -/
def caseHead (slot species : String) : Text :=
  "        case ".toList ++ slot.toList ++ ": // ".toList ++ species.toList

/-- The line with the call that gives a starter. -/
def giveLine (level : Int) (item : String) : Text :=
  statementIndent ++ "ScriptGiveMon(starterMon, ".toList ++ showInt level ++ ", ".toList
    ++ item.toList ++ ", 0, 0, 0);".toList

/-- The line with the call that teaches a move. -/
def moveLine (move : String) : Text :=
  statementIndent ++ "GiveMoveToMon(&gPlayerParty[0], ".toList ++ move.toList ++ ");".toList

/-- The line that assigns the ability number. -/
def abilityLine (ability : Int) : Text :=
  statementIndent ++ "abilityNum = ".toList ++ showInt ability ++ [';']

/-- What is written of a starter is what its record holds. -/
theorem fields_record (c : Choice) :
    textField c.record "species" noSpecies = c.species.toList ∧
      intField c.record "level" defaultLevel = c.level ∧
      textField c.record "item" noItem = c.item.toList ∧
      textField c.record "custom_move" noMove = c.move.toList ∧ abilityOf c.record = c.ability := by
  simp [textField, intField, abilityOf, Choice.record, Record.str?, Record.get?, findField,
    Value.str?, Value.toInt?]

/-- The lines that teach the move of a starter. -/
def moveLines (move : String) : List Text :=
  if move.toList = noMove.toList then [] else [moveLine move]

/-- The lines that set the ability number of a starter. -/
def abilityLines (ability : Int) : List Text :=
  if ability = defaultAbility then []
  else [abilityLine ability,
    statementIndent ++ "SetMonData(&gPlayerParty[0], MON_DATA_ABILITY_NUM, &abilityNum);".toList]

/-- The lines of a case, from the settings of its starter. -/
theorem caseLines_record (slot : String) (c : Choice) :
    caseLines slot c.record = [caseHead slot c.species, giveLine c.level c.item] ++
      moveLines c.move ++ abilityLines c.ability ++ [statementIndent ++ "break;".toList] := by
  obtain ⟨hspecies, hlevel, hitem, hmove, hability⟩ := fields_record c
  rw [caseLines, hspecies, hlevel, hitem, hmove, hability]
  rfl

theorem forall_blank : ∀ c ∈ [' '], isBlank c = true := by decide

theorem caseSlot?_of_digits {line s t u slot : Text}
    (hcase : dropStart? "case".toList (trimStart line) = some s)
    (hblank : s.head?.any isBlank = true) (hslot : digitsAt? s = some (slot, t))
    (hcolon : afterBlanks? [':'] t = some u) : caseSlot? line = some (String.ofList slot) := by
  rw [caseSlot?, hcase]
  simp [hblank, hslot, hcolon]

/-- The slot of a case is read from its line. -/
theorem caseSlot?_caseHead {slot : String} (hne : slot.toList ≠ [])
    (hdigits : ∀ c ∈ slot.toList, isAsciiDigit c = true) (species : String) :
    caseSlot? (caseHead slot species) = some slot := by
  have hcase : ∀ s : Text,
      dropStart? "case".toList (trimStart ("        case ".toList ++ s)) = some ([' '] ++ s) :=
    fun _ => rfl
  have hslot : digitsAt? ([' '] ++ (slot.toList ++ (": // ".toList ++ species.toList))) =
      some (slot.toList, ": // ".toList ++ species.toList) := by
    refine digitsAt?_append forall_blank hne hdigits fun c hc => ?_
    obtain rfl : ':' = c := Option.some.inj hc
    decide
  have hcolon : ∀ s : Text, afterBlanks? [':'] (": // ".toList ++ s) = some (" // ".toList ++ s) :=
    fun _ => rfl
  have hblank : ∀ s : Text, ([' '] ++ s).head?.any isBlank = true := fun _ => rfl
  have hline : caseHead slot species =
      "        case ".toList ++ (slot.toList ++ (": // ".toList ++ species.toList)) :=
    (List.append_assoc _ _ _).trans (List.append_assoc _ _ _)
  rw [hline, caseSlot?_of_digits (hcase _) (hblank _) hslot (hcolon _), String.ofList_toList]

theorem caseSlot?_slotKey (slot : Nat) (species : String) :
    caseSlot? (caseHead (slotKey slot) species) = some (slotKey slot) := by
  have hkey : (slotKey slot).toList = showNat slot := String.toList_ofList
  refine caseSlot?_caseHead ?_ ?_ species
  · rw [hkey]
    exact showNat_ne_nil slot
  · rw [hkey]
    exact fun c => isAsciiDigit_of_mem_showNat

theorem givenMonAt?_of_parts {s t u v w level item : Text}
    (hcall : dropStart? "ScriptGiveMon(starterMon,".toList s = some t)
    (hlevel : digitsAt? t = some (level, u)) (hcomma : dropStart? [','] u = some v)
    (hitem : wordAt? v = some (item, w)) :
    givenMonAt? s = some (.scalar level, String.ofList item) := by
  rw [givenMonAt?, hcall]
  simp [hlevel, hcomma, hitem]

theorem givenMoveAt?_of_parts {s t u v move : Text}
    (hcall : dropStart? "GiveMoveToMon(&gPlayerParty[0],".toList s = some t)
    (hmove : wordAt? t = some (move, u)) (hclose : dropStart? [')'] u = some v) :
    givenMoveAt? s = some (String.ofList move) := by
  rw [givenMoveAt?, hcall]
  simp [hmove, hclose]

/-- A number is read with its sign. -/
theorem givenAbilityAt?_of_parts {s t u v sign digits : Text}
    (hname : dropStart? "abilityNum".toList s = some t) (hequals : afterBlanks? ['='] t = some u)
    (hnumber : trimStart u = sign ++ (digits ++ ';' :: v)) (hsign : sign = [] ∨ sign = ['-'])
    (hne : digits ≠ []) (hdigits : ∀ c ∈ digits, isAsciiDigit c = true) :
    givenAbilityAt? s = some (.scalar (sign ++ digits)) := by
  have hspan : (digits ++ ';' :: v).span isDecimal = (digits, ';' :: v) := by
    refine span_append (fun c hc => isDecimal_of_isAsciiDigit (hdigits c hc)) fun c hc => ?_
    obtain rfl : ';' = c := Option.some.inj hc
    decide
  have hsemicolon : dropStart? [';'] (';' :: v) = some v := rfl
  rw [givenAbilityAt?, hname]
  cases digits with
  | nil => exact absurd rfl hne
  | cons d ds =>
    rcases hsign with rfl | rfl
    · have hd : '-' ≠ d := by
        rintro rfl
        exact absurd (hdigits _ List.mem_cons_self) (by decide)
      have hplain : dropStart? ['-'] (d :: ds ++ ';' :: v) = none := dropStart?_of_head? rfl hd
      rw [List.nil_append] at hnumber
      simp only [Option.bind_eq_bind, Option.bind_some, hequals, hnumber, hplain, hspan,
        hsemicolon]
      rfl
    · have hminus : dropStart? ['-'] (['-'] ++ (d :: ds ++ ';' :: v)) =
          some (d :: ds ++ ';' :: v) := rfl
      simp only [Option.bind_eq_bind, Option.bind_some, hequals, hnumber, hminus, hspan,
        hsemicolon]
      rfl

/-- An integer is read as an ability number. -/
theorem givenAbilityAt?_showInt (n : Int) :
    givenAbilityAt? ("abilityNum = ".toList ++ (showInt n ++ [';'])) = some (.scalar (showInt n)) := by
  have hname : ∀ s : Text, dropStart? "abilityNum".toList ("abilityNum = ".toList ++ s) =
      some ([' ', '=', ' '] ++ s) := fun _ => rfl
  have hequals : ∀ s : Text, afterBlanks? ['='] ([' ', '=', ' '] ++ s) = some ([' '] ++ s) :=
    fun _ => rfl
  have hdigits : ∀ m, ∀ c ∈ showNat m, isAsciiDigit c = true :=
    fun m c => isAsciiDigit_of_mem_showNat
  have hword : ∀ m, IsWord (showNat m) := fun m =>
    ⟨showNat_ne_nil m, fun c hc => isWordChar_of_isAsciiDigit (hdigits m c hc)⟩
  cases n with
  | ofNat m =>
    exact givenAbilityAt?_of_parts (hname _) (hequals _)
      (trimStart_blanks_word forall_blank (hword m) [';']) (.inl rfl) (showNat_ne_nil m)
      (hdigits m)
  | negSucc m =>
    have hnumber : ∀ s : Text, trimStart ([' '] ++ ('-' :: s)) = ['-'] ++ s := fun _ => rfl
    exact givenAbilityAt?_of_parts (hname _) (hequals _) (hnumber _) (.inr rfl)
      (showNat_ne_nil (m + 1)) (hdigits (m + 1))

theorem givenMonAt?_cons {c : Char} (hc : 'S' ≠ c) (s : Text) : givenMonAt? (c :: s) = none := by
  have hstart : dropStart? "ScriptGiveMon(starterMon,".toList (c :: s) = none :=
    dropStart?_of_head? rfl hc
  rw [givenMonAt?, hstart]
  rfl

theorem givenMonAt?_of_notMem {s : Text} (hs : '(' ∉ s) : givenMonAt? s = none := by
  rw [givenMonAt?, dropStart?_of_notMem (by decide) hs]
  rfl

theorem givenMoveAt?_cons {c : Char} (hc : 'G' ≠ c) (s : Text) : givenMoveAt? (c :: s) = none := by
  have hstart : dropStart? "GiveMoveToMon(&gPlayerParty[0],".toList (c :: s) = none :=
    dropStart?_of_head? rfl hc
  rw [givenMoveAt?, hstart]
  rfl

theorem givenMoveAt?_of_notMem {s : Text} (hs : '(' ∉ s) : givenMoveAt? s = none := by
  rw [givenMoveAt?, dropStart?_of_notMem (by decide) hs]
  rfl

theorem givenAbilityAt?_cons {c : Char} (hc : 'a' ≠ c) (s : Text) :
    givenAbilityAt? (c :: s) = none := by
  have hstart : dropStart? "abilityNum".toList (c :: s) = none := dropStart?_of_head? rfl hc
  rw [givenAbilityAt?, hstart]
  rfl

/-- What a line in a case does to the record of its starter. -/
structure Sets (line : Text) (f : Record → Record) : Prop where
  /-- The function does not start anew on the line. -/
  mark : startsWith functionMark line = false
  /-- The function does not end on the line. -/
  stays : startsWith ['}'] line = false
  /-- The line is not the line of another case. -/
  noCase : caseSlot? line = none
  /-- The setting that the line makes in a record. -/
  apply : ∀ r, applyLine line r = f r

/-- The call that gives a starter sets its level and its item. -/
theorem sets_giveLine {level : Nat} (hlevel : IsInt64 level) {item : String}
    (hitem : IsWord item.toList) :
    Sets (giveLine level item) fun r => (r.insert "level" (.int level)).insert "item" (.str item) where
  mark := rfl
  stays := rfl
  noCase := rfl
  apply r := by
    have hstart : ∀ s : Text, dropStart? "ScriptGiveMon(starterMon,".toList
        ("ScriptGiveMon(starterMon, ".toList ++ s) = some ([' '] ++ s) := fun _ => rfl
    have hcomma : ∀ s : Text, dropStart? [','] (", ".toList ++ s) = some ([' '] ++ s) := fun _ => rfl
    have hdigits : digitsAt? ([' '] ++ (showNat level ++ (", ".toList ++ (item.toList
        ++ ", 0, 0, 0);".toList)))) =
          some (showNat level, ", ".toList ++ (item.toList ++ ", 0, 0, 0);".toList)) := by
      refine digitsAt?_append forall_blank (showNat_ne_nil level)
        (fun c => isAsciiDigit_of_mem_showNat) fun c hc => ?_
      obtain rfl : ',' = c := Option.some.inj hc
      decide
    have hword : wordAt? ([' '] ++ (item.toList ++ ", 0, 0, 0);".toList)) =
        some (item.toList, ", 0, 0, 0);".toList) :=
      wordAt?_append forall_blank hitem (by decide)
    have hat : givenMonAt? ("ScriptGiveMon(starterMon, ".toList ++ (showNat level
        ++ (", ".toList ++ (item.toList ++ ", 0, 0, 0);".toList)))) = some (.int level, item) := by
      rw [givenMonAt?_of_parts (hstart _) hdigits (hcomma _) hword, String.ofList_toList]
      exact congrArg (fun v => some (v, item)) (Value.IsScalar.scalar_branchText (v := .int level) hlevel)
    have hread : search? givenMonAt? (giveLine level item) = some (.int level, item) := by
      rw [giveLine, List.append_assoc, List.append_assoc, List.append_assoc, List.append_assoc,
        search?_append (fun c s hc => givenMonAt?_cons hc s) (by decide)]
      exact search?_eq_some hat
    rw [applyLine, hread]

/-- The call that teaches a move sets it. -/
theorem sets_moveLine {move : String} (hmove : IsWord move.toList) :
    Sets (moveLine move) fun r => r.insert "custom_move" (.str move) where
  mark := rfl
  stays := rfl
  noCase := rfl
  apply r := by
    have hparenthesis : '(' ∉ move.toList ++ ");".toList := by
      rw [List.mem_append, not_or]
      exact ⟨notMem_of_word hmove.2 (by decide), by decide⟩
    have hmon : search? givenMonAt? (moveLine move) = none := by
      rw [moveLine, List.append_assoc,
        search?_append (fun c s hc => givenMonAt?_cons hc s) (by decide)]
      exact search?_eq_none (fun s hs => givenMonAt?_of_notMem hs) hparenthesis
    have hword : wordAt? ([' '] ++ (move.toList ++ ");".toList)) = some (move.toList, ");".toList) :=
      wordAt?_append forall_blank hmove (by decide)
    have hstart : ∀ s : Text, dropStart? "GiveMoveToMon(&gPlayerParty[0],".toList
        ("GiveMoveToMon(&gPlayerParty[0], ".toList ++ s) = some ([' '] ++ s) := fun _ => rfl
    have hat : givenMoveAt? ("GiveMoveToMon(&gPlayerParty[0], ".toList
        ++ (move.toList ++ ");".toList)) = some move := by
      rw [givenMoveAt?_of_parts (hstart _) hword rfl, String.ofList_toList]
    have hread : search? givenMoveAt? (moveLine move) = some move := by
      rw [moveLine, List.append_assoc, List.append_assoc,
        search?_append (fun c s hc => givenMoveAt?_cons hc s) (by decide)]
      exact search?_eq_some hat
    rw [applyLine, hmon, hread]

/-- The assignment of the ability number sets it. -/
theorem sets_abilityLine {ability : Int} (hability : IsInt64 ability) :
    Sets (abilityLine ability) fun r => r.insert "ability_num" (.int ability) where
  mark := rfl
  stays := rfl
  noCase := rfl
  apply r := by
    have hparenthesis : '(' ∉ abilityLine ability := by
      have hnumber : '(' ∉ showInt ability := by
        intro hmem
        rcases mem_showInt hmem with h | h <;> exact absurd h (by decide)
      rw [abilityLine, List.mem_append, List.mem_append, not_or, not_or]
      exact ⟨⟨by decide, hnumber⟩, by decide⟩
    have hmon : search? givenMonAt? (abilityLine ability) = none :=
      search?_eq_none (fun s hs => givenMonAt?_of_notMem hs) hparenthesis
    have hmove : search? givenMoveAt? (abilityLine ability) = none :=
      search?_eq_none (fun s hs => givenMoveAt?_of_notMem hs) hparenthesis
    have hat : givenAbilityAt? ("abilityNum = ".toList ++ (showInt ability ++ [';'])) =
        some (.int ability) := by
      rw [givenAbilityAt?_showInt]
      exact congrArg some (Value.IsScalar.scalar_branchText (v := .int ability) hability)
    have hread : search? givenAbilityAt? (abilityLine ability) = some (.int ability) := by
      rw [abilityLine, List.append_assoc, List.append_assoc,
        search?_append (fun c s hc => givenAbilityAt?_cons hc s) (by decide)]
      exact search?_eq_some hat
    rw [applyLine, hmon, hmove, hread]

theorem sets_setLine : Sets (statementIndent
    ++ "SetMonData(&gPlayerParty[0], MON_DATA_ABILITY_NUM, &abilityNum);".toList) fun r => r where
  mark := rfl
  stays := rfl
  noCase := rfl
  apply _ := rfl

theorem sets_breakLine : Sets (statementIndent ++ "break;".toList) fun r => r where
  mark := rfl
  stays := rfl
  noCase := rfl
  apply _ := rfl

/-! ## The lines of a case

The document around the record of the slot stays as it is, so it is written as the fields before the
slot, the slot, and the fields after it. -/

namespace Choice

/-- A starter before its settings are read. -/
def plain (species : String) : Choice := ⟨species, 5, noItem, noMove, defaultAbility⟩

theorem record_plain (species : String) : (plain species).record = starter species := rfl

variable (c : Choice)

theorem insert_level (level : Nat) :
    c.record.insert "level" (.int level) = { c with level }.record := by
  simp [record, Record.insert, insertField]

theorem insert_item (item : String) :
    c.record.insert "item" (.str item) = { c with item }.record := by
  simp [record, Record.insert, insertField]

theorem insert_move (move : String) :
    c.record.insert "custom_move" (.str move) = { c with move }.record := by
  simp [record, Record.insert, insertField]

theorem insert_ability (ability : Int) :
    c.record.insert "ability_num" (.int ability) = { c with ability }.record := by
  simp [record, Record.insert, insertField]

end Choice

section Case

variable {k : String} {before : List (String × Value)} (hk : k ∉ before.map Prod.fst)
  (after : List (String × Value)) (rest : List Text)

include hk

/-- A line in a case changes the record of its slot. -/
theorem applyLines_sets {line : Text} {f : Record → Record} (h : Sets line f) (r : Record) :
    applyLines true (some k) ⟨before ++ (k, .record r) :: after⟩ (line :: rest) =
      applyLines true (some k) ⟨before ++ (k, .record (f r)) :: after⟩ rest := by
  have hget : (⟨before ++ (k, .record r) :: after⟩ : Record).record? k = some r := by
    rw [Record.record?, Record.get?_append hk]
    rfl
  have hmodify : (⟨before ++ (k, .record r) :: after⟩ : Record).modifyRecord? k (applyLine line) =
      some ⟨before ++ (k, .record (f r)) :: after⟩ := by
    rw [Record.modifyRecord?, hget, Option.map_some, Record.insert_append hk, h.apply]
  rw [applyLines, h.mark, h.stays, h.noCase]
  simp only [Bool.false_eq_true, if_false, Bool.not_true, Option.bind_some, hmodify,
    Option.getD_some]

theorem applyLines_moveLines {move : String} (hmove : IsWord move.toList) {c : Choice}
    (hc : c.move = noMove) :
    applyLines true (some k) ⟨before ++ (k, .record c.record) :: after⟩ (moveLines move ++ rest) =
      applyLines true (some k) ⟨before ++ (k, .record { c with move }.record) :: after⟩ rest := by
  rw [moveLines]
  split
  · next h =>
    obtain rfl := String.toList_inj.1 h
    rw [← hc]
    rfl
  · rw [List.cons_append, List.nil_append, applyLines_sets hk _ _ (sets_moveLine hmove),
      Choice.insert_move]

theorem applyLines_abilityLines {ability : Int} (hability : IsInt64 ability) {c : Choice}
    (hc : c.ability = defaultAbility) :
    applyLines true (some k) ⟨before ++ (k, .record c.record) :: after⟩
        (abilityLines ability ++ rest) =
      applyLines true (some k) ⟨before ++ (k, .record { c with ability }.record) :: after⟩ rest := by
  rw [abilityLines]
  split
  · next h =>
    rw [h, ← hc]
    rfl
  · rw [List.cons_append, List.cons_append, List.nil_append,
      applyLines_sets hk _ _ (sets_abilityLine hability), applyLines_sets hk _ _ sets_setLine,
      Choice.insert_ability]

end Case

/-- **The lines of a case are read as the settings of its starter.** -/
theorem applyLines_caseLines {c : Choice} (hc : c.IsGivable) {slot : Nat}
    {before : List (String × Value)} (hslot : slotKey slot ∉ before.map Prod.fst)
    (after : List (String × Value)) (rest : List Text) (slot? : Option String) :
    applyLines true slot? ⟨before ++ (slotKey slot, .record (starter c.species)) :: after⟩
        (caseLines (slotKey slot) c.record ++ rest) =
      applyLines true (some (slotKey slot))
        ⟨before ++ (slotKey slot, .record c.record) :: after⟩ rest := by
  have hmark : startsWith functionMark (caseHead (slotKey slot) c.species) = false := rfl
  have hstays : startsWith ['}'] (caseHead (slotKey slot) c.species) = false := rfl
  rw [caseLines_record, ← Choice.record_plain]
  simp only [List.cons_append, List.nil_append, List.append_assoc]
  rw [applyLines, hmark, hstays, caseSlot?_slotKey]
  simp only [Bool.false_eq_true, if_false, Bool.not_true]
  rw [applyLines_sets hslot _ _ (sets_giveLine hc.level hc.item), Choice.insert_level,
    Choice.insert_item, applyLines_moveLines hslot _ _ hc.move rfl,
    applyLines_abilityLines hslot _ _ hc.ability rfl, applyLines_sets hslot _ _ sets_breakLine]
  rfl

end TableSync.Starters
