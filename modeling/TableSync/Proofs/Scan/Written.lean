import TableSync.Proofs.Scan.Accounting
import TableSync.Proofs.Scan.Block

/-!
# Written blocks, scanned

What is written block by block is scanned exactly: nothing is lost, and no block touches another.

* `IsOneLine` says which texts stand on the line of their field: no line break, quotes and brackets
  closed, no `, .` outside of them, no comment, and no literal that the line leaves open.
* `WrittenField.IsEmitted` says which fields are meant: such a text, which is read as it stands, or
  a string literal on several lines, of which the escaped text is read.
* `WrittenField.IsEmitted.stores` is one field.  What both kinds have in common is
  `WrittenField.Stores`: the lines of the field are gone over, and the field is stored.  From here
  on the kind of a field plays no part.
* `reads_blocks` is a list of blocks, by induction, with `Scan.withWritten` for what one block adds
  to a scan; `foldl_withWritten` says what the list has added in the end.
* **`scan_blocks`** is the scan of a whole text of blocks.  The number of fields in the tally is
  that of the blocks, and no line is passed over.

A key may come twice in a block, and then the later field replaces the earlier one
(`WrittenBlock.entity`); two blocks may have one id, and then both are entities.
-/

set_option autoImplicit false

namespace TableSync

/-! ## Texts on one line -/

/-- The openers of string literals. -/
def literalOpeners : List Text := ["COMPOUND_STRING(".toList, "_(".toList]

/-- A text on one line in which quotes and brackets are closed and no separator of fields stands
outside them. -/
structure IsInlineText (w : Text) : Prop where
  /-- The text stays on its line. -/
  newline : '\n' ∉ w
  /-- Quotes and brackets that open in the text close in it, and no bracket closes that has not
  opened. -/
  closed : IsClosed w
  /-- No separator of fields is found in it, also not one that begins at its end. -/
  separator : Passes ", .".toList (0, .plain) w []

/-- Such a text without comment outside quotes; and if it starts with a string literal, that ends on
the line. -/
structure IsOneLine (w : Text) : Prop extends IsInlineText w where
  /-- No comment begins in it outside quotes, so nothing is cut off. -/
  comment : IsUncommented .plain w
  /-- A string literal at its start ends in it, so the next line is a line of the body. -/
  literal : ∀ p ∈ literalOpeners, startsWith p (trimStart w) = true → (segments w).closed = true

/-- A literal that opens on the line of its field ends on it, too. -/
theorem IsOneLine.closed_of_opener {w rest : Text} (hw : IsOneLine w)
    (h : (dropStart? "COMPOUND_STRING(".toList (trimStart (w ++ [',']))).or
      (dropStart? "_(".toList (trimStart (w ++ [',']))) = some rest) :
    (segments rest).closed = true := by
  obtain ⟨p, hp, hdrop⟩ : ∃ p ∈ literalOpeners,
      dropStart? p (trimStart (w ++ [','])) = some rest := by
    rcases Option.or_eq_some_iff.1 h with h | ⟨-, h⟩
    · exact ⟨_, List.mem_cons_self, h⟩
    · exact ⟨_, List.mem_cons_of_mem _ List.mem_cons_self, h⟩
  obtain ⟨hquote, hlast⟩ : '"' ∉ p ∧ ∀ s, p ≠ s ++ [','] := by
    simp only [literalOpeners, List.mem_cons, List.not_mem_nil, or_false] at hp
    refine ⟨by rcases hp with rfl | rfl <;> decide, fun s hs => ?_⟩
    have hend := congrArg List.getLast? hs
    rw [List.getLast?_concat] at hend
    rcases hp with rfl | rfl <;> exact absurd hend (by decide)
  obtain ⟨b, m, rfl, hb, hm⟩ := exists_run isBlank w
  have htrim : ∀ r, trimStart (b ++ m ++ ',' :: r) = m ++ ',' :: r := by
    intro r
    rw [List.append_assoc, trimStart_blanks_append hb]
    refine trimStart_eq_self ?_
    cases m with
    | nil => simp [isBlank]
    | cons c m => exact hm
  have hshape := dropStart?_eq_some_iff.1 hdrop
  rw [htrim] at hshape
  rcases List.eq_nil_or_concat rest with rfl | ⟨r, c, rfl⟩
  · exact absurd (by rw [hshape, List.append_nil]) (hlast m)
  · rw [List.concat_eq_append, ← List.append_assoc] at hshape
    obtain ⟨rfl, hc⟩ := List.append_inj' hshape rfl
    obtain rfl := (List.cons.inj hc).1
    have hblank : '"' ∉ b := fun hmem => absurd (hb _ hmem) (by decide)
    have hclosed := hw.literal p hp (startsWith_iff.2 ⟨r, by
      rw [trimStart_blanks_append hb, trimStart_eq_self hm]⟩)
    rw [segments_append hblank, segments_append hquote] at hclosed
    rw [List.concat_eq_append, segments_append_of_closed hclosed (by decide), hclosed]

/-! ## Fields

A field with the text that is written for it and the one that is read of it (`WrittenField`), of
which there are two kinds. -/

/-- A scanner of entities whose names have a stem. -/
def Scanner.ofStem (stem : Text) (table : FieldTable) : Scanner where
  header := headerAt? stem
  fields := table

/-- A field on one line is stored with its text trimmed. -/
theorem IsOneLine.stores {key : String} {w : Text} (hw : IsOneLine w) (hkey : IsKey key.toList)
    (stem : Text) (table : FieldTable) :
    WrittenField.Stores (.ofStem stem table) ⟨key, w, trim w⟩ := fun _ _ hstate =>
  Scanner.Reads.line_of_step (isLine_fieldLine hkey hw.newline)
    (step_fieldLine hkey (cutCommentFrom_concat hw.comment (by decide)) hw.separator
      (fun _ => hw.closed_of_opener) hstate rfl (headerAt?_fieldLine stem))

/-- A field that is written on one line and read as it stands, or a text that is written on several
lines and read in its escaped form. -/
inductive WrittenField.IsEmitted : WrittenField → Prop
  | line {key : String} {w : Text} : IsKey key.toList → IsTrimmed w → IsOneLine w →
      IsEmitted ⟨key, w, w⟩
  | literal {key : String} {t : Text} : IsKey key.toList → t ≠ [] →
      IsEmitted ⟨key, Emit.compoundString t, escape t⟩

theorem WrittenField.IsEmitted.stores {f : WrittenField} (h : f.IsEmitted) (stem : Text)
    (table : FieldTable) : f.Stores (.ofStem stem table) := by
  cases h with
  | line hkey htrim hw =>
    have hstores := hw.stores hkey stem table
    rwa [trim_eq_self htrim] at hstores
  | literal hkey ht =>
    exact fun _ _ hstate => reads_compoundString ht hkey hstate rfl (headerAt?_openerLine stem)

/-! ## Blocks

A block is `Emit.block`: a line for the header, one for the opening brace, the fields and one for
the closing brace. -/

/-- A name with a stem: the stem and a word. -/
def IsIdOf (stem : Text) (id : String) : Prop := ∃ word, IsWord word ∧ id.toList = stem ++ word

theorem IsIdOf.isBlockOf {stem : Text} (hstem : ∀ c ∈ stem, isWordChar c = true) {id : String}
    (h : IsIdOf stem id) (table : FieldTable) : IsBlockOf (.ofStem stem table) id := by
  obtain ⟨word, hword, hid⟩ := h
  exact {
    word := by
      rw [hid]
      exact fun c hc => (List.mem_append.1 hc).elim (hstem c) (hword.2 c)
    rawHeader := rfl
    header := headerAt?_headerLine hword hid
    rawOpening := rfl
    opening := rfl
    rawClosing := rfl
    closing := rfl }

/-- An entity as it is written. -/
structure WrittenBlock where
  /-- The name in the header. -/
  id : String
  /-- The fields in the order of their lines. -/
  fields : List WrittenField

namespace WrittenBlock

/-- The lines of the block. -/
def lines (b : WrittenBlock) : List Text :=
  Emit.block b.id (b.fields.map fun f => (f.key, f.written))

/-- The entity with the fields of the block, each read by its parser and put in in turn. -/
def entity (table : FieldTable) (b : WrittenBlock) : Entity :=
  ⟨b.id, Record.empty.insertAll ((rawFields b.fields).map fun f => (f.1, (table.parse f.1 f.2).value))⟩

/-- The block has a name with the stem, and fields that can be read. -/
structure IsEmitted (stem : Text) (b : WrittenBlock) : Prop where
  /-- The name starts with the stem and goes on with a word. -/
  id : IsIdOf stem b.id
  /-- Each field is a text on its line or a string literal. -/
  fields : ∀ f ∈ b.fields, f.IsEmitted

end WrittenBlock

section Blocks

variable {scanner : Scanner}

/-- The scan after one more block. -/
def Scan.withWritten (scanner : Scanner) (scan : Scan) (b : WrittenBlock) : Scan :=
  scan.withBlock scanner b.id (rawFields b.fields)

/-- **Blocks are gone over in turn.** -/
theorem reads_blocks {blocks : List WrittenBlock}
    (h : ∀ b ∈ blocks, IsBlockOf scanner b.id ∧ ∀ f ∈ b.fields, f.Stores scanner) (scan : Scan)
    (hstate : scan.state = .seeking) :
    scanner.Reads (unlines (blocks.flatMap WrittenBlock.lines)) scan
      (blocks.foldl (Scan.withWritten scanner) scan) := by
  induction blocks generalizing scan with
  | nil => exact Scanner.Reads.nil
  | cons b blocks ih =>
    obtain ⟨hid, hfields⟩ := h b List.mem_cons_self
    have hfirst : scanner.Reads (unlines b.lines) scan (scan.withWritten scanner b) :=
      reads_block hid hfields hstate
    have hrest := ih (fun c hc => h c (List.mem_cons_of_mem b hc)) (scan.withWritten scanner b) hstate
    have hshape : unlines ((b :: blocks).flatMap WrittenBlock.lines) =
        unlines b.lines ++ unlines (blocks.flatMap WrittenBlock.lines) := by
      simp [unlines]
    rw [hshape]
    exact hfirst.append hrest

theorem fields_storeAll (e : Entity) (report : Report) (raws : List (String × Text)) :
    (scanner.storeAll e report raws).2.fields = report.fields + raws.length := by
  induction raws generalizing e report with
  | nil => rfl
  | cons f raws ih =>
    have hfirst : (scanner.store e report f.1 f.2).2.fields = report.fields + 1 := rfl
    have hrest := ih (scanner.store e report f.1 f.2).1 (scanner.store e report f.1 f.2).2
    rw [hfirst, Nat.add_assoc, Nat.add_comm 1] at hrest
    exact hrest

/-- What blocks add to a scan: their entities, and to the tally the number of their fields. -/
theorem foldl_withWritten (scanner : Scanner) (blocks : List WrittenBlock) (scan : Scan) :
    let scan' := blocks.foldl (Scan.withWritten scanner) scan
    scan'.state = scan.state ∧ scan'.rawTexts = scan.rawTexts ∧
      scan'.entities = scan.entities ++ blocks.map (WrittenBlock.entity scanner.fields) ∧
      scan'.report.fields = scan.report.fields + (blocks.flatMap WrittenBlock.fields).length ∧
      scan'.report.skippedLines = scan.report.skippedLines := by
  induction blocks generalizing scan with
  | nil => exact ⟨rfl, rfl, (List.append_nil _).symm, rfl, rfl⟩
  | cons b blocks ih =>
    obtain ⟨hstate, htexts, hentities, hfields, hskipped⟩ := ih (scan.withWritten scanner b)
    have hentity : (scan.withWritten scanner b).entities =
        scan.entities ++ [b.entity scanner.fields] := by
      rw [Scan.withWritten, Scan.withBlock, storeAll_fst]
      rfl
    have hcount : (scan.withWritten scanner b).report.fields =
        scan.report.fields + b.fields.length := by
      have hlength : (rawFields b.fields).length = b.fields.length := List.length_map _
      rw [← hlength]
      exact fields_storeAll _ _ _
    have hskip : (scan.withWritten scanner b).report.skippedLines = scan.report.skippedLines :=
      (scanner.gains_storeAll _ _ _).2.2
    refine ⟨hstate, htexts, ?_, ?_, hskipped.trans hskip⟩
    · rw [List.foldl_cons, hentities, hentity, List.map_cons, List.append_assoc,
        List.singleton_append]
    · rw [List.foldl_cons, hfields, hcount, List.flatMap_cons, List.length_append, Nat.add_assoc]

/-- Blocks that are gone over are what a text of blocks is scanned as. -/
theorem scan_of_stores {blocks : List WrittenBlock}
    (h : ∀ b ∈ blocks, IsBlockOf scanner b.id ∧ ∀ f ∈ b.fields, f.Stores scanner) :
    let scan := scanner.scan (unlines (blocks.flatMap WrittenBlock.lines))
    scan.entities = blocks.map (WrittenBlock.entity scanner.fields) ∧ scan.rawTexts = [] ∧
      scan.report.fields = (blocks.flatMap WrittenBlock.fields).length ∧
      scan.report.skippedLines = 0 := by
  obtain ⟨hstate, htexts, hentities, hfields, hskipped⟩ := foldl_withWritten scanner blocks {}
  rw [(reads_blocks h {} rfl).scan_eq]
  refine ⟨?_, ?_, ?_, hskipped⟩
  · rw [Scanner.finish, hstate, hentities]
    exact List.append_nil _
  · rw [Scanner.finish, hstate, htexts]
  · exact hfields.trans (Nat.zero_add _)

end Blocks

/-- **A text of blocks is scanned exactly.**  Its entities are those of the blocks in turn, each with
the fields of its block as the parsers read them; every field is counted, and no line is passed
over. -/
theorem scan_blocks {stem : Text} (hstem : ∀ c ∈ stem, isWordChar c = true) (table : FieldTable)
    {blocks : List WrittenBlock} (h : ∀ b ∈ blocks, b.IsEmitted stem) :
    let scan := (Scanner.ofStem stem table).scan (unlines (blocks.flatMap WrittenBlock.lines))
    scan.entities = blocks.map (WrittenBlock.entity table) ∧ scan.rawTexts = [] ∧
      scan.report.fields = (blocks.flatMap WrittenBlock.fields).length ∧
      scan.report.skippedLines = 0 := by
  refine scan_of_stores fun b hb => ⟨(h b hb).id.isBlockOf hstem table, fun f hf => ?_⟩
  exact ((h b hb).fields f hf).stores stem table

/-- An entity with a list, a name with quoted slashes and a description on several lines, and one
without fields. -/
def writtenSample : List WrittenBlock :=
  [⟨"SPECIES_A",
    [⟨"types", "\x7b TYPE_GRASS, TYPE_POISON \x7d".toList, "\x7b TYPE_GRASS, TYPE_POISON \x7d".toList⟩,
      ⟨"speciesName", "_(\"A // \\\"B\\\", .c\")".toList, "_(\"A // \\\"B\\\", .c\")".toList⟩,
      ⟨"description", Emit.compoundString "One,\ntwo.".toList, escape "One,\ntwo.".toList⟩]⟩,
    ⟨"SPECIES_B", []⟩]

theorem scan_blocks_writtenSample :
    (∀ c ∈ Species.speciesStem, isWordChar c = true) ∧
      (∀ b ∈ writtenSample, b.IsEmitted Species.speciesStem) ∧
      let scan := (Scanner.ofStem Species.speciesStem Species.fieldTable).scan
        (unlines (writtenSample.flatMap WrittenBlock.lines))
      scan.entities = writtenSample.map (WrittenBlock.entity Species.fieldTable) ∧
        scan.rawTexts = [] ∧ scan.report.fields = 3 ∧ scan.report.skippedLines = 0 := by
  have hstem : ∀ c ∈ Species.speciesStem, isWordChar c = true := by decide
  have htypes : IsOneLine "\x7b TYPE_GRASS, TYPE_POISON \x7d".toList :=
    ⟨⟨by decide, fun _ => rfl, by decide +kernel⟩, by decide +kernel, by decide⟩
  have hname : IsOneLine "_(\"A // \\\"B\\\", .c\")".toList :=
    ⟨⟨by decide, fun _ => rfl, by decide +kernel⟩, by decide +kernel, by decide⟩
  have hblocks : ∀ b ∈ writtenSample, b.IsEmitted Species.speciesStem := by
    refine List.forall_mem_cons.2 ⟨⟨⟨['A'], ⟨by decide, by decide⟩, rfl⟩, ?_⟩,
      List.forall_mem_cons.2 ⟨⟨⟨['B'], ⟨by decide, by decide⟩, rfl⟩, by simp⟩, by simp⟩⟩
    simp only [List.mem_cons, List.not_mem_nil, or_false]
    rintro f (rfl | rfl | rfl)
    · exact .line ⟨by decide, by decide⟩ ⟨by decide, by decide⟩ htypes
    · exact .line ⟨by decide, by decide⟩ ⟨by decide, by decide⟩ hname
    · exact .literal ⟨by decide, by decide⟩ (by decide)
  exact ⟨hstem, hblocks, scan_blocks hstem Species.fieldTable hblocks⟩

end TableSync
