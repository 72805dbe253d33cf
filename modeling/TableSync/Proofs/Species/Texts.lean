import TableSync.Proofs.Scan.Written
import TableSync.Proofs.Species.Field

/-!
# Texts of species, written and scanned

The names, the categories and the descriptions of species are texts.  Whatever such a text holds, it
is read back from the block that is written for it and then taken apart like every other value.

* `Value.decompose_str_iff` says which texts are left as they are: exactly those in which no
  conditional is found.
* `exists_stores_text` is one text field, by cases on its key, and **`scan_text`** the whole way
  from the value over its block to the entity.
* Between its lines a description stands without its quotes, and `IsBareText` is what it must not
  look like then; `scan_disguisedTexts` are texts that are read as something else.

The scanner here has the fields of the species table and their headers, but not the declarations of
texts between entities: `Scanner.ofStem`.  So the text of a label may hold anything at all, an
opening of such a declaration included, and quotes, line feeds, commas and separators of fields in
any text are no danger, since they are escaped or stand between quotes.
-/

set_option autoImplicit false

namespace TableSync

/-- A text is left as it is exactly if no conditional is found in it. -/
theorem Value.decompose_str_iff (s : String) :
    (Value.str s).decompose = .str s ↔ Conditional.find? s.toList = none := by
  rw [Value.decompose]
  cases h : Conditional.find? s.toList <;> simp

namespace Species

/-! ## One field -/

/-- The keys of texts. -/
def textKeys : List String := "description" :: labelKeys

/-- An escaped text that is read as a text even without its quotes. -/
structure IsBareText (t : Text) : Prop where
  /-- Trimming takes nothing off at its ends. -/
  trimmed : IsTrimmed (escape t)
  /-- It is not read as an integer. -/
  integer : readInt? (escape t) = none
  /-- It is not folded to an integer. -/
  folded : fold? (escape t) = none
  /-- It has no quotes of its own that would be taken off. -/
  literal : unwrapLiteral (escape t) = escape t

variable {key : String} {s : String}

/-- A text is written, stored and read as itself. -/
theorem exists_stores_text (id : String) (constants : ConstantTable) (hkey : key ∈ textKeys)
    (hs : key = "description" → s ≠ "" → IsBareText s.toList) :
    ∃ f : WrittenField, f.key = key ∧ renderField id key constants (.str s) = .ok f.written ∧
      f.Stores (.ofStem speciesStem fieldTable) ∧
      (fieldTable.parse key f.raw).value = (Value.str s).decompose := by
  have hread : (Value.ofText s.toList).decompose = (Value.str s).decompose := by
    rw [Value.ofText, String.ofList_toList]
  rcases List.mem_cons.1 hkey with rfl | hlabel
  · by_cases hempty : s = ""
    · subst hempty
      exact ⟨⟨"description", _, _⟩, rfl, rfl, fun _ _ hstate =>
        isFieldText_emptyString.reads isKey_description hstate rfl (headerAt?_fieldLine speciesStem),
        rfl⟩
    · obtain ⟨htrim, hint, hfold, hwrap⟩ := hs rfl hempty
      have hne : s.toList ≠ [] := fun h => hempty (String.toList_inj.1 h)
      exact ⟨⟨"description", Emit.compoundString s.toList, escape s.toList⟩, rfl, rfl,
        fun _ _ hstate => reads_compoundString hne isKey_description hstate rfl
          (headerAt?_openerLine speciesStem),
        (parse_escape htrim hint hfold hwrap).trans hread⟩
  · exact ⟨⟨key, Emit.localized s.toList, Emit.localized s.toList⟩, rfl,
      renderField_label hlabel id constants s,
      fun _ _ hstate => (isFieldText_localized s.toList).reads (isKey_of_mem_labelKeys hlabel) hstate
        rfl (headerAt?_fieldLine speciesStem),
      (parse_localized hlabel s.toList).trans hread⟩

/-! ## One entity -/

/-- **A text is read back from the block that is written for it**, and then taken apart: it is the
text itself exactly if no conditional is found in it. -/
theorem scan_text {id : String} (hid : IsIdOf speciesStem id) (constants : ConstantTable)
    (hkey : key ∈ textKeys) (hs : key = "description" → s ≠ "" → IsBareText s.toList) :
    ∃ w, renderField id key constants (.str s) = .ok w ∧
      ((Scanner.ofStem speciesStem fieldTable).scan (unlines (Emit.block id [(key, w)]))).entities =
        [⟨id, ⟨[(key, (Value.str s).decompose)]⟩⟩] ∧
      ((Value.str s).decompose = .str s ↔ Conditional.find? s.toList = none) := by
  obtain ⟨f, rfl, hrender, hstores, hvalue⟩ := exists_stores_text id constants hkey hs
  refine ⟨f.written, hrender, ?_, Value.decompose_str_iff s⟩
  have hblocks : ∀ b ∈ [WrittenBlock.mk id [f]], IsBlockOf (.ofStem speciesStem fieldTable) b.id ∧
      ∀ f ∈ b.fields, f.Stores (.ofStem speciesStem fieldTable) := by
    simpa using ⟨hid.isBlockOf (by decide) fieldTable, hstores⟩
  refine (scan_of_stores hblocks).1.trans ?_
  show [Entity.mk id ⟨[(f.key, (fieldTable.parse f.key f.raw).value)]⟩] = _
  rw [hvalue]

/-- A description on two lines with a quote and a question mark. -/
def questionText : String := "Is it \"two\"?\n3 + 4, maybe."

theorem scan_text_questionText :
    IsBareText questionText.toList ∧ Conditional.find? questionText.toList = none ∧
      ∃ w, renderField "SPECIES_A" "description" [] (.str questionText) = .ok w ∧
        ((Scanner.ofStem speciesStem fieldTable).scan
          (unlines (Emit.block "SPECIES_A" [("description", w)]))).entities =
            [⟨"SPECIES_A", ⟨[("description", (Value.str questionText).decompose)]⟩⟩] ∧
        ((Value.str questionText).decompose = .str questionText ↔
          Conditional.find? questionText.toList = none) := by
  have hbare : IsBareText questionText.toList :=
    ⟨⟨by decide +kernel, by decide +kernel⟩, by decide +kernel, by decide +kernel, by decide +kernel⟩
  exact ⟨hbare, by decide +kernel, scan_text ⟨['A'], ⟨by decide, by decide⟩, rfl⟩ [] (by decide)
    fun _ _ => hbare⟩

/-- What is read of a text from the block that is written for it. -/
def scannedText (key s : String) : List (Option Value) :=
  match renderField "SPECIES_A" key [] (.str s) with
  | .error _ => []
  | .ok w => ((Scanner.ofStem speciesStem fieldTable).scan
      (unlines (Emit.block "SPECIES_A" [(key, w)]))).entities.map (·.fields.get? key)

/-- **Texts that are read as something else**: one that holds a conditional, a description that is an
integer, and one that starts with a blank. -/
theorem scan_disguisedTexts :
    scannedText "speciesName" "A > B ? C : D" =
        [some (.conditional ⟨"A", .gt, "B", .str "C", .str "D", 0, 0⟩)] ∧
      scannedText "description" "12" = [some (.int 12)] ∧
      scannedText "description" " One." = [some (.str "One.")] := by
  decide +kernel

end Species

end TableSync
