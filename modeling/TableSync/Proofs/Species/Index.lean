import TableSync.Category.Species
import TableSync.Proofs.Data.Record
import TableSync.Proofs.Text.Word

/-!
# The index of species

The national dex gives an index of species, each without fields and forms.

* `blankSpecies` is a species before any entity has taken its place, and `IsIndexed` says what an
  entry of the index is: a name with the stem of species and a word, and a blank species with the
  same word.
* `exists_of_enumEntry?` and `dexEntry?_spec` are about a line of the header: what is read of it is
  a name with the stem of the dex, which stands on the line, and it is no numeral.
* `exists_of_mem_dexSuffixes` says that an entry of the index comes from a line; it is by induction
  on the lines, for both states of the reader.
* `parseIndex_spec` says that the index has each species once.

Where the lines of the dex start and end plays no part here; the order of the entries is the subject
of `TableSync.Proofs.Species.DexOrder`.
-/

set_option autoImplicit false

namespace TableSync.Species

/-- A species of the index without fields and forms. -/
def blankSpecies (suffix : Text) (number : Nat) : Record :=
  ⟨[("name", .ofText (titleCase suffix)), ("dex_num", .int number),
    ("dex_constant", .ofText (dexStem ++ suffix)), ("forms", .record .empty),
    ("species_info", .record .empty)]⟩

/-- A species as the index has it. -/
def IsIndexed (f : String × Value) : Prop :=
  ∃ suffix number, IsWord suffix ∧
    f = (String.ofList (speciesStem ++ suffix), .record (blankSpecies suffix number))

/-- A name that is found is its stem with a word, at the start of the text. -/
theorem exists_of_nameAt? {stem s rest : Text} {name : String}
    (h : nameAt? stem s = some (name, rest)) :
    ∃ word, IsWord word ∧ name = String.ofList (stem ++ word) ∧ s = stem ++ (word ++ rest) := by
  rw [nameAt?] at h
  obtain ⟨t, hs, ht⟩ := Option.bind_eq_some_iff.1 h
  obtain ⟨w, r, hwr, hw, hr⟩ := exists_run isWordChar t
  rw [hwr, wordRun_append hw hr] at ht
  cases w with
  | nil => exact absurd ht (by simp)
  | cons c w =>
    have hfound := Prod.mk.inj (Option.some.inj ht)
    refine ⟨c :: w, ⟨List.cons_ne_nil c w, hw⟩, hfound.1.symm, ?_⟩
    rw [dropStart?_eq_some_iff.1 hs, hwr, hfound.2]

/-- The name of an entry is its stem with a word, and stands on the line. -/
theorem exists_of_enumEntry? {stem line : Text} {name : String}
    (h : enumEntry? stem line = some name) :
    ∃ word, IsWord word ∧ name = String.ofList (stem ++ word) ∧ stem ++ word <:+: line := by
  unfold enumEntry? at h
  obtain ⟨⟨found, rest⟩, hfound, h⟩ := Option.bind_eq_some_iff.1 h
  obtain ⟨word, hword, hname, hline⟩ := exists_of_nameAt? hfound
  have hsame : found = name := by
    dsimp only at h
    split at h
    · exact Option.some.inj h
    · split at h
      · exact Option.some.inj h
      · exact absurd h (by simp)
    · exact absurd h (by simp)
  have hprefix : stem ++ word <+: trimStart line :=
    ⟨rest, by rw [hline, List.append_assoc]⟩
  exact ⟨word, hword, hsame ▸ hname, hprefix.isInfix.trans (List.dropWhile_suffix _).isInfix⟩

/-- What is read of a line is what follows the stem in the name of its entry, and no number. -/
theorem dexEntry?_spec {line suffix : Text} (h : dexEntry? line = some suffix) :
    enumEntry? dexStem line = some (String.ofList (dexStem ++ suffix)) ∧
      suffix.all isAsciiDigit = false := by
  unfold dexEntry? at h
  obtain ⟨name, hname, h⟩ := Option.bind_eq_some_iff.1 h
  obtain ⟨s, hs, h⟩ := Option.bind_eq_some_iff.1 h
  split at h
  · exact absurd h (by simp)
  · next hdigits =>
    obtain rfl : s = suffix := Option.some.inj h
    rw [← dropStart?_eq_some_iff.1 hs, String.ofList_toList]
    exact ⟨hname, Bool.eq_false_iff.2 hdigits⟩

theorem isWord_of_dexEntry? {line suffix : Text} (h : dexEntry? line = some suffix) :
    IsWord suffix := by
  obtain ⟨word, hword, hname, -⟩ := exists_of_enumEntry? (dexEntry?_spec h).1
  rw [String.ofList_inj] at hname
  exact List.append_cancel_left hname ▸ hword

/-- Every entry of the index stands on a line of its own. -/
theorem exists_of_mem_dexSuffixes {found : Bool} {ls : List Text} {suffix : Text}
    (h : suffix ∈ dexSuffixes found ls) : ∃ line, dexEntry? line = some suffix := by
  induction ls generalizing found with
  | nil => exact absurd h (by cases found <;> simp [dexSuffixes])
  | cons line ls ih =>
    rw [dexSuffixes] at h
    split at h
    · exact ih h
    · split at h
      · exact ih h
      · split at h
        · exact absurd h (by simp)
        · cases hentry : dexEntry? line with
          | none =>
            rw [hentry] at h
            exact ih h
          | some s =>
            rw [hentry] at h
            rcases List.mem_cons.1 h with rfl | h
            · exact ⟨line, hentry⟩
            · exact ih h

theorem isWord_of_mem_dexSuffixes {found : Bool} {ls : List Text} {suffix : Text}
    (h : suffix ∈ dexSuffixes found ls) : IsWord suffix := by
  obtain ⟨_, hentry⟩ := exists_of_mem_dexSuffixes h
  exact isWord_of_dexEntry? hentry

/-- The index has each species once, and every entry is one of a species without fields. -/
theorem parseIndex_spec (header : Text) :
    (parseIndex header).keys.Nodup ∧ ∀ f ∈ (parseIndex header).fields, IsIndexed f := by
  refine Record.insertAll_induction .empty List.nodup_nil (by simp [Record.empty]) ?_
  intro f hf
  obtain ⟨⟨suffix, number⟩, hmem, rfl⟩ := List.mem_map.1 hf
  exact ⟨suffix, number, isWord_of_mem_dexSuffixes (List.fst_mem_of_mem_zipIdx hmem), rfl⟩

end TableSync.Species
