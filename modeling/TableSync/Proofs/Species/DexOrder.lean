import Mathlib.Data.List.Nodup
import TableSync.Category.Pokedex
import TableSync.Proofs.Data.Collect
import TableSync.Proofs.Emit.Splice
import TableSync.Proofs.Species.Index

/-!
# The index follows the order of the dex

The index of species and the national dex are read from the same header, with rules of their own for
where to start, where to stop and what to leave out, and an entry that occurs again takes the place
of the first one with a new number.  What the two have to do with each other is therefore not said
by either reader; it is worked out here, for every header.

* `map_dexSuffixes_sublist` says that the entries of the index are among those of the dex, in their
  order.  It is by induction on the lines: whatever the index takes from a line the dex takes from
  it, too, and the dex may take more.
* `lastNumber` is the number of the last occurrence of an entry, and `fields_parseIndex` the index:
  every entry where it occurs first, with the number of its last occurrence.  That is by induction
  on the entries from the right, so that the entry which is put in last is the last one of the list.
* `map_lastNumber` and `nodup_of_map_lastNumber` say when the numbers are those from one on: exactly
  if no entry repeats.  If one does, fewer entries are left than were counted, but the last of them
  all has kept its number.
* `parseIndex_dexOrder` puts together what follows for the constants, ids and numbers.

That the constants stand in the order of the dex is about records, which keep an entry where it came
first; that the numbers rise in this order is not true of a header in which an entry repeats, and is
not claimed.
-/

set_option autoImplicit false

namespace TableSync.Species

/-! ## Constants and numbers

What a record of the index says about its place in the dex. -/

/-- The constant of a species in the national dex. -/
def dexConstant? (f : String × Value) : Option String :=
  f.2.record?.bind fun species => species.str? "dex_constant"

/-- The number of a species in the national dex. -/
def dexNumber? (f : String × Value) : Option Int :=
  f.2.record?.bind fun species => species.int? "dex_num"

/-- The constants of the species, in their order. -/
def dexConstants (records : Record) : List String := records.fields.filterMap dexConstant?

/-- The numbers of the species, in their order. -/
def dexNumbers (records : Record) : List Int := records.fields.filterMap dexNumber?

/-- The constant of an entry. -/
def constantOf (suffix : Text) : String := String.ofList (dexStem ++ suffix)

@[simp]
theorem dexConstant?_indexEntry (suffix : Text) (number : Nat) :
    dexConstant? (indexEntry suffix number) = some (constantOf suffix) := rfl

@[simp]
theorem dexNumber?_indexEntry (suffix : Text) (number : Nat) :
    dexNumber? (indexEntry suffix number) = some (number : Int) := rfl

theorem constantOf_injective {s t : Text} (h : constantOf s = constantOf t) : s = t :=
  List.append_cancel_left (String.ofList_inj.1 h)

/-! ## Two ways through the header -/

/-- An entry of the index is one of the dex, too, and not the one that stands for none. -/
theorem nationalEntry?_of_dexEntry? {line suffix : Text} (h : dexEntry? line = some suffix)
    (hline : contains "NATIONAL_DEX_NONE".toList line = false) :
    Pokedex.nationalEntry? line = some (constantOf suffix) ∧
      constantOf suffix ≠ "NATIONAL_DEX_NONE" := by
  have hentry := (dexEntry?_spec h).1
  refine ⟨hentry, fun hnone => ?_⟩
  obtain ⟨word, -, hname, hinfix⟩ := exists_of_enumEntry? hentry
  rw [← constantOf, hnone] at hname
  rw [← String.toList_ofList (l := dexStem ++ word), ← hname, ← contains_iff, hline] at hinfix
  exact Bool.noConfusion hinfix

/-- The entries of the index are among those of the dex, in their order. -/
theorem map_dexSuffixes_sublist (found : Bool) (ls : List Text) :
    ((dexSuffixes found ls).map constantOf).Sublist
      ((ls.filterMap Pokedex.nationalEntry?).filter (· ≠ "NATIONAL_DEX_NONE")) := by
  induction ls generalizing found with
  | nil => cases found <;> exact List.Sublist.refl []
  | cons line ls ih =>
    -- whatever the dex has on this line, the entries of the other lines stay behind it
    have hrest : ∀ {xs : List String},
        xs.Sublist ((ls.filterMap Pokedex.nationalEntry?).filter (· ≠ "NATIONAL_DEX_NONE")) →
        xs.Sublist
          (((line :: ls).filterMap Pokedex.nationalEntry?).filter (· ≠ "NATIONAL_DEX_NONE")) :=
      fun h => h.trans (((List.sublist_cons_self line ls).filterMap _).filter _)
    rw [dexSuffixes]
    split
    · exact hrest (ih true)
    · next hline =>
      split
      · exact hrest (ih false)
      · split
        · exact List.nil_sublist _
        · split
          · next suffix hentry =>
            obtain ⟨hnational, hname⟩ :=
              nationalEntry?_of_dexEntry? hentry (Bool.eq_false_iff.2 hline)
            rw [List.filterMap_cons_some hnational, List.filter_cons_of_pos (by simpa using hname)]
            exact (ih true).cons_cons _
          · exact hrest (ih true)

/-! ## The number of an entry

Numbers are counted over all entries of the header, also over those that occur again.  An entry has
as many numbers as it has occurrences, and the last one is kept. -/

/-- The number of the last occurrence of an entry, counted from one. -/
def lastNumber (s : Text) (xs : List Text) : Nat := xs.length - xs.reverse.idxOf s

theorem lastNumber_concat (s : Text) (xs : List Text) (x : Text) :
    lastNumber s (xs ++ [x]) = if x = s then xs.length + 1 else lastNumber s xs := by
  rw [lastNumber, lastNumber, List.reverse_concat, List.idxOf_cons, List.length_append,
    List.length_singleton]
  by_cases h : x = s
  · simp [h]
  · have hne : (x == s) = false := beq_false_of_ne h
    rw [hne, cond_false, if_neg h, Nat.add_sub_add_right]

theorem lastNumber_spec {s : Text} {xs : List Text} (h : s ∈ xs) :
    1 ≤ lastNumber s xs ∧ lastNumber s xs ≤ xs.length ∧ xs[lastNumber s xs - 1]? = some s := by
  induction xs using List.reverseRecOn with
  | nil => exact absurd h List.not_mem_nil
  | append_singleton xs x ih =>
    rw [lastNumber_concat, List.length_append, List.length_singleton]
    split
    · next hx => simp [hx]
    · next hx =>
      have hmem : s ∈ xs := by simpa [Ne.symm hx] using h
      obtain ⟨hpos, hle, hget⟩ := ih hmem
      exact ⟨hpos, by omega, by rw [List.getElem?_append_left (by omega), hget]⟩

/-- Entries that differ have numbers that differ. -/
theorem lastNumber_inj {s t : Text} {xs : List Text} (hs : s ∈ xs) (ht : t ∈ xs)
    (h : lastNumber s xs = lastNumber t xs) : s = t := by
  obtain ⟨-, -, hget⟩ := lastNumber_spec hs
  obtain ⟨-, -, hget'⟩ := lastNumber_spec ht
  rw [h] at hget
  exact Option.some.inj (hget.symm.trans hget')

/-- Without repetition the entries are numbered through. -/
theorem map_lastNumber {xs : List Text} (h : xs.Nodup) :
    xs.map (lastNumber · xs) = List.range' 1 xs.length := by
  induction xs using List.reverseRecOn with
  | nil => rfl
  | append_singleton xs x ih =>
    obtain ⟨hxs, -, hx⟩ := List.nodup_append.1 h
    have hother : ∀ s ∈ xs, lastNumber s (xs ++ [x]) = lastNumber s xs := fun s hs => by
      rw [lastNumber_concat, if_neg fun heq => hx s hs x List.mem_cons_self heq.symm]
    rw [List.map_append, List.map_congr_left hother, ih hxs, List.map_singleton, lastNumber_concat,
      if_pos rfl, List.length_append, List.length_singleton, List.range'_concat, Nat.one_mul,
      Nat.add_comm 1]

/-- Only without repetition are the first occurrences numbered through. -/
theorem nodup_of_map_lastNumber {xs : List Text}
    (h : xs.eraseDups.map (lastNumber · xs) = List.range' 1 xs.eraseDups.length) : xs.Nodup := by
  rw [← length_eraseDups_eq_iff]
  refine Nat.le_antisymm (eraseDups_sublist xs).length_le ?_
  rcases List.eq_nil_or_concat xs with rfl | ⟨ys, x, rfl⟩
  · exact Nat.le_refl 0
  · -- the last entry has the number of all occurrences
    rw [List.concat_eq_append] at h ⊢
    have hlast : x ∈ (ys ++ [x]).eraseDups :=
      List.mem_eraseDups.2 (List.mem_append_right ys (List.mem_singleton_self x))
    have hmem := List.mem_map_of_mem (f := (lastNumber · (ys ++ [x]))) hlast
    rw [h, List.mem_range'_1, lastNumber_concat, if_pos rfl] at hmem
    rw [List.length_append, List.length_singleton]
    omega

/-! ## The index

Putting entries into a record one by one is the function `Record.ofFields`; here its result is
written without the record. -/

theorem eq_of_fst_indexEntry {s t : Text} {m n : Nat} (h : (indexEntry s m).1 = (indexEntry t n).1) :
    s = t :=
  List.append_cancel_left (String.ofList_inj.1 h)

/-- An entry that occurs again takes the place of the first one. -/
theorem insertField_map {x : Text} {xs : List Text} (hx : x ∈ xs) (hxs : xs.Nodup)
    (number : Text → Nat) (n : Nat) :
    insertField (indexEntry x n).1 (indexEntry x n).2
        (xs.map fun s => indexEntry s (number s)) =
      xs.map fun s => indexEntry s (if x = s then n else number s) := by
  induction xs with
  | nil => exact absurd hx List.not_mem_nil
  | cons y xs ih =>
    obtain ⟨hy, hxs⟩ := List.nodup_cons.1 hxs
    rw [List.map_cons, List.map_cons]
    by_cases hxy : x = y
    · subst hxy
      have hother : ∀ s ∈ xs, indexEntry s (number s) =
          indexEntry s (if x = s then n else number s) := fun s hs => by
        rw [if_neg fun (heq : x = s) => hy (heq ▸ hs)]
      rw [List.map_congr_left hother, if_pos rfl]
      exact if_pos rfl
    · rw [← ih ((List.mem_cons.1 hx).resolve_left hxy) hxs, if_neg hxy]
      exact if_neg fun h : (indexEntry y (number y)).1 = _ => hxy (eq_of_fst_indexEntry h).symm

/-- **The index**: every entry where it occurs first, with the number of its last occurrence. -/
theorem fields_ofFields_zipIdx (xs : List Text) :
    (Record.ofFields ((xs.zipIdx 1).map fun p => indexEntry p.1 p.2)).fields =
      xs.eraseDups.map fun s => indexEntry s (lastNumber s xs) := by
  induction xs using List.reverseRecOn with
  | nil => rfl
  | append_singleton xs x ih =>
    simp only [lastNumber_concat]
    rw [List.zipIdx_append, List.map_append, List.zipIdx_singleton, List.map_singleton]
    have hentry : indexEntry (x, 1 + xs.length).1 (x, 1 + xs.length).2 =
        ((indexEntry x (1 + xs.length)).1, (indexEntry x (1 + xs.length)).2) := rfl
    rw [hentry, Record.ofFields_concat, Record.insert, ih, eraseDups_concat, Nat.add_comm 1]
    split
    · next hx => exact insertField_map (List.mem_eraseDups.2 hx) (nodup_eraseDups xs) _ _
    · next hx =>
      have hother : ∀ s ∈ xs.eraseDups, indexEntry s (lastNumber s xs) =
          indexEntry s (if x = s then xs.length + 1 else lastNumber s xs) := fun s hs => by
        rw [if_neg fun (heq : x = s) => hx (heq ▸ List.mem_eraseDups.1 hs)]
      rw [insertField_eq_append, List.map_congr_left hother, List.map_append, List.map_singleton,
        if_pos rfl]
      rw [List.map_map, List.mem_map]
      rintro ⟨s, hs, heq⟩
      exact hx (eq_of_fst_indexEntry heq ▸ List.mem_eraseDups.1 hs)

theorem fields_parseIndex (header : Text) :
    let suffixes := dexSuffixes false (lines header)
    (parseIndex header).fields =
      suffixes.eraseDups.map fun s => indexEntry s (lastNumber s suffixes) :=
  fields_ofFields_zipIdx _

theorem national_parse (header : Text) :
    Pokedex.dex (Pokedex.parse header).records "national_dex" =
      ((lines header).filterMap Pokedex.nationalEntry?).filter (· ≠ "NATIONAL_DEX_NONE") := by
  show ((Pokedex.entries _ _ header).map Value.str).filterMap Value.str? = _
  rw [List.filterMap_map]
  exact List.filterMap_some

/-- A species of the index is found by its constant. -/
theorem byDexConstant?_parseIndex {header suffix : Text}
    (h : suffix ∈ dexSuffixes false (lines header)) :
    byDexConstant? (parseIndex header) (constantOf suffix) =
      some (String.ofList (speciesStem ++ suffix)) := by
  rw [byDexConstant?, fields_parseIndex, List.find?_map]
  have hfind : (dexSuffixes false (lines header)).eraseDups.find?
      (fun s => some (constantOf s) == some (constantOf suffix)) = some suffix := by
    obtain ⟨s, hs⟩ := Option.isSome_iff_exists.1 (List.find?_isSome
      (p := fun s => some (constantOf s) == some (constantOf suffix)).2
        ⟨suffix, List.mem_eraseDups.2 h, beq_self_eq_true (some (constantOf suffix))⟩)
    have hsame := List.find?_some hs
    rw [hs, constantOf_injective (Option.some.inj (eq_of_beq hsame))]
  show Option.map _ (Option.map _ (List.find? (fun s => some (constantOf s) == some (constantOf suffix))
    _)) = _
  rw [hfind]
  rfl

/-- **The index of species is consistent with the order of the dex.**  Its constants are, in the order
of its records, among the entries of the national dex.  Every record has the id and the constant of
an entry that is no number, and is found by its constant.  The numbers of the records differ, and
they are those from one on, in order, exactly if no entry repeats. -/
theorem parseIndex_dexOrder (header : Text) :
    let index := parseIndex header
    let suffixes := dexSuffixes false (lines header)
    (dexConstants index).Sublist (Pokedex.dex (Pokedex.parse header).records "national_dex") ∧
    (∀ f ∈ index.fields, ∃ suffix : Text, ∃ number : Int,
      f.1 = String.ofList ("SPECIES_".toList ++ suffix) ∧
      dexConstant? f = some (String.ofList ("NATIONAL_DEX_".toList ++ suffix)) ∧
      dexNumber? f = some number ∧ suffix.all isAsciiDigit = false ∧
      byDexConstant? index (String.ofList ("NATIONAL_DEX_".toList ++ suffix)) = some f.1) ∧
    (dexNumbers index).Nodup ∧
    (suffixes.Nodup ↔
      dexNumbers index = (List.range' 1 index.size).map fun number : Nat => (number : Int)) := by
  intro index suffixes
  have hfields : index.fields = suffixes.eraseDups.map fun s => indexEntry s (lastNumber s suffixes) :=
    fields_parseIndex header
  have hconstants : dexConstants index = suffixes.eraseDups.map constantOf := by
    rw [dexConstants, hfields, List.filterMap_map]
    exact congrFun List.filterMap_eq_map _
  have hnumbers : dexNumbers index =
      (suffixes.eraseDups.map (lastNumber · suffixes)).map fun number : Nat => (number : Int) := by
    rw [dexNumbers, hfields, List.filterMap_map, List.map_map]
    exact congrFun List.filterMap_eq_map _
  have hcast : Function.Injective fun number : Nat => (number : Int) := fun _ _ => Int.ofNat_inj.1
  have hsize : index.size = suffixes.eraseDups.length := by
    rw [Record.size, hfields, List.length_map]
  refine ⟨?_, ?_, ?_, ?_⟩
  · rw [hconstants, national_parse]
    exact ((eraseDups_sublist suffixes).map constantOf).trans (map_dexSuffixes_sublist false _)
  · intro f hf
    rw [hfields] at hf
    obtain ⟨suffix, hsuffix, rfl⟩ := List.mem_map.1 hf
    rw [List.mem_eraseDups] at hsuffix
    obtain ⟨line, hentry⟩ := exists_of_mem_dexSuffixes hsuffix
    exact ⟨suffix, _, rfl, rfl, rfl, (dexEntry?_spec hentry).2, byDexConstant?_parseIndex hsuffix⟩
  · rw [hnumbers]
    refine ((nodup_eraseDups suffixes).map_on fun s hs t ht h => ?_).map hcast
    exact lastNumber_inj (List.mem_eraseDups.1 hs) (List.mem_eraseDups.1 ht) h
  · rw [hnumbers, hsize, (List.map_injective_iff.2 hcast).eq_iff]
    refine ⟨fun h => ?_, nodup_of_map_lastNumber⟩
    rw [eraseDups_eq_self h, map_lastNumber h]

/-- A header in which an entry occurs again, and in which a count, a line behind the entry for none
and the entries behind the end are left out. -/
def repeatingDex : Text := unlines
  ["enum \x7b".toList, "    NATIONAL_DEX_OLD,".toList, "    NATIONAL_DEX_NONE,".toList,
    "    NATIONAL_DEX_BULBASAUR,".toList, "    NATIONAL_DEX_IVYSAUR = 2,".toList,
    "    NATIONAL_DEX_386,".toList, "    NATIONAL_DEX_BULBASAUR,".toList, "\x7d;".toList,
    "    NATIONAL_DEX_LATE,".toList]

theorem parseIndex_dexOrder_repeatingDex :
    ("SPECIES_IVYSAUR", (indexEntry "IVYSAUR".toList 2).2) ∈ (parseIndex repeatingDex).fields ∧
      (∃ suffix : Text, "SPECIES_IVYSAUR" = String.ofList ("SPECIES_".toList ++ suffix) ∧
        byDexConstant? (parseIndex repeatingDex)
          (String.ofList ("NATIONAL_DEX_".toList ++ suffix)) = some "SPECIES_IVYSAUR") ∧
      dexNumbers (parseIndex repeatingDex) = [3, 2] := by
  have hmem : ("SPECIES_IVYSAUR", (indexEntry "IVYSAUR".toList 2).2) ∈
      (parseIndex repeatingDex).fields := by decide +kernel
  obtain ⟨suffix, -, hid, -, -, -, hfound⟩ := (parseIndex_dexOrder repeatingDex).2.1 _ hmem
  exact ⟨hmem, ⟨suffix, hid, hfound⟩, by decide +kernel⟩

end TableSync.Species
