import Mathlib.Data.List.Nodup
import TableSync.Proofs.Species.Index
import TableSync.Proofs.Species.Table

/-!
# Documents of species, generated and extracted again

A document of species is the index with fields and forms given to some of its species.  Generating
its table and extracting the table again gives the document with its conditionals decided.

* `furnish` gives fields and forms to an index, and `IsFurnishing` says which ones are meant.
* `Value.decided` decides every conditional in a value, `Record.decided` every one in a document.
  `Legible.decided_eq` says that for a field of a species this is what the writer does with its
  value, which looks into lists but not into records.
* `infos_furnish` says what is written for a furnished index: the fields of its species and forms,
  species by species, each species before its forms.
* `place_entry` says what placing the entities of a species makes of the document, and
  `place_entities` is the same for all of them, by induction on the index.
* `parse_generatedTable` is the round trip.

The proof meets in the middle, at the list of entities.  `exists_scan_generatedTable` says that the
table which is written is scanned as the entities of the document with their conditionals decided;
`place_entities` says that placing these entities gives the furnished index.  What has to agree on
the way is that an index which is furnished with decided entries is the furnished index, decided
(`decided_furnish`).

`IsPlaceable` is what the second half needs of an entry, and `isPlaceable` derives it from
`IsFurnishing`, so that legible values play no part in it.
-/

set_option autoImplicit false

namespace TableSync

/-! ## Conditionals decided everywhere

The definition follows the nesting of values, so that it is said of a document without its index. -/

mutual

/-- The value with every conditional in it decided, where the constants are known. -/
def Value.decided (constants : ConstantTable) : Value → Value
  | .conditional e => (e.resolve? constants).getD (.conditional e)
  | .list items => .list (decidedItems constants items)
  | .record ⟨fields⟩ => .record ⟨decidedFields constants fields⟩
  | .int n => .int n
  | .str s => .str s
termination_by structural v => v

/-- Items with every conditional in them decided. -/
def decidedItems (constants : ConstantTable) : List Value → List Value
  | [] => []
  | v :: vs => v.decided constants :: decidedItems constants vs
termination_by structural vs => vs

/-- Fields with every conditional in them decided. -/
def decidedFields (constants : ConstantTable) : List (String × Value) → List (String × Value)
  | [] => []
  | (k, v) :: fs => (k, v.decided constants) :: decidedFields constants fs
termination_by structural fs => fs

end

/-- The document with every conditional in it decided, where the constants are known. -/
def Record.decided (constants : ConstantTable) (r : Record) : Record :=
  ⟨decidedFields constants r.fields⟩

@[simp]
theorem Value.decided_str (constants : ConstantTable) (s : String) :
    (Value.str s).decided constants = .str s := rfl

@[simp]
theorem Value.decided_int (constants : ConstantTable) (n : Int) :
    (Value.int n).decided constants = .int n := rfl

@[simp]
theorem Value.decided_record (constants : ConstantTable) (r : Record) :
    (Value.record r).decided constants = .record (r.decided constants) := by
  cases r
  rfl

theorem decidedFields_eq_map (constants : ConstantTable) (fs : List (String × Value)) :
    decidedFields constants fs = fs.map fun f => (f.1, f.2.decided constants) := by
  induction fs with
  | nil => rfl
  | cons f fs ih => rw [decidedFields, ih, List.map_cons]

theorem decidedItems_eq_map (constants : ConstantTable) (items : List Value) :
    decidedItems constants items = items.map (Value.decided constants) := by
  induction items with
  | nil => rfl
  | cons v vs ih => rw [decidedItems, ih, List.map_cons]

namespace Species

variable {constants : ConstantTable} {id key : String}

/-! ## Documents over an index

A document is described by what is given to the species of its index, and not by its records: names
of species and of forms follow from it. -/

/-- What a species is given: its own fields, and forms with fields, in order. -/
structure Entry where
  /-- The fields of the species itself; without any it is written as no entity. -/
  info : Record := .empty
  /-- The forms by their ids, in the order in which they are written. -/
  forms : List (String × Record) := []

/-- A species with forms. -/
def withForms (id : String) (species : Record) (forms : List (String × Record)) : Record :=
  species.insert "forms" (.record ⟨forms.map fun f => (f.1, .record (formRecord f.1 id f.2))⟩)

/-- A species with its own fields and its forms. -/
def furnished (id : String) (species : Record) (entry : Entry) : Record :=
  withForms id (withInfo species entry.info) entry.forms

/-- The document in which every species of an index has been given its entry. -/
def furnish (index : Record) (entries : String → Entry) : Record :=
  index.mapValues fun id v =>
    match v with
    | .record species => .record (furnished id species (entries id))
    | v => v

/-- Legible fields and forms for the species of an index.  A form has an id of its own, and its
number in the national dex is that of its species. -/
structure IsFurnishing (constants : ConstantTable) (index : Record) (entries : String → Entry) :
    Prop where
  /-- The ids that the reader leaves out are given nothing. -/
  skipped : ∀ id ∈ skippedIds, entries id = {}
  /-- The fields of each species are legible. -/
  infos : ∀ id ∈ index.keys, LegibleInfo constants (entries id).info
  /-- The fields of each form are legible. -/
  formInfos : ∀ id ∈ index.keys, ∀ f ∈ (entries id).forms, LegibleInfo constants f.2
  /-- The id of a form is a name of its kind, and it is neither that of a species nor one that the
  reader leaves out. -/
  formIds : ∀ id ∈ index.keys, ∀ f ∈ (entries id).forms,
    IsSpeciesId f.1 ∧ f.1 ∉ index.keys ∧ f.1 ∉ skippedIds
  /-- The fields of a form name its species by the number of the dex. -/
  formBases : ∀ id ∈ index.keys, ∀ f ∈ (entries id).forms, ∃ suffix,
    id.toList = speciesStem ++ suffix ∧
      f.2.str? "natDexNum" = some (String.ofList (dexStem ++ suffix))
  /-- No two forms have the same id, whatever species they belong to. -/
  formsUnique : (index.keys.flatMap fun id => (entries id).forms.map Prod.fst).Nodup

/-! ## Conditionals in legible fields

That deciding a field does not change which fields a record has, in which order they stand, and what
the ones say that its name and its species are found by. -/

theorem decided_eq_of_isPlain {v : Value} (h : v.IsPlain constants) :
    v.decided constants = v.resolve constants := by
  cases v with
  | conditional e => rfl
  | int n => rfl
  | str s => rfl
  | _ => exact h.elim

theorem decided_eq_of_isScalar {v : Value} (h : v.IsScalar) : v.decided constants = v := by
  rw [decided_eq_of_isPlain h.isPlain, h.resolve_eq]

/-- Evolutions hold no conditionals. -/
theorem IsEvolution.decided_eq {e : Record} (h : IsEvolution e) :
    (Value.record e).decided constants = .record e := by
  cases h with
  | target hmethod hend hparam htarget =>
    simp only [Value.decided, decidedFields, decided_eq_of_isScalar hparam]
  | args hmethod hend hargs hlength =>
    have hall : decidedItems constants _ = _ :=
      (decidedItems_eq_map constants _).trans
        ((List.map_congr_left fun v hv => decided_eq_of_isScalar (hargs v hv)).trans (List.map_id _))
    simp only [Value.decided, decidedFields, hall]

/-- In a field of a species, deciding its value is deciding every conditional in it. -/
theorem Legible.decided_eq {v : Value} (h : Legible constants key v) :
    v.decided constants = v.resolve constants := by
  have hitems : ∀ items : List Value,
      (∀ v ∈ items, v.decided constants = v.resolve constants) →
        (Value.list items).decided constants = (Value.list items).resolve constants := by
    intro items hall
    rw [Value.decided, Value.resolve, decidedItems_eq_map, resolveItems_eq_map]
    exact congrArg Value.list (List.map_congr_left hall)
  cases h with
  | plain hp hv => exact decided_eq_of_isPlain hv
  | list hmem hv => exact hitems _ fun v hv' => decided_eq_of_isPlain (hv v hv')
  | label hmem hs => rfl
  | description hs => rfl
  | number hmem hn => rfl
  | flags hnames =>
    refine hitems _ fun v hv => ?_
    obtain ⟨name, -, rfl⟩ := List.mem_map.1 hv
    rfl
  | size hmem hw hh =>
    refine hitems _ fun v hv => ?_
    simp only [List.mem_cons, List.not_mem_nil, or_false] at hv
    rcases hv with rfl | rfl
    · rw [decided_eq_of_isScalar hw, hw.resolve_eq]
    · rw [decided_eq_of_isScalar hh, hh.resolve_eq]
  | evolutions hes =>
    refine hitems _ fun v hv => ?_
    obtain ⟨e, he, rfl⟩ := List.mem_map.1 hv
    exact (hes e he).decided_eq

theorem LegibleInfo.decided_eq {info : Record} (h : LegibleInfo constants info) :
    info.decided constants = resolvedInfo constants info := by
  obtain ⟨fields⟩ := info
  rw [Record.decided, decidedFields_eq_map]
  refine congrArg Record.mk (List.map_congr_left fun f hf => ?_)
  rw [(h.fields f hf).2.decided_eq]

/-- Deciding conditionals changes no key and no name. -/
theorem get?_resolvedInfo (info : Record) (key : String) :
    (resolvedInfo constants info).get? key = (info.get? key).map (Value.resolve constants) := by
  obtain ⟨fields⟩ := info
  show findField key (fields.map fun f => (f.1, f.2.resolve constants)) =
    (findField key fields).map (Value.resolve constants)
  induction fields with
  | nil => rfl
  | cons f fields ih =>
    obtain ⟨k, v⟩ := f
    rw [List.map_cons, findField, findField]
    split
    · rfl
    · exact ih

theorem canonicalOrder_resolvedInfo (info : Record) :
    canonicalOrder (resolvedInfo constants info) = resolvedInfo constants (canonicalOrder info) := by
  have hfirst : fieldOrder.filterMap (fun key =>
      ((resolvedInfo constants info).get? key).map fun v => (key, v)) =
        (fieldOrder.filterMap fun key => (info.get? key).map fun v => (key, v)).map
          fun f => (f.1, f.2.resolve constants) := by
    rw [List.map_filterMap]
    refine List.filterMap_congr fun key _ => ?_
    rw [get?_resolvedInfo]
    cases info.get? key <;> rfl
  have hrest : (resolvedInfo constants info).fields.filter (fun f => !fieldOrder.contains f.1) =
      (info.fields.filter fun f => !fieldOrder.contains f.1).map
        fun f => (f.1, f.2.resolve constants) := by
    obtain ⟨fields⟩ := info
    exact List.filter_map
  show Record.mk _ = Record.mk _
  rw [hfirst, hrest, ← List.map_append]
  rfl

/-- A string under a key is a string still. -/
theorem str?_resolvedInfo {info : Record} {s : String} (hs : info.str? key = some s) :
    (resolvedInfo constants info).str? key = some s := by
  rw [Record.str?, get?_resolvedInfo]
  rw [Record.str?] at hs
  obtain ⟨v, hv, hstr⟩ := Option.bind_eq_some_iff.1 hs
  rw [hv]
  cases v with
  | str t => exact hstr
  | _ => exact absurd hstr (by simp [Value.str?])

/-- The names of species are strings. -/
theorem Legible.exists_str {v : Value} (h : Legible constants key v) (hkey : key ∈ labelKeys) :
    ∃ s, v = .str s := by
  simp only [labelKeys, List.mem_cons, List.not_mem_nil, or_false] at hkey
  cases h with
  | plain hp _ => rcases hkey with rfl | rfl <;> exact absurd hp (by decide)
  | list hmem _ => rcases hkey with rfl | rfl <;> exact absurd hmem (by decide)
  | label _ _ => exact ⟨_, rfl⟩
  | description _ => exact ⟨_, rfl⟩
  | number hmem _ => rcases hkey with rfl | rfl <;> exact absurd hmem (by decide)
  | flags _ => exact absurd hkey (by decide)
  | size hmem _ _ => rcases hkey with rfl | rfl <;> exact absurd hmem (by decide)
  | evolutions _ => exact absurd hkey (by decide)

/-- Deciding conditionals leaves the name as it is. -/
theorem str?_speciesName {info : Record} (h : LegibleInfo constants info) :
    (resolvedInfo constants info).str? "speciesName" = info.str? "speciesName" := by
  rw [Record.str?, Record.str?, get?_resolvedInfo]
  cases hv : info.get? "speciesName" with
  | none => rfl
  | some v =>
    have hkey : "speciesName" ∈ labelKeys := by decide
    obtain ⟨s, rfl⟩ := (h.fields _ (mem_of_findField hv)).2.exists_str hkey
    rfl

/-! ## What a species is made of -/

/-- The name of a species with fields. -/
def nameOf (suffix : Text) (info : Record) : Value :=
  match info.str? "speciesName" with
  | some name => .str name
  | none => .ofText (titleCase suffix)

/-- The forms of a species as they stand in its record. -/
def formFields (id : String) (forms : List (String × Record)) : List (String × Value) :=
  forms.map fun f => (f.1, .record (formRecord f.1 id f.2))

theorem withInfo_blankSpecies (suffix : Text) (number : Nat) (info : Record) :
    withInfo (blankSpecies suffix number) info =
      ⟨[("name", nameOf suffix info), ("dex_num", .int number),
        ("dex_constant", .ofText (dexStem ++ suffix)), ("forms", .record .empty),
        ("species_info", .record info)]⟩ := by
  rw [withInfo, nameOf]
  cases info.str? "speciesName" <;> rfl

theorem furnished_blankSpecies (id : String) (suffix : Text) (number : Nat) (entry : Entry) :
    furnished id (blankSpecies suffix number) entry =
      ⟨[("name", nameOf suffix entry.info), ("dex_num", .int number),
        ("dex_constant", .ofText (dexStem ++ suffix)),
        ("forms", .record ⟨formFields id entry.forms⟩), ("species_info", .record entry.info)]⟩ := by
  rw [furnished, withForms, withInfo_blankSpecies]
  rfl

/-- An entry with its conditionals decided. -/
def Entry.resolved (constants : ConstantTable) (entry : Entry) : Entry :=
  ⟨resolvedInfo constants entry.info,
    entry.forms.map fun f => (f.1, resolvedInfo constants f.2)⟩

/-- Deciding the conditionals of a species is deciding those of its entry. -/
theorem decided_furnished {suffix : Text} {number : Nat} {entry : Entry}
    (hinfo : LegibleInfo constants entry.info)
    (hforms : ∀ f ∈ entry.forms, LegibleInfo constants f.2) :
    (Value.record (furnished id (blankSpecies suffix number) entry)).decided constants =
      .record (furnished id (blankSpecies suffix number) (entry.resolved constants)) := by
  have hname : (nameOf suffix entry.info).decided constants =
      nameOf suffix (resolvedInfo constants entry.info) := by
    rw [nameOf, nameOf, str?_speciesName hinfo]
    cases entry.info.str? "speciesName" <;> rfl
  have hform : decidedFields constants (formFields id entry.forms) =
      formFields id (entry.forms.map fun f => (f.1, resolvedInfo constants f.2)) := by
    rw [decidedFields_eq_map, formFields, formFields, List.map_map, List.map_map]
    refine List.map_congr_left fun f hf => ?_
    have hinfo' := (hforms f hf).decided_eq
    simp only [Function.comp_apply, formRecord, Value.decided_record, Record.decided, decidedFields,
      Value.ofText, Value.decided_str]
    rw [← Record.decided, hinfo']
  rw [furnished_blankSpecies, furnished_blankSpecies]
  simp only [Value.decided_record, Record.decided, decidedFields, hname, hform, Value.ofText,
    Value.decided_str, Value.decided_int, Entry.resolved]
  rw [← Record.decided, hinfo.decided_eq]

/-- Deciding the conditionals of a document is deciding those of its entries. -/
theorem decided_furnish {index : Record} {entries : String → Entry}
    (hindex : ∀ f ∈ index.fields, IsIndexed f) (h : IsFurnishing constants index entries) :
    (furnish index entries).decided constants =
      furnish index fun id => (entries id).resolved constants := by
  obtain ⟨fields⟩ := index
  refine congrArg Record.mk ?_
  rw [decidedFields_eq_map]
  show (List.map _ fields).map _ = List.map _ fields
  rw [List.map_map]
  refine List.map_congr_left fun f hf => ?_
  obtain ⟨suffix, number, -, rfl⟩ := hindex f hf
  have hkey : String.ofList (speciesStem ++ suffix) ∈ Record.keys ⟨fields⟩ :=
    List.mem_map_of_mem hf
  exact congrArg (Prod.mk _) (decided_furnished (h.infos _ hkey) (h.formInfos _ hkey))

/-! ## The entities of a document

What the writer makes of a furnished index, in the order in which it writes. -/

/-- The fields that a species and its forms are given, each with its id; a species without fields
gives none of its own. -/
def entryInfos (id : String) (entry : Entry) : List (String × Record) :=
  (if entry.info.fields.isEmpty then [] else [(id, entry.info)]) ++ entry.forms

/-- A species that has been given an entry has the fields of that entry. -/
theorem infosOf_furnished (id : String) (suffix : Text) (number : Nat) (entry : Entry) :
    infosOf id (furnished id (blankSpecies suffix number) entry) = entryInfos id entry := by
  rw [furnished_blankSpecies]
  have hforms : (formFields id entry.forms).filterMap (fun f =>
      (f.2.record?.bind fun form => form.record? "species_info").map fun info => (f.1, info)) =
        entry.forms := by
    rw [formFields, List.filterMap_map]
    refine (List.filterMap_congr fun f _ => ?_).trans List.filterMap_some
    rfl
  exact congrArg _ hforms

/-- A document has the fields of the entries that were given. -/
theorem infos_furnish {index : Record} (hindex : ∀ f ∈ index.fields, IsIndexed f)
    (entries : String → Entry) :
    infos (furnish index entries) =
      index.fields.flatMap fun f => entryInfos f.1 (entries f.1) := by
  obtain ⟨fields⟩ := index
  show (List.map _ fields).flatMap _ = _
  rw [List.flatMap_map]
  refine List.flatMap_congr fun f hf => ?_
  obtain ⟨suffix, number, -, rfl⟩ := hindex f hf
  exact infosOf_furnished _ suffix number _

/-! ## Placing entities

By induction on the forms of a species, and then on the species of the index.  The document between
two steps is an index of which a part has been furnished. -/

/-- An entity whose fields are in order takes its place as it is. -/
theorem place_records {done : Extraction} {id : String} {info records : Record}
    (hskipped : id ∉ skippedIds) (hordered : canonicalOrder info = info)
    (hattach : attach? done.records id info = some records) :
    (place [] done ⟨id, info⟩).records = records := by
  have hcontains : ¬ skippedIds.contains id = true := by simpa using hskipped
  have hdescription : resolveDescription [] info = info := by
    rw [resolveDescription]
    cases info.str? "description" <;> rfl
  rw [place, if_neg hcontains, hdescription, hordered, hattach]

/-- A species of the index takes its own fields. -/
theorem attach?_species {a b : List (String × Value)} {species info : Record}
    (h : id ∉ a.map Prod.fst) :
    attach? ⟨a ++ (id, .record species) :: b⟩ id info =
      some ⟨a ++ (id, .record (withInfo species info)) :: b⟩ := by
  have hget : (⟨a ++ (id, .record species) :: b⟩ : Record).record? id = some species := by
    rw [Record.record?, Record.get?_append h]
    rfl
  rw [attach?, hget]
  exact congrArg some (Record.insert_append h _ _)

/-- A form is put behind the forms that its species has. -/
theorem attach?_form {a b : List (String × Value)} {species info : Record} {form : String}
    {forms : List (String × Record)} (h : id ∉ a.map Prod.fst)
    (hform : form ∉ (⟨a ++ (id, .record species) :: b⟩ : Record).keys)
    (hnew : form ∉ forms.map Prod.fst) (hbase : baseOf? info = some id)
    (hforms : species.record? "forms" = some ⟨formFields id forms⟩) :
    attach? ⟨a ++ (id, .record species) :: b⟩ form info =
      some ⟨a ++ (id, .record (withForms id species (forms ++ [(form, info)]))) :: b⟩ := by
  have hget : (⟨a ++ (id, .record species) :: b⟩ : Record).record? id = some species := by
    rw [Record.record?, Record.get?_append h]
    rfl
  have hnone : (⟨a ++ (id, .record species) :: b⟩ : Record).record? form = none := by
    rw [Record.record?, Record.get?_eq_none_iff.2 hform]
    rfl
  have hkeys : form ∉ (formFields id forms).map Prod.fst := by
    rw [formFields, List.map_map]
    exact hnew
  have hinsert : Record.insert ⟨formFields id forms⟩ form (.record (formRecord form id info)) =
      ⟨formFields id (forms ++ [(form, info)])⟩ := by
    rw [Record.insert, insertField_eq_append hkeys, formFields, formFields, List.map_append]
    rfl
  rw [attach?, hnone]
  simp only [hbase, hget, hforms, Option.bind_eq_bind, Option.bind_some, hinsert]
  exact congrArg some (Record.insert_append h _ _)

/-- Forms that name their species are put behind those that it has. -/
theorem place_forms_append {a b : List (String × Value)} {species : Record}
    {forms : List (String × Record)} (before : List (String × Record)) (h : id ∉ a.map Prod.fst)
    (hids : ∀ f ∈ forms, f.1 ∉ (⟨a ++ (id, .record species) :: b⟩ : Record).keys ∧
      f.1 ∉ skippedIds)
    (hunique : ((before ++ forms).map Prod.fst).Nodup)
    (hordered : ∀ f ∈ forms, canonicalOrder f.2 = f.2)
    (hbases : ∀ f ∈ forms, baseOf? f.2 = some id) {done : Extraction}
    (hdone : done.records = ⟨a ++ (id, .record (withForms id species before)) :: b⟩) :
    (forms.foldl (fun done f => place [] done ⟨f.1, f.2⟩) done).records =
      ⟨a ++ (id, .record (withForms id species (before ++ forms))) :: b⟩ := by
  induction forms generalizing before done with
  | nil =>
    rw [List.append_nil]
    exact hdone
  -- The induction is on the forms still to come, with the forms already attached in `before`.
  | cons f rest ih =>
    simp only [List.forall_mem_cons] at hids hordered hbases
    have hnew : f.1 ∉ before.map Prod.fst := by
      intro hmem
      rw [List.map_append, List.map_cons, List.nodup_append] at hunique
      exact hunique.2.2 _ hmem _ List.mem_cons_self rfl
    have hfound : (withForms id species before).record? "forms" =
        some ⟨formFields id before⟩ := by
      rw [Record.record?, withForms, Record.get?_insert_self]
      rfl
    have hform : f.1 ∉ (⟨a ++ (id, .record (withForms id species before)) :: b⟩ : Record).keys := by
      have hkeys := hids.1.1
      rw [Record.keys, List.map_append, List.map_cons] at hkeys ⊢
      exact hkeys
    -- One step: the form is new, its base is there, and it goes behind the forms before it.
    have hattach : attach? done.records f.1 f.2 =
        some ⟨a ++ (id, .record (withForms id species (before ++ [f]))) :: b⟩ := by
      rw [hdone, attach?_form h hform hnew hbases.1 hfound, withForms, withForms, withForms,
        Record.insert_insert]
    have hplaced := place_records hids.1.2 hordered.1 hattach
    rw [List.append_cons before f rest] at hunique ⊢
    exact ih _ hids.2 hunique hordered.2 hbases.2 hplaced

/-- Forms that name their species are put behind each other. -/
theorem place_forms {a b : List (String × Value)} {species : Record} {forms : List (String × Record)}
    (h : id ∉ a.map Prod.fst) (hforms : species.record? "forms" = some .empty)
    (hids : ∀ f ∈ forms, f.1 ∉ (⟨a ++ (id, .record species) :: b⟩ : Record).keys ∧
      f.1 ∉ skippedIds)
    (hunique : (forms.map Prod.fst).Nodup)
    (hordered : ∀ f ∈ forms, canonicalOrder f.2 = f.2)
    (hbases : ∀ f ∈ forms, baseOf? f.2 = some id) {done : Extraction}
    (hdone : done.records = ⟨a ++ (id, .record species) :: b⟩) :
    (forms.foldl (fun done f => place [] done ⟨f.1, f.2⟩) done).records =
      ⟨a ++ (id, .record (withForms id species forms)) :: b⟩ := by
  have hblank : withForms id species [] = species := by
    obtain ⟨v, hv, hrecord⟩ := Option.bind_eq_some_iff.1 hforms
    refine Record.insert_eq_self ?_
    cases v with
    | record r =>
      rw [hv, Option.some.inj hrecord]
      rfl
    | _ => exact absurd hrecord (by simp [Value.record?])
  rw [← hblank] at hdone
  exact place_forms_append [] h hids hunique hordered hbases hdone

/-- What placing needs of the entry of a species, in a document with the given keys. -/
structure IsPlaceable (keys : List String) (id : String) (entry : Entry) : Prop where
  /-- The entities that are left out have nothing to give. -/
  skipped : id ∈ skippedIds → entry = {}
  /-- Putting the fields in order changes nothing. -/
  ordered : canonicalOrder entry.info = entry.info
  /-- A form is not taken for a species, and is not left out. -/
  formIds : ∀ f ∈ entry.forms, f.1 ∉ keys ∧ f.1 ∉ skippedIds
  /-- No form replaces another one of the same species. -/
  formsUnique : (entry.forms.map Prod.fst).Nodup
  /-- Putting the fields of a form in order changes nothing. -/
  formsOrdered : ∀ f ∈ entry.forms, canonicalOrder f.2 = f.2
  /-- Each form finds the species. -/
  formBases : ∀ f ∈ entry.forms, baseOf? f.2 = some id

/-- **The entities of a species give it its entry.** -/
theorem place_entry {a b : List (String × Value)} {suffix : Text} {number : Nat} {entry : Entry}
    (h : id ∉ a.map Prod.fst)
    (hentry : IsPlaceable (⟨a ++ (id, .record (blankSpecies suffix number)) :: b⟩ : Record).keys id
      entry)
    {done : Extraction} (hdone : done.records = ⟨a ++ (id, .record (blankSpecies suffix number)) :: b⟩) :
    ((entryInfos id entry).foldl (fun done e => place [] done ⟨e.1, e.2⟩) done).records =
      ⟨a ++ (id, .record (furnished id (blankSpecies suffix number) entry)) :: b⟩ := by
  have hforms : (withInfo (blankSpecies suffix number) entry.info).record? "forms" =
      some .empty := by
    rw [withInfo_blankSpecies]
    rfl
  have hids : ∀ f ∈ entry.forms, f.1 ∉ (⟨a ++ (id, .record (withInfo (blankSpecies suffix number)
      entry.info)) :: b⟩ : Record).keys ∧ f.1 ∉ skippedIds := by
    intro f hf
    have hkeys := hentry.formIds f hf
    rw [Record.keys, List.map_append, List.map_cons] at hkeys ⊢
    exact hkeys
  rw [entryInfos, List.foldl_append]
  refine place_forms h hforms hids hentry.formsUnique hentry.formsOrdered hentry.formBases ?_
  -- A record without fields is not placed at all: the blank species already stands there.
  cases hfields : entry.info.fields.isEmpty with
  | true =>
    have hempty : entry.info = .empty := by
      cases hinfo : entry.info with
      | mk fields =>
        rw [hinfo] at hfields
        have hnil : fields = [] := List.isEmpty_iff.1 hfields
        rw [hnil]
        rfl
    rw [if_pos rfl, List.foldl_nil, hempty, withInfo_blankSpecies]
    exact hdone
  | false =>
    have hskipped : id ∉ skippedIds := by
      intro hmem
      rw [hentry.skipped hmem] at hfields
      exact absurd hfields (by decide)
    rw [if_neg (by decide), List.foldl_cons, List.foldl_nil]
    refine place_records hskipped hentry.ordered ?_
    rw [hdone]
    exact attach?_species h

/-- **The entities of a document give its index all entries.** -/
theorem place_entities {entries : String → Entry} {keys : List String}
    (hentries : ∀ id ∈ keys, IsPlaceable keys id (entries id)) :
    ∀ (rest before : List (String × Value)), (before ++ rest).map Prod.fst = keys → keys.Nodup →
      (∀ f ∈ rest, IsIndexed f) → ∀ done : Extraction, done.records = ⟨before ++ rest⟩ →
      ((rest.flatMap fun f => entryInfos f.1 (entries f.1)).foldl
        (fun done e => place [] done ⟨e.1, e.2⟩) done).records =
          ⟨before ++ (furnish ⟨rest⟩ entries).fields⟩ := by
  intro rest
  induction rest with
  | nil =>
    intro before _ _ _ done hdone
    exact hdone
  | cons f rest ih =>
    intro before hkeys hnodup hindex done hdone
    obtain ⟨suffix, number, -, rfl⟩ := hindex f List.mem_cons_self
    have hbefore : String.ofList (speciesStem ++ suffix) ∉ before.map Prod.fst := by
      intro hmem
      rw [← hkeys, List.map_append, List.map_cons, List.nodup_append] at hnodup
      exact hnodup.2.2 _ hmem _ List.mem_cons_self rfl
    have hkey : String.ofList (speciesStem ++ suffix) ∈ keys := by
      rw [← hkeys]
      simp
    have hplaced := place_entry hbefore (b := rest)
      (by rw [Record.keys, hkeys]; exact hentries _ hkey) hdone
    have hshape := (List.append_assoc before [(String.ofList (speciesStem ++ suffix),
      Value.record (furnished (String.ofList (speciesStem ++ suffix)) (blankSpecies suffix number)
        (entries (String.ofList (speciesStem ++ suffix)))))] rest).symm
    have hall := ih (before ++ [(String.ofList (speciesStem ++ suffix),
      Value.record (furnished (String.ofList (speciesStem ++ suffix)) (blankSpecies suffix number)
        (entries (String.ofList (speciesStem ++ suffix)))))])
      (by rw [← hkeys]; simp) hnodup (fun g hg => hindex g (List.mem_cons_of_mem _ hg)) _
      (hplaced.trans (congrArg Record.mk hshape))
    rw [List.flatMap_cons, List.foldl_append, hall, List.append_assoc]
    rfl

/-! ## The round trip -/

theorem entryInfos_resolved (id : String) (entry : Entry) :
    entryInfos id (entry.resolved constants) =
      (entryInfos id entry).map fun e => (e.1, resolvedInfo constants e.2) := by
  have hempty : (resolvedInfo constants entry.info).fields.isEmpty = entry.info.fields.isEmpty := by
    cases hinfo : entry.info with
    | mk fields => cases fields <;> rfl
  rw [entryInfos, entryInfos, List.map_append]
  refine congrArg (· ++ _) ?_
  show (if (resolvedInfo constants entry.info).fields.isEmpty then _ else _) = _
  rw [hempty]
  split <;> rfl

/-- A form names its species still when its conditionals are decided. -/
theorem baseOf?_resolvedInfo {info : Record} {suffix : Text}
    (hid : id.toList = speciesStem ++ suffix)
    (h : info.str? "natDexNum" = some (String.ofList (dexStem ++ suffix))) :
    baseOf? (resolvedInfo constants info) = some id := by
  rw [baseOf?, str?_resolvedInfo h]
  simp only [Option.bind_eq_bind, Option.bind_some, String.toList_ofList, dropStart?_append, ← hid]
  exact congrArg some String.ofList_toList

namespace IsFurnishing

variable {index : Record} {entries : String → Entry}

/-- Entries with their conditionals decided can be placed. -/
theorem isPlaceable (h : IsFurnishing constants index entries) :
    ∀ id ∈ index.keys, IsPlaceable index.keys id ((entries id).resolved constants) := by
  intro id hid
  have hforms : ∀ f ∈ ((entries id).resolved constants).forms, ∃ g ∈ (entries id).forms,
      f = (g.1, resolvedInfo constants g.2) := by
    intro f hf
    obtain ⟨g, hg, rfl⟩ := List.mem_map.1 hf
    exact ⟨g, hg, rfl⟩
  constructor
  · intro hskipped
    rw [h.skipped id hskipped]
    rfl
  · show canonicalOrder (resolvedInfo constants _) = resolvedInfo constants _
    rw [canonicalOrder_resolvedInfo, (h.infos id hid).ordered]
  · intro f hf
    obtain ⟨g, hg, rfl⟩ := hforms f hf
    exact (h.formIds id hid g hg).2
  · have hnodup := (List.nodup_flatMap.1 h.formsUnique).1 id hid
    have hsame : ((entries id).resolved constants).forms.map Prod.fst =
        (entries id).forms.map Prod.fst := by
      rw [Entry.resolved, List.map_map]
      rfl
    rw [hsame]
    exact hnodup
  · intro f hf
    obtain ⟨g, hg, rfl⟩ := hforms f hf
    rw [canonicalOrder_resolvedInfo, (h.formInfos id hid g hg).ordered]
  · intro f hf
    obtain ⟨g, hg, rfl⟩ := hforms f hf
    obtain ⟨suffix, hsuffix, hdex⟩ := h.formBases id hid g hg
    exact baseOf?_resolvedInfo hsuffix hdex

/-- Everything that is written for the document is legible. -/
theorem legible_infos (h : IsFurnishing constants index entries)
    (hindex : ∀ f ∈ index.fields, IsIndexed f) :
    ∀ e ∈ Species.infos (furnish index entries), IsSpeciesId e.1 ∧ LegibleInfo constants e.2 := by
  rw [infos_furnish hindex]
  intro e he
  obtain ⟨f, hf, he⟩ := List.mem_flatMap.1 he
  have hid : f.1 ∈ index.keys := List.mem_map_of_mem hf
  rcases List.mem_append.1 he with he | he
  · split at he
    · exact absurd he (by simp)
    · rw [List.mem_singleton.1 he]
      obtain ⟨suffix, number, hsuffix, rfl⟩ := hindex f hf
      exact ⟨⟨suffix, hsuffix, String.toList_ofList⟩, h.infos _ hid⟩
  · exact ⟨(h.formIds _ hid e he).1, h.formInfos _ hid e he⟩

end IsFurnishing

/-- **Generating species and extracting them again gives the document with its conditionals
decided.** -/
theorem parse_generatedTable {constants : ConstantTable} {header : Text} {entries : String → Entry}
    (h : IsFurnishing constants (parseIndex header) entries) :
    ∃ table, generatedTable constants (furnish (parseIndex header) entries) = .ok table ∧
      (parse header table).records =
        (furnish (parseIndex header) entries).decided constants := by
  obtain ⟨hnodup, hindex⟩ := parseIndex_spec header
  obtain ⟨table, htable, hentities, htexts⟩ := exists_scan_generatedTable (h.legible_infos hindex)
  refine ⟨table, htable, ?_⟩
  have hinfos : (infos (furnish (parseIndex header) entries)).map
      (fun e => (e.1, resolvedInfo constants e.2)) =
        (parseIndex header).fields.flatMap fun f =>
          entryInfos f.1 ((entries f.1).resolved constants) := by
    rw [infos_furnish hindex, List.map_flatMap]
    exact List.flatMap_congr fun f _ => (entryInfos_resolved f.1 (entries f.1)).symm
  have hfold : ∀ (es : List (String × Record)) (done : Extraction),
      (es.map fun e => (⟨e.1, resolvedInfo constants e.2⟩ : Entity)).foldl (place []) done =
        (es.map fun e => (e.1, resolvedInfo constants e.2)).foldl
          (fun done e => place [] done ⟨e.1, e.2⟩) done := by
    intro es done
    rw [List.foldl_map, List.foldl_map]
  have hstart : parseIndex header = ⟨[] ++ (parseIndex header).fields⟩ := by
    cases parseIndex header
    rfl
  have hplaced := place_entities h.isPlaceable (parseIndex header).fields [] rfl hnodup hindex
    ⟨parseIndex header, (scanner.scan table).report⟩ hstart
  rw [parse, htexts, hentities, hfold, hinfos, hplaced, decided_furnish hindex h]
  rfl

/-! ## A document with one species and one form -/

/-- A header with one species in its dex. -/
def smallDex : Text :=
  "enum NationalDexOrder\n\x7b\n    NATIONAL_DEX_NONE,\n    NATIONAL_DEX_VENUSAUR,\n\x7d;\n".toList

/-- The types that a species has since the sixth generation. -/
def updatedType : Conditional :=
  ⟨"P_UPDATED_TYPES", .ge, "GEN_6", .str "TYPE_FAIRY", .str "TYPE_POISON", 0, 0⟩

/-- An evolution into a form. -/
def toMega : Record :=
  ⟨[("method", .str "EVO_LEVEL"), ("param", .int 32),
    ("targetSpecies", .str "SPECIES_VENUSAUR_MEGA")]⟩

/-- A species with fields of most kinds. -/
def venusaur : Record :=
  ⟨[("baseHP", .int 80), ("types", .list [.str "TYPE_GRASS", .conditional updatedType]),
    ("speciesName", .str "Venusaur"), ("description", .str "A \"plant\"\nin bloom."),
    ("frontPicSize", .list [.int 64, .str "HEIGHT"]),
    ("evolutions", .list [.record toMega])]⟩

/-- A form of that species. -/
def megaVenusaur : Record :=
  ⟨[("baseHP", .int 80), ("natDexNum", .str "NATIONAL_DEX_VENUSAUR")]⟩

/-- The entries of the species of `smallDex`. -/
def smallEntries (id : String) : Entry :=
  if id = "SPECIES_VENUSAUR" then ⟨venusaur, [("SPECIES_VENUSAUR_MEGA", megaVenusaur)]⟩ else {}

theorem legibleInfo_venusaur : LegibleInfo generationConstants venusaur := by
  refine ⟨by decide, rfl, fun f hf => ?_⟩
  simp only [venusaur, List.mem_cons, List.not_mem_nil, or_false] at hf
  rcases hf with rfl | rfl | rfl | rfl | rfl | rfl
  · exact ⟨⟨by decide, by decide⟩, .plain rfl (by decide : IsInt64 80)⟩
  · refine ⟨⟨by decide, by decide⟩, .list (by decide) fun v hv => ?_⟩
    simp only [List.mem_cons, List.not_mem_nil, or_false] at hv
    rcases hv with rfl | rfl
    · exact ⟨⟨by decide, by decide⟩, rfl⟩
    · refine ⟨⟨⟨by decide, by decide⟩, ⟨by decide, by decide⟩, ⟨⟨by decide, by decide⟩, rfl⟩,
        ⟨⟨by decide, by decide⟩, rfl⟩, .inl ⟨rfl, rfl⟩⟩, fun n hn => ?_⟩
      have hnone : updatedType.resolve? generationConstants = none := rfl
      rw [hnone] at hn
      exact absurd hn (by simp)
  · exact ⟨⟨by decide, by decide⟩, .label (by decide) ⟨rfl, rfl⟩⟩
  · exact ⟨⟨by decide, by decide⟩,
      .description ⟨⟨by decide, by decide⟩, rfl, rfl, rfl, rfl⟩⟩
  · exact ⟨⟨by decide, by decide⟩,
      .size (by decide) (by decide : IsInt64 64) ⟨⟨by decide, by decide⟩, rfl⟩⟩
  · have htarget : IsEvolution toMega :=
      .target ⟨by decide, by decide⟩ (by decide) (by decide : IsInt64 32) ⟨by decide, by decide⟩
    exact ⟨⟨by decide, by decide⟩, .evolutions (List.forall_mem_singleton.2 htarget)⟩

theorem legibleInfo_megaVenusaur : LegibleInfo generationConstants megaVenusaur := by
  refine ⟨by decide, rfl, fun f hf => ?_⟩
  simp only [megaVenusaur, List.mem_cons, List.not_mem_nil, or_false] at hf
  rcases hf with rfl | rfl
  · exact ⟨⟨by decide, by decide⟩, .plain rfl (by decide : IsInt64 80)⟩
  · exact ⟨⟨by decide, by decide⟩, .plain rfl ⟨⟨by decide, by decide⟩, rfl⟩⟩

theorem isFurnishing_smallEntries :
    IsFurnishing generationConstants (parseIndex smallDex) smallEntries := by
  have hkeys : (parseIndex smallDex).keys = ["SPECIES_VENUSAUR"] := by decide
  have hforms : ∀ id ∈ ["SPECIES_VENUSAUR"], ∀ f ∈ (smallEntries id).forms,
      id = "SPECIES_VENUSAUR" ∧ f = ("SPECIES_VENUSAUR_MEGA", megaVenusaur) := by
    intro id hid f hf
    obtain rfl := List.mem_singleton.1 hid
    exact ⟨rfl, List.mem_singleton.1 hf⟩
  constructor
  · intro id hid
    have hne : id ≠ "SPECIES_VENUSAUR" := by
      rintro rfl
      exact absurd hid (by decide)
    exact if_neg hne
  all_goals rw [hkeys]
  · intro id hid
    rw [List.mem_singleton.1 hid]
    exact legibleInfo_venusaur
  · intro id hid f hf
    obtain ⟨rfl, rfl⟩ := hforms id hid f hf
    exact legibleInfo_megaVenusaur
  · intro id hid f hf
    obtain ⟨rfl, rfl⟩ := hforms id hid f hf
    exact ⟨⟨"VENUSAUR_MEGA".toList, ⟨by decide, by decide⟩, rfl⟩, by decide, by decide⟩
  · intro id hid f hf
    obtain ⟨rfl, rfl⟩ := hforms id hid f hf
    exact ⟨"VENUSAUR".toList, rfl, rfl⟩
  · decide

theorem parse_generatedTable_smallEntries :
    IsFurnishing generationConstants (parseIndex smallDex) smallEntries ∧
      ∃ table, generatedTable generationConstants (furnish (parseIndex smallDex) smallEntries) =
        .ok table ∧ (parse smallDex table).records =
          (furnish (parseIndex smallDex) smallEntries).decided generationConstants :=
  ⟨isFurnishing_smallEntries, parse_generatedTable isFurnishing_smallEntries⟩

end Species

end TableSync
