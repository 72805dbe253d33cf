import TableSync.Proofs.Data.Path
import TableSync.Proofs.Data.Selection
import TableSync.Proofs.Scan.Tally
import TableSync.Proofs.Species.Index

/-!
# Where entities take their place

The entities of the species table come in any order, with ids that occur again, and forms before
their species.  Placing one changes the record of one species, and leaves the index as it is.

* `place_cases` says all that placing an entity can do: there are three outcomes, each with its
  condition, and every later lemma is by cases on them.
* `Hosts` is what the record of a species holds after some entities.  It has one lemma for each way
  in which one more entity can matter to it: `Hosts.other`, `Hosts.own` and `Hosts.form`.
* `IsPlacement` is what the whole document does; `IsPlacement.place` is one more entity, and
  `IsPlacement.foldl` all of them, by induction.
* `parse_placement` is about a whole document.

`Hosts` is about all entities so far and not only about those of its species.  So an entity of
another species has to be shown to change nothing, but none has to be told apart before it is
placed.

That no entity is lost is in the tally: an entity with a place is one more record in it, and an
entity without one is named.
-/

set_option autoImplicit false

namespace TableSync.Species

variable {texts : List (String × Text)} {info species : Record} {e : Entity} {es : List Entity}
  {id key : String} {done : Extraction}

/-! ## The fields of an entity

What is stored for an entity is its fields in the written order, with the text of a variable in the
place of its name.  Neither changes the field that a form finds its species by. -/

/-- Fields in the order of a species are found as before. -/
theorem get?_canonicalOrder (info : Record) (key : String) :
    (canonicalOrder info).get? key = info.get? key := by
  obtain ⟨fields⟩ := info
  show findField key (fieldOrder.filterMap (fun k => (findField k fields).map fun v => (k, v)) ++
    fields.filter fun f => !fieldOrder.contains f.1) = findField key fields
  rw [findField_append_or, findField_filterMap, findField_filter]
  by_cases hkey : key ∈ fieldOrder
  · rw [if_pos hkey, if_pos hkey, Option.or_none]
  · rw [if_neg hkey, if_neg hkey, Option.none_or]

/-- The fields that an entity of the table gives to its species or form. -/
def entityInfo (texts : List (String × Text)) (e : Entity) : Record :=
  canonicalOrder (resolveDescription texts e.fields)

/-- The entities that are to take a place. -/
def placeable (es : List Entity) : List Entity := es.filter fun e => !skippedIds.contains e.id

/-- Fields that name a species of the index by its number in the national dex. -/
def NamesBase (info : Record) (id : String) : Prop :=
  ∃ suffix, id = String.ofList (speciesStem ++ suffix) ∧
    info.str? "natDexNum" = some (String.ofList (dexStem ++ suffix))

theorem baseOf?_eq_some_iff : baseOf? info = some id ↔ NamesBase info id := by
  rw [baseOf?, NamesBase]
  cases info.str? "natDexNum" with
  | none => simp
  | some s =>
    simp only [Option.bind_eq_bind, Option.bind_some, Option.bind_eq_some_iff, Option.pure_def,
      Option.some.injEq, dropStart?_eq_some_iff]
    refine exists_congr fun suffix => and_comm.trans (and_congr eq_comm ?_)
    rw [← String.toList_inj, String.toList_ofList]

/-- Neither the order of fields nor their description matters to what they name. -/
theorem namesBase_entityInfo : NamesBase (entityInfo texts e) id ↔ NamesBase e.fields id := by
  have hsame : (entityInfo texts e).str? "natDexNum" = e.fields.str? "natDexNum" := by
    rw [Record.str?, Record.str?, entityInfo, get?_canonicalOrder, resolveDescription]
    split
    · rw [Record.get?_insert_of_ne (by decide)]
    · rfl
  rw [NamesBase, NamesBase, hsame]

/-! ## Placing one entity

The case analysis over the function, made once. -/

theorem get?_withInfo (hname : key ≠ "name") (hinfo : key ≠ "species_info") :
    (withInfo species info).get? key = species.get? key := by
  rw [withInfo, Record.get?_insert_of_ne (Ne.symm hinfo)]
  split
  · exact Record.get?_insert_of_ne (Ne.symm hname) _ _
  · rfl

/-- **All that placing an entity can do**: it gives an indexed species its fields, it puts a form
below the species that its fields name, or it finds no such species. -/
theorem place_cases (texts : List (String × Text)) (done : Extraction) (he : e.id ∉ skippedIds) :
    (∃ species, done.records.record? e.id = some species ∧
      place texts done e =
        ⟨done.records.insert e.id (.record (withInfo species (entityInfo texts e))),
          { done.report with records := done.report.records + 1 }⟩) ∨
    (∃ base species forms, done.records.record? e.id = none ∧ NamesBase e.fields base ∧
      done.records.record? base = some species ∧ species.record? "forms" = some forms ∧
      place texts done e =
        ⟨done.records.insert base (.record (species.insert "forms"
            (.record (forms.insert e.id (.record (formRecord e.id base (entityInfo texts e))))))),
          { done.report with records := done.report.records + 1 }⟩) ∨
    (done.records.record? e.id = none ∧
      (∀ base species forms, NamesBase e.fields base → done.records.record? base = some species →
        species.record? "forms" ≠ some forms) ∧
      place texts done e = ⟨done.records, { done.report with
        fallbacks := done.report.fallbacks ++ [⟨e.id, "natDexNum", "no indexed base species"⟩] }⟩) := by
  have hplace : ¬ skippedIds.contains e.id = true := by simpa using he
  have hnames : ∀ base, NamesBase e.fields base ↔ baseOf? (entityInfo texts e) = some base :=
    fun _ => namesBase_entityInfo.symm.trans baseOf?_eq_some_iff.symm
  rw [place, if_neg hplace, ← entityInfo, attach?]
  cases hspecies : done.records.record? e.id with
  | some species => exact Or.inl ⟨species, rfl, rfl⟩
  | none =>
    refine Or.inr ?_
    cases hbase : baseOf? (entityInfo texts e) with
    | none =>
      refine Or.inr ⟨rfl, fun base _ _ hbase' => ?_, rfl⟩
      cases hbase.symm.trans ((hnames base).1 hbase')
    | some base =>
      have honly : ∀ other, NamesBase e.fields other → other = base := fun other hother =>
        Option.some.inj (((hnames other).1 hother).symm.trans hbase)
      cases hrecord : done.records.record? base with
      | none =>
        refine Or.inr ⟨rfl, fun other _ _ hother hsome => ?_, ?_⟩
        · rw [honly other hother, hrecord] at hsome
          cases hsome
        · simp [hrecord]
      | some species =>
        cases hforms : species.record? "forms" with
        | none =>
          refine Or.inr ⟨rfl, fun other _ forms hother hsome hforms' => ?_, ?_⟩
          · rw [honly other hother, hrecord] at hsome
            rw [← Option.some.inj hsome, hforms] at hforms'
            cases hforms'
          · simp [hrecord, hforms]
        | some forms =>
          refine Or.inl ⟨base, species, forms, rfl, (hnames base).2 hbase, hrecord, hforms, ?_⟩
          simp [hrecord, hforms]

/-! ## One species

The state of one species, as it follows from all entities that were placed so far. -/

/-- The last of some entities with an id. -/
def lastWith (id : String) (es : List Entity) : Option Entity :=
  (es.filter fun e => e.id = id).getLast?

theorem lastWith_concat_self (es : List Entity) (e : Entity) :
    lastWith e.id (es ++ [e]) = some e := by
  rw [lastWith, List.filter_append, List.filter_cons_of_pos (by simp), List.filter_nil,
    List.getLast?_concat]

theorem lastWith_concat_of_ne (h : e.id ≠ id) (es : List Entity) :
    lastWith id (es ++ [e]) = lastWith id es := by
  rw [lastWith, List.filter_append, List.filter_cons_of_neg (by simpa using h), List.filter_nil,
    List.append_nil, lastWith]

/-- What the record of a species holds after some entities, in place of an entry of the index: its
number and its name there, the fields of the last entity with its id, and a form for every entity
that names it and has an id which is not that of a species. -/
structure Hosts (texts : List (String × Text)) (keys : List String) (id : String)
    (es : List Entity) (entry species : Record) : Prop where
  /-- The number in the dex is that of the index. -/
  dexNum : species.get? "dex_num" = entry.get? "dex_num"
  /-- The name in the dex is that of the index. -/
  dexConstant : species.get? "dex_constant" = entry.get? "dex_constant"
  /-- The fields are those of the last entity with the id, and there are none before the first one.
  -/
  info : species.record? "species_info" =
    some (((lastWith id es).map (entityInfo texts)).getD .empty)
  /-- Every form has an id that is no species of the index and fields that name the species, and
  every entity with such an id and such fields has its form. -/
  forms : ∃ forms, species.record? "forms" = some forms ∧
    (∀ f ∈ forms.fields, f.1 ∉ keys ∧ ∃ form info, f.2 = .record form ∧
      form.record? "species_info" = some info ∧ NamesBase info id) ∧
    ∀ formId ∉ keys, formId ∈ forms.keys ↔ ∃ e ∈ es, e.id = formId ∧ NamesBase e.fields id

namespace Hosts

variable {keys : List String} {entry : Record}

/-- An entity that belongs to another species, or to none. -/
theorem other (h : Hosts texts keys id es entry species) (hid : e.id ≠ id)
    (hother : e.id ∈ keys ∨ ¬ NamesBase e.fields id) :
    Hosts texts keys id (es ++ [e]) entry species := by
  obtain ⟨forms, hforms, hall, hiff⟩ := h.forms
  refine ⟨h.dexNum, h.dexConstant, ?_, forms, hforms, hall, fun formId hnot => ?_⟩
  · rw [lastWith_concat_of_ne hid, h.info]
  · rw [hiff formId hnot]
    constructor
    · rintro ⟨e', he', heq⟩
      exact ⟨e', List.mem_append_left _ he', heq⟩
    · rintro ⟨e', he', rfl, hnames⟩
      rcases List.mem_append.1 he' with he' | he'
      · exact ⟨e', he', rfl, hnames⟩
      · obtain rfl := List.mem_singleton.1 he'
        exact (hother.elim hnot fun hnone => hnone hnames).elim

/-- An entity with the id of the species. -/
theorem own (h : Hosts texts keys e.id es entry species) (hkey : e.id ∈ keys) :
    Hosts texts keys e.id (es ++ [e]) entry (withInfo species (entityInfo texts e)) := by
  obtain ⟨forms, hforms, hall, hiff⟩ := h.forms
  refine ⟨?_, ?_, ?_, forms, ?_, hall, fun formId hnot => ?_⟩
  · rw [get?_withInfo (by decide) (by decide), h.dexNum]
  · rw [get?_withInfo (by decide) (by decide), h.dexConstant]
  · rw [lastWith_concat_self, withInfo, Record.record?_insert_self]
    rfl
  · rw [Record.record?, get?_withInfo (by decide) (by decide)]
    exact hforms
  · rw [hiff formId hnot]
    constructor
    · rintro ⟨e', he', heq⟩
      exact ⟨e', List.mem_append_left _ he', heq⟩
    · rintro ⟨e', he', rfl, hnames⟩
      rcases List.mem_append.1 he' with he' | he'
      · exact ⟨e', he', rfl, hnames⟩
      · exact absurd (List.mem_singleton.1 he' ▸ hkey) hnot

/-- An entity that names the species, and whose id is not that of one. -/
theorem form {forms : Record} (h : Hosts texts keys id es entry species) (hid : id ∈ keys)
    (hkey : e.id ∉ keys) (hnames : NamesBase e.fields id)
    (hforms : species.record? "forms" = some forms) :
    Hosts texts keys id (es ++ [e]) entry (species.insert "forms"
      (.record (forms.insert e.id (.record (formRecord e.id id (entityInfo texts e)))))) := by
  obtain ⟨forms', hforms', hall, hiff⟩ := h.forms
  obtain rfl : forms' = forms := Option.some.inj (hforms'.symm.trans hforms)
  have hne : e.id ≠ id := fun heq => hkey (heq ▸ hid)
  refine ⟨?_, ?_, ?_, _, Record.record?_insert_self _ _ _, fun f hf => ?_, fun formId hnot => ?_⟩
  · rw [Record.get?_insert_of_ne (by decide), h.dexNum]
  · rw [Record.get?_insert_of_ne (by decide), h.dexConstant]
  · rw [lastWith_concat_of_ne hne, Record.record?_insert_of_ne (by decide), h.info]
  · rcases Record.mem_insert hf with rfl | hf
    · exact ⟨hkey, _, _, rfl, rfl, namesBase_entityInfo.2 hnames⟩
    · exact hall f hf
  · rw [Record.mem_keys_insert, hiff formId hnot]
    constructor
    · rintro (rfl | ⟨e', he', heq⟩)
      · exact ⟨e, List.mem_append_right _ List.mem_cons_self, rfl, hnames⟩
      · exact ⟨e', List.mem_append_left _ he', heq⟩
    · rintro ⟨e', he', rfl, hnames'⟩
      rcases List.mem_append.1 he' with he' | he'
      · exact Or.inr ⟨e', he', rfl, hnames'⟩
      · exact Or.inl (congrArg Entity.id (List.mem_singleton.1 he'))

end Hosts

/-! ## The whole document

The states of all species together, and the tally.  One entity changes one species at most, which is
`IsPlacement.species_insert`. -/

/-- A document after some entities: the index with what its species hold, and a tally in which every
entity is counted or named. -/
structure IsPlacement (texts : List (String × Text)) (index : Record) (tally : Report)
    (es : List Entity) (done : Extraction) : Prop where
  /-- The document has the species of the index, in its order. -/
  keys : done.records.keys = index.keys
  /-- Every species of the index is a record still, and holds what it should. -/
  species : ∀ id ∈ index.keys, ∃ entry species, index.record? id = some entry ∧
    done.records.record? id = some species ∧ Hosts texts index.keys id es entry species
  /-- Every entity is one more record in the tally or is named there; nothing else is added to
  either. -/
  counted : ∃ refused, done.report.fallbacks = tally.fallbacks ++ refused ∧
    (∀ f ∈ refused, f.key = "natDexNum" ∧ f.raw = "no indexed base species") ∧
    done.report.records + refused.length = tally.records + es.length

namespace IsPlacement

variable {index : Record} {tally : Report}

theorem mem_keys (h : IsPlacement texts index tally es done)
    (hspecies : done.records.record? id = some species) : id ∈ index.keys := by
  rw [← h.keys]
  by_contra hnot
  rw [Record.record?, Record.get?_eq_none_iff.2 hnot] at hspecies
  cases hspecies

theorem notMem_keys (h : IsPlacement texts index tally es done)
    (hnone : done.records.record? id = none) : id ∉ index.keys := by
  intro hmem
  obtain ⟨_, species, -, hspecies, -⟩ := h.species id hmem
  cases hspecies.symm.trans hnone

/-- One species is changed, and the others are left alone. -/
theorem species_insert (h : IsPlacement texts index tally es done) {changed : Record}
    (hid : id ∈ index.keys)
    (hself : ∀ entry species, index.record? id = some entry →
      done.records.record? id = some species → Hosts texts index.keys id es entry species →
      Hosts texts index.keys id (es ++ [e]) entry changed)
    (hothers : ∀ other ∈ index.keys, other ≠ id → e.id ≠ other ∧
      (e.id ∈ index.keys ∨ ¬ NamesBase e.fields other)) :
    (done.records.insert id (.record changed)).keys = index.keys ∧
      ∀ other ∈ index.keys, ∃ entry species, index.record? other = some entry ∧
        (done.records.insert id (.record changed)).record? other = some species ∧
        Hosts texts index.keys other (es ++ [e]) entry species := by
  constructor
  · rw [Record.keys_insert, Record.withKey, h.keys, if_pos hid]
  · intro other hother
    obtain ⟨entry, species, hentry, hspecies, hhosts⟩ := h.species other hother
    by_cases hsame : other = id
    · obtain rfl := hsame
      exact ⟨entry, changed, hentry, Record.record?_insert_self _ _ _,
        hself entry species hentry hspecies hhosts⟩
    · obtain ⟨hne, hnot⟩ := hothers other hother hsame
      refine ⟨entry, species, hentry, ?_, hhosts.other hne hnot⟩
      rw [Record.record?_insert_of_ne (Ne.symm hsame), hspecies]

/-- One more entity takes its place, or is named in the tally. -/
theorem place (h : IsPlacement texts index tally es done) (he : e.id ∉ skippedIds) :
    IsPlacement texts index tally (es ++ [e]) (Species.place texts done e) := by
  obtain ⟨refused, hfallbacks, hrefused, hcount⟩ := h.counted
  -- an entity that finds its place is one more record in the tally
  have hplaced : ∃ refused, done.report.fallbacks = tally.fallbacks ++ refused ∧
      (∀ f ∈ refused, f.key = "natDexNum" ∧ f.raw = "no indexed base species") ∧
      done.report.records + 1 + refused.length = tally.records + (es ++ [e]).length := by
    refine ⟨refused, hfallbacks, hrefused, ?_⟩
    rw [List.length_append, List.length_singleton]
    omega
  obtain ⟨species, hspecies, hplace⟩ | ⟨base, species, forms, hnone, hnames, hspecies, hforms,
    hplace⟩ | ⟨hnone, hnowhere, hplace⟩ := place_cases texts done he
  · have hkey := h.mem_keys hspecies
    obtain ⟨hkeys, hall⟩ := h.species_insert (e := e) hkey
      (fun entry species' _ hspecies' hhosts => by
        obtain rfl : species' = species := Option.some.inj (hspecies'.symm.trans hspecies)
        exact hhosts.own hkey)
      fun other _ hother => ⟨Ne.symm hother, Or.inl hkey⟩
    rw [hplace]
    exact ⟨hkeys, hall, hplaced⟩
  · have hkey := h.notMem_keys hnone
    have hbase := h.mem_keys hspecies
    obtain ⟨hkeys, hall⟩ := h.species_insert (e := e) hbase
      (fun entry species' _ hspecies' hhosts => by
        obtain rfl : species' = species := Option.some.inj (hspecies'.symm.trans hspecies)
        exact hhosts.form hbase hkey hnames hforms)
      fun other hmem hother => ⟨fun heq => hkey (heq ▸ hmem), Or.inr fun hnames' => hother <|
        Option.some.inj ((baseOf?_eq_some_iff.2 hnames').symm.trans (baseOf?_eq_some_iff.2 hnames))⟩
    rw [hplace]
    exact ⟨hkeys, hall, hplaced⟩
  · -- every indexed species has forms, so that the entity names none of them
    have hkey := h.notMem_keys hnone
    rw [hplace]
    refine ⟨h.keys, fun other hmem => ?_,
      refused ++ [⟨e.id, "natDexNum", "no indexed base species"⟩], ?_, fun f hf => ?_, ?_⟩
    · obtain ⟨entry, species, hentry, hspecies, hhosts⟩ := h.species other hmem
      refine ⟨entry, species, hentry, hspecies, hhosts.other (fun heq => hkey (heq ▸ hmem))
        (Or.inr fun hnames => ?_)⟩
      obtain ⟨forms, hforms, -⟩ := hhosts.forms
      exact hnowhere other species forms hnames hspecies hforms
    · rw [← List.append_assoc, ← hfallbacks]
    · rcases List.mem_append.1 hf with hf | hf
      · exact hrefused f hf
      · rw [List.mem_singleton.1 hf]
        exact ⟨rfl, rfl⟩
    · rw [List.length_append, List.length_append, List.length_singleton, List.length_singleton]
      show done.report.records + _ = _
      omega

/-- All entities take their places, but for those that are no species. -/
theorem foldl (later : List Entity) (h : IsPlacement texts index tally es done) :
    IsPlacement texts index tally (es ++ placeable later)
      (later.foldl (Species.place texts) done) := by
  induction later generalizing es done with
  | nil =>
    rw [placeable, List.filter_nil, List.append_nil]
    exact h
  | cons e later ih =>
    by_cases he : e.id ∈ skippedIds
    · have hsame : Species.place texts done e = done := by
        rw [Species.place, if_pos (by simpa using he)]
      rw [List.foldl_cons, hsame, placeable, List.filter_cons_of_neg (by simpa using he)]
      exact ih h
    · rw [List.foldl_cons, placeable, List.filter_cons_of_pos (by simpa using he),
        List.append_cons]
      exact ih (h.place he)

end IsPlacement

end TableSync.Species
