import TableSync.Proofs.Data.Selection
import TableSync.Proofs.Species.Placement

/-!
# The order of fields in a written species

The fields of a species are written in a fixed order, and after them those that this order does not
name.  Reordering a record loses no field, reordering it again changes nothing, and what is written
depends on a record through its reordered form alone.

* `IsReordered` says what a reordered record is, without the function that makes one, and
  `isReordered_iff` that there is one only.  It holds since a list of fields with keys that differ
  is determined by the order of its keys.
* `canonicalOrder_eq_iff` says which records have the same reordered form: those with the same
  fields, of which the ones that the written order does not name stand in the same order.
* `block_congr` and `generatedTable_congr` say that what is written depends on this form.
* `Record.moveFields` moves the named fields out of a record one after the other;
  `Record.moveFields_eq` says that the record which is left at the end is the reordered one.
* `canonicalOrder_stable` puts all of it together.

The hypothesis that the keys of a record differ holds of every record that has come about by
insertions.  Without it the reordered record would lose a field: of two fields under a key of the
written order only the first one is found.
-/

set_option autoImplicit false

namespace TableSync.Species

variable {info other ordered : Record}

/-! ## What reordering is

Two relations between records, both without the function: what a reordered record is to the record,
and what two records with the same reordered form are to each other. -/

theorem nodup_fieldOrder : fieldOrder.Nodup := by decide +kernel

/-- A record with the same fields, those of the written order first and in that order, and after
them the others as they stood. -/
structure IsReordered (info ordered : Record) : Prop where
  /-- No field is lost, none is added, and each has kept its value. -/
  fields : ordered.fields.Perm info.fields
  /-- The keys of the written order that the record has come first, in that order, and then its
  other keys in their own order. -/
  keys : ordered.keys = fieldOrder.filter (fun key => key ∈ info.keys) ++
    info.keys.filter fun key => key ∉ fieldOrder

/-- Two records with the same fields, where only those of the written order may stand in another
order, and among the others. -/
structure DiffersInOrder (info other : Record) : Prop where
  /-- Both have the same fields, in any order. -/
  fields : other.fields.Perm info.fields
  /-- The fields that the written order does not name stand in the same order in both. -/
  others : other.others fieldOrder = info.others fieldOrder

instance (info other : Record) : Decidable (DiffersInOrder info other) :=
  decidable_of_iff (other.fields.Perm info.fields ∧
      other.others fieldOrder = info.others fieldOrder)
    ⟨fun h => ⟨h.1, h.2⟩, fun h => ⟨h.1, h.2⟩⟩

/-! ## The reordered record

The reordered form has two parts, `Record.selected` and `Record.others`, and the lemmas are about
what each part depends on. -/

theorem canonicalOrder_eq (info : Record) :
    canonicalOrder info = ⟨info.selected fieldOrder ++ info.others fieldOrder⟩ := rfl

theorem isReordered_canonicalOrder (h : info.keys.Nodup) : IsReordered info (canonicalOrder info) where
  fields := Record.selected_append_others_perm nodup_fieldOrder h
  keys := by
    rw [← Record.map_fst_selected, ← Record.map_fst_others, ← List.map_append]
    rfl

/-- **There is one reordered record only.** -/
theorem isReordered_iff (h : info.keys.Nodup) :
    IsReordered info ordered ↔ ordered = canonicalOrder info := by
  have hcanonical := isReordered_canonicalOrder h
  constructor
  · intro hordered
    have hfields : ordered.fields = (canonicalOrder info).fields := by
      refine eq_of_perm_of_keys (hordered.fields.trans hcanonical.fields.symm) ?_
        (hordered.keys.trans hcanonical.keys.symm)
      exact (hordered.fields.map Prod.fst).nodup_iff.2 h
    obtain ⟨fields⟩ := ordered
    exact congrArg Record.mk hfields
  · rintro rfl
    exact hcanonical

/-- Reordering does not move the fields that are not of the written order. -/
theorem others_canonicalOrder (info : Record) :
    (canonicalOrder info).others fieldOrder = info.others fieldOrder := by
  have hselected : (info.selected fieldOrder).filter (fun f => !fieldOrder.contains f.1) = [] :=
    List.filter_eq_nil_iff.2 fun f hf => by simpa using (Record.mem_selected.1 hf).1
  have hothers : (info.others fieldOrder).filter (fun f => !fieldOrder.contains f.1) =
      info.others fieldOrder :=
    List.filter_eq_self.2 fun f hf => (List.mem_filter.1 hf).2
  rw [canonicalOrder_eq, Record.others, List.filter_append, hselected, hothers, List.nil_append]

theorem canonicalOrder_congr (hget : ∀ key ∈ fieldOrder, info.get? key = other.get? key)
    (hothers : info.others fieldOrder = other.others fieldOrder) :
    canonicalOrder info = canonicalOrder other := by
  rw [canonicalOrder_eq, canonicalOrder_eq, Record.selected_congr hget, hothers]

/-- **Reordering twice is reordering once.** -/
theorem canonicalOrder_canonicalOrder (info : Record) :
    canonicalOrder (canonicalOrder info) = canonicalOrder info :=
  canonicalOrder_congr (fun key _ => get?_canonicalOrder info key) (others_canonicalOrder info)

/-- **Which records have the same reordered form.** -/
theorem canonicalOrder_eq_iff (hinfo : info.keys.Nodup) (hother : other.keys.Nodup) :
    canonicalOrder other = canonicalOrder info ↔ DiffersInOrder info other := by
  constructor
  · intro h
    have hfields := (isReordered_canonicalOrder hother).fields.symm
    rw [h] at hfields
    refine ⟨hfields.trans (isReordered_canonicalOrder hinfo).fields, ?_⟩
    rw [← others_canonicalOrder other, h, others_canonicalOrder]
  · rintro ⟨hfields, hothers⟩
    exact canonicalOrder_congr (fun key _ => findField_perm hfields hother key) hothers

/-! ## What is written

A block is written for the reordered form of its record, so it is the same for all records with this
form; the table is written block by block. -/

theorem block_congr (h : canonicalOrder info = canonicalOrder other) (id : String)
    (constants : ConstantTable) : block id constants info = block id constants other := by
  rw [block, block, h]

theorem renderInfos_canonicalOrder (constants : ConstantTable) (es : List (String × Record)) :
    renderInfos constants (es.map fun e => (e.1, canonicalOrder e.2)) = renderInfos constants es := by
  induction es with
  | nil => rfl
  | cons e es ih =>
    rw [List.map_cons, renderInfos, renderInfos, ih,
      block_congr (canonicalOrder_canonicalOrder e.2) e.1 constants]

/-- **The table depends on records of fields through their reordered forms alone.** -/
theorem generatedTable_congr {records changed : Record}
    (h : (infos changed).map (fun e => (e.1, canonicalOrder e.2)) =
      (infos records).map fun e => (e.1, canonicalOrder e.2)) (constants : ConstantTable) :
    generatedTable constants changed = generatedTable constants records := by
  rw [generatedTable, generatedTable, ← renderInfos_canonicalOrder constants (infos changed), h,
    renderInfos_canonicalOrder]

/-- **Reordering is a stable permutation that does nothing the second time, and what is written
depends on a record through it alone.**  No key occurs twice in a record that has come about by
insertions; then the reordered record is the only one with the same fields in this order, and moving
the fields out of the record one by one gives it.  Records that differ in the order of their fields
alone are written as the same block, and documents of such records as the same table. -/
theorem canonicalOrder_stable :
    (∀ info : Record, info.keys.Nodup →
      (∀ ordered, IsReordered info ordered ↔ ordered = canonicalOrder info) ∧
        info.moveFields fieldOrder = canonicalOrder info) ∧
    (∀ info, canonicalOrder (canonicalOrder info) = canonicalOrder info) ∧
    (∀ (id : String) (constants : ConstantTable) (info : Record),
      block id constants info = block id constants (canonicalOrder info) ∧
        ∀ other, info.keys.Nodup → DiffersInOrder info other →
          block id constants other = block id constants info) ∧
    ∀ (constants : ConstantTable) (records changed : Record),
      (infos changed).map (fun e => (e.1, canonicalOrder e.2)) =
        (infos records).map (fun e => (e.1, canonicalOrder e.2)) →
      generatedTable constants changed = generatedTable constants records := by
  refine ⟨fun info h => ⟨fun ordered => isReordered_iff h, ?_⟩, canonicalOrder_canonicalOrder,
    fun id constants info => ⟨?_, fun other h hdiffers => ?_⟩,
    fun constants records changed h => generatedTable_congr h constants⟩
  · rw [Record.moveFields_eq nodup_fieldOrder h, canonicalOrder_eq]
  · exact (block_congr (canonicalOrder_canonicalOrder info) id constants).symm
  · have hother : other.keys.Nodup := (hdiffers.fields.map Prod.fst).nodup_iff.2 h
    exact block_congr ((canonicalOrder_eq_iff h hother).2 hdiffers) id constants

/-- Fields of the written order and others, mixed. -/
def shuffledInfo : Record :=
  ⟨[("customB", .int 1), ("evolutions", .list []), ("baseHP", .int 45), ("customA", .str "A"),
    ("types", .list [.str "TYPE_GRASS"]), ("baseAttack", .int 49)]⟩

/-- The same fields, where only the others stand as before. -/
def reshuffledInfo : Record :=
  ⟨[("types", .list [.str "TYPE_GRASS"]), ("baseAttack", .int 49), ("customB", .int 1),
    ("customA", .str "A"), ("baseHP", .int 45), ("evolutions", .list [])]⟩

/-- A document with a species and a form with given fields. -/
def shuffledRecords (own form : Record) : Record :=
  ⟨[("SPECIES_A", .record ⟨[("species_info", .record own),
    ("forms", .record ⟨[("SPECIES_A_MEGA", .record ⟨[("species_info", .record form)]⟩)]⟩)]⟩)]⟩

theorem canonicalOrder_stable_shuffled :
    (shuffledInfo.keys.Nodup ∧ IsReordered shuffledInfo (canonicalOrder shuffledInfo) ∧
      shuffledInfo.moveFields fieldOrder = canonicalOrder shuffledInfo) ∧
    canonicalOrder (canonicalOrder shuffledInfo) = canonicalOrder shuffledInfo ∧
    (DiffersInOrder shuffledInfo reshuffledInfo ∧
      block "SPECIES_A" [] reshuffledInfo = block "SPECIES_A" [] shuffledInfo) ∧
    (infos (shuffledRecords reshuffledInfo shuffledInfo)).map (fun e => (e.1, canonicalOrder e.2)) =
      (infos (shuffledRecords shuffledInfo reshuffledInfo)).map
        (fun e => (e.1, canonicalOrder e.2)) ∧
    generatedTable [] (shuffledRecords reshuffledInfo shuffledInfo) =
      generatedTable [] (shuffledRecords shuffledInfo reshuffledInfo) := by
  have hkeys : shuffledInfo.keys.Nodup := by decide
  have hdiffers : DiffersInOrder shuffledInfo reshuffledInfo := by decide +kernel
  have hinfos : (infos (shuffledRecords reshuffledInfo shuffledInfo)).map
      (fun e => (e.1, canonicalOrder e.2)) =
        (infos (shuffledRecords shuffledInfo reshuffledInfo)).map
          (fun e => (e.1, canonicalOrder e.2)) := by decide +kernel
  obtain ⟨hreordered, hidempotent, hblock, htable⟩ := canonicalOrder_stable
  obtain ⟨hunique, hmoved⟩ := hreordered shuffledInfo hkeys
  exact ⟨⟨hkeys, (hunique _).2 rfl, hmoved⟩, hidempotent shuffledInfo,
    ⟨hdiffers, (hblock "SPECIES_A" [] shuffledInfo).2 reshuffledInfo hkeys hdiffers⟩,
    hinfos, htable [] _ _ hinfos⟩

/-- The fields in the order in which they are written. -/
example : (canonicalOrder shuffledInfo).keys =
    ["baseHP", "baseAttack", "types", "evolutions", "customB", "customA"] := by decide

end TableSync.Species
