import TableSync.Data.Document
import TableSync.Proofs.Data.Record
import TableSync.Proofs.Json.Tree

/-!
# A document is read back

A record is read back from its document as it is.  What stands in the way is only what a document
cannot show: a record with the keys of a conditional, a key that occurs twice, an integer of more
than 64 bits, and containers that are nested too deep.  The first is a matter of the format: a
conditional is written as an object with keys of its own, so a record with those keys is read as a
conditional.

* `Value.depth`, `Value.AreInt64` and `Value.IsDistinct` say this of values.  Each is defined by
  recursion on the value, together with the lists and the fields in it.
* `Value.depth_toJson` and `Value.AreInt64.toJson` carry depth and range over to the tree that is
  written, where the lemmas on texts want them.
* `conditionalOfMembers?_parts` and `areConditionalKeys_of_conditionalOfMembers?` say which objects
  are read as a conditional: what is written for one is, and nothing with other keys.
* `Value.ofJson?_toJson` is about the tree of a value, by the recursion of its definition.
* `Record.parse?_document` is about the text of a record.  The text is read to the tree that was
  written (`Json.parse?_pretty`), and the tree to the record.
-/

set_option autoImplicit false

namespace TableSync

/-! ## What a document can hold

The record that is the document is not asked whether it has the keys of a conditional: the reader
wants a record there, and takes its members as fields. -/

mutual

/-- How many lists, records and conditionals stand inside one another. -/
def Value.depth : Value → Nat
  | .int _ => 0
  | .str _ => 0
  | .list items => depthItems items + 1
  | .conditional ⟨_, _, _, t, f, _, _⟩ => max t.depth f.depth + 1
  | .record ⟨fields⟩ => depthFields fields + 1
termination_by structural v => v

/-- How many containers stand inside one another in some values. -/
def depthItems : List Value → Nat
  | [] => 0
  | v :: vs => max v.depth (depthItems vs)
termination_by structural vs => vs

/-- How many containers stand inside one another in some fields. -/
def depthFields : List (String × Value) → Nat
  | [] => 0
  | (_, v) :: fs => max v.depth (depthFields fs)
termination_by structural fs => fs

end

mutual

/-- All integers in a value have 64 bits. -/
def Value.AreInt64 : Value → Prop
  | .int n => IsInt64 n
  | .str _ => True
  | .list items => AreInt64Items items
  | .conditional ⟨_, _, _, t, f, toAdd, toSubtract⟩ =>
    t.AreInt64 ∧ f.AreInt64 ∧ IsInt64 toAdd ∧ IsInt64 toSubtract
  | .record ⟨fields⟩ => AreInt64Fields fields
termination_by structural v => v

/-- All integers in some values have 64 bits. -/
def AreInt64Items : List Value → Prop
  | [] => True
  | v :: vs => v.AreInt64 ∧ AreInt64Items vs
termination_by structural vs => vs

/-- All integers in some fields have 64 bits. -/
def AreInt64Fields : List (String × Value) → Prop
  | [] => True
  | (_, v) :: fs => v.AreInt64 ∧ AreInt64Fields fs
termination_by structural fs => fs

end

/-- Keys that are those of a conditional: no other one, and all that may not be left out. -/
def AreConditionalKeys (keys : List String) : Prop :=
  (∀ k ∈ keys, k ∈ conditionalKeys) ∧
    ∀ k ∈ ["param1", "condition", "param2", "true_value", "false_value"], k ∈ keys

instance (keys : List String) : Decidable (AreConditionalKeys keys) :=
  inferInstanceAs (Decidable (_ ∧ _))

mutual

/-- No record that is the value or stands inside it has the keys of a conditional. -/
def Value.IsDistinct : Value → Prop
  | .int _ => True
  | .str _ => True
  | .list items => AreDistinctItems items
  | .conditional ⟨_, _, _, t, f, _, _⟩ => t.IsDistinct ∧ f.IsDistinct
  | .record ⟨fields⟩ => ¬ AreConditionalKeys (fields.map Prod.fst) ∧ AreDistinctFields fields
termination_by structural v => v

/-- No record in some values has the keys of a conditional. -/
def AreDistinctItems : List Value → Prop
  | [] => True
  | v :: vs => v.IsDistinct ∧ AreDistinctItems vs
termination_by structural vs => vs

/-- No record in some fields has the keys of a conditional. -/
def AreDistinctFields : List (String × Value) → Prop
  | [] => True
  | (_, v) :: fs => v.IsDistinct ∧ AreDistinctFields fs
termination_by structural fs => fs

end

namespace Record

/-- How many lists, records and conditionals stand inside one another, the record counted. -/
def depth (r : Record) : Nat := (Value.record r).depth

/-- All integers in a record have 64 bits. -/
def AreInt64 (r : Record) : Prop := (Value.record r).AreInt64

/-- No record inside the record has the keys of a conditional. -/
def AreDistinct (r : Record) : Prop := AreDistinctFields r.fields

end Record

/-! ## The tree of a value -/

mutual

theorem Value.depth_toJson : ∀ v : Value, v.toJson.depth = v.depth
  | .int _ => rfl
  | .str _ => rfl
  | .list items => congrArg (· + 1) (depthItems_itemsToJson items)
  | .conditional ⟨_, _, _, t, f, _, _⟩ => by
    simp [Value.toJson, Json.depth, Json.depthMembers, Value.depth, t.depth_toJson, f.depth_toJson]
  | .record ⟨fields⟩ => congrArg (· + 1) (depthMembers_fieldsToJson fields)

theorem depthItems_itemsToJson : ∀ vs : List Value,
    Json.depthItems (itemsToJson vs) = depthItems vs
  | [] => rfl
  | v :: vs => by
    rw [itemsToJson, Json.depthItems, depthItems, v.depth_toJson, depthItems_itemsToJson vs]

theorem depthMembers_fieldsToJson : ∀ fs : List (String × Value),
    Json.depthMembers (fieldsToJson fs) = depthFields fs
  | [] => rfl
  | (_, v) :: fs => by
    rw [fieldsToJson, Json.depthMembers, depthFields, v.depth_toJson, depthMembers_fieldsToJson fs]

end

mutual

theorem Value.AreInt64.toJson : ∀ {v : Value}, v.AreInt64 → v.toJson.AreInt64
  | .int _, h => h
  | .str _, _ => trivial
  | .list _, h => AreInt64Items.toJson h
  | .conditional ⟨_, _, _, _, _, _, _⟩, h =>
    ⟨trivial, trivial, trivial, h.1.toJson, h.2.1.toJson, h.2.2.1, h.2.2.2, trivial⟩
  | .record ⟨_⟩, h => AreInt64Fields.toJson h

theorem AreInt64Items.toJson : ∀ {vs : List Value}, AreInt64Items vs →
    Json.AreInt64Items (itemsToJson vs)
  | [], _ => trivial
  | _ :: _, h => ⟨h.1.toJson, AreInt64Items.toJson h.2⟩

theorem AreInt64Fields.toJson : ∀ {fs : List (String × Value)}, AreInt64Fields fs →
    Json.AreInt64Members (fieldsToJson fs)
  | [], _ => trivial
  | _ :: _, h => ⟨h.1.toJson, AreInt64Fields.toJson h.2⟩

end

/-! ## Reading the tree

The reader tries an object as a conditional first, and as a record if that fails.  So a conditional
needs that the attempt succeeds on what is written for it, and a record that it fails. -/

theorem Comparison.ofText?_text (c : Comparison) : ofText? c.text = some c := by
  cases c <;> decide

/-- The members that a conditional is written as are read as it. -/
theorem conditionalOfMembers?_parts (e : Conditional) {t f : Json}
    (ht : Value.ofJson? t = some e.whenTrue) (hf : Value.ofJson? f = some e.whenFalse) :
    conditionalOfMembers? (readMembers [("param1", .str e.left),
      ("condition", .str e.comparison.text), ("param2", .str e.right), ("true_value", t),
      ("false_value", f), ("to_add", .num e.toAdd), ("to_subtract", .num e.toSubtract)]) =
        some e := by
  obtain ⟨l, c, r, t', f', a, s⟩ := e
  have hcomparison : Comparison.ofJson? (.str c.text) = some c := c.ofText?_text
  have hkeys : (conditionalKeys.eraseDups.length == 7) = true := by decide
  rw [conditionalKeys] at hkeys
  simp [readMembers, ht, hf, conditionalOfMembers?, conditionalKeys, hkeys, List.lookup_cons,
    conditionalOfParts?, hcomparison, amount?]

theorem map_fst_readMembers (fs : List (String × Value)) :
    (readMembers (fieldsToJson fs)).map Prod.fst = fs.map Prod.fst := by
  induction fs with
  | nil => rfl
  | cons f fs ih => rw [fieldsToJson, readMembers, List.map_cons, List.map_cons, ih]

theorem mem_map_fst_of_lookup {k : String} {ms : List (String × ReadMember)} {m : ReadMember}
    (h : ms.lookup k = some m) : k ∈ ms.map Prod.fst := by
  induction ms with
  | nil => cases h
  | cons n ms ih =>
    rw [List.map_cons, List.mem_cons]
    rw [List.lookup_cons] at h
    split at h
    · next hk => exact .inl (eq_of_beq hk)
    · exact .inr (ih h)

/-- Members with other keys are no conditional. -/
theorem areConditionalKeys_of_conditionalOfMembers? {ms : List (String × ReadMember)}
    {e : Conditional} (h : conditionalOfMembers? ms = some e) :
    AreConditionalKeys (ms.map Prod.fst) := by
  simp only [conditionalOfMembers?, Option.bind_eq_bind, Option.bind_eq_some_iff] at h
  obtain ⟨_, hguard, l, hl, c, hc, r, hr, t, ht, f, hf, _⟩ := h
  refine ⟨?_, ?_⟩
  · rw [guard] at hguard
    split at hguard
    · next hall =>
      simp only [Bool.and_eq_true, List.all_eq_true, List.contains_iff_mem] at hall
      intro k hk
      obtain ⟨m, hm, rfl⟩ := List.mem_map.1 hk
      exact hall.1 m hm
    · cases hguard
  · simp only [List.forall_mem_cons]
    exact ⟨mem_map_fst_of_lookup hl, mem_map_fst_of_lookup hc, mem_map_fst_of_lookup hr,
      mem_map_fst_of_lookup ht, mem_map_fst_of_lookup hf, fun _ h => absurd h List.not_mem_nil⟩

mutual

/-- **A value is read from its tree.** -/
theorem Value.ofJson?_toJson : ∀ {v : Value}, v.UniqueKeys → v.IsDistinct →
    Value.ofJson? v.toJson = some v
  | .int _, _, _ => rfl
  | .str _, _, _ => rfl
  | .list items, hkeys, hdistinct => by
    rw [Value.toJson, Value.ofJson?, allValues?_itemsToJson hkeys hdistinct]
  | .conditional ⟨l, c, r, t, f, a, s⟩, hkeys, hdistinct => by
    have hparts := conditionalOfMembers?_parts ⟨l, c, r, t, f, a, s⟩
      (Value.ofJson?_toJson hkeys.1 hdistinct.1) (Value.ofJson?_toJson hkeys.2 hdistinct.2)
    rw [Value.toJson, Value.ofJson?, hparts]
  | .record ⟨fields⟩, hkeys, hdistinct => by
    have hnone : conditionalOfMembers? (readMembers (fieldsToJson fields)) = none := by
      refine Option.eq_none_iff_forall_ne_some.2 fun e he => hdistinct.1 ?_
      rw [← map_fst_readMembers]
      exact areConditionalKeys_of_conditionalOfMembers? he
    rw [Value.toJson, Value.ofJson?, hnone, allFields?_fieldsToJson hkeys.2 hdistinct.2]
    exact congrArg (some ∘ Value.record) (Record.ofFields_eq hkeys.1)

theorem allValues?_itemsToJson : ∀ {vs : List Value}, UniqueKeysItems vs → AreDistinctItems vs →
    allValues? (readItems (itemsToJson vs)) = some vs
  | [], _, _ => rfl
  | v :: vs, hkeys, hdistinct => by
    rw [itemsToJson, readItems, allValues?, Value.ofJson?_toJson hkeys.1 hdistinct.1,
      allValues?_itemsToJson hkeys.2 hdistinct.2]
    rfl

theorem allFields?_fieldsToJson : ∀ {fs : List (String × Value)}, UniqueKeysFields fs →
    AreDistinctFields fs → allFields? (readMembers (fieldsToJson fs)) = some fs
  | [], _, _ => rfl
  | (k, v) :: fs, hkeys, hdistinct => by
    rw [fieldsToJson, readMembers, allFields?, Value.ofJson?_toJson hkeys.1 hdistinct.1,
      allFields?_fieldsToJson hkeys.2 hdistinct.2]
    rfl

end

/-! ## The document of a record -/

/-- **A record is read back from its document**, with the order of its keys, its integers and
strings, and each conditional as one: if the keys of a record differ, its integers have 64 bits, no
record inside it has the keys of a conditional, and it is not nested too deep. -/
theorem Record.parse?_document {r : Record} (hkeys : r.UniqueKeys) (hints : r.AreInt64)
    (hdistinct : r.AreDistinct) (hdepth : r.depth ≤ 127) : Record.parse? r.document = some r := by
  obtain ⟨fields⟩ := r
  have htree : Json.parse? (Record.mk fields).document = some (.obj (fieldsToJson fields)) := by
    refine Json.parse?_pretty (Value.AreInt64.toJson (v := .record ⟨fields⟩) hints) ?_
    exact (Value.depth_toJson (.record ⟨fields⟩)).symm ▸ hdepth
  rw [Record.parse?, htree, Option.bind_some, Record.ofJson?,
    allFields?_fieldsToJson hkeys.2 hdistinct]
  exact congrArg some (Record.ofFields_eq hkeys.1)

namespace Record

/-- A record with a conditional, a record with some of the keys of one, empty containers, and
characters that are escaped. -/
def sampleNested : Record :=
  ⟨[("say \"hi\"\n", .list [.int (-9223372036854775808), .list [], .str "\x01 \\ é"]),
    ("choice", .conditional ⟨"GEN_LATEST", .ge, "GEN_6", .list [.int 1],
      .record ⟨[("b", .int 2), ("a", .record ⟨[]⟩)]⟩, 9223372036854775807, 0⟩),
    ("part", .record ⟨[("param1", .str "GEN_LATEST"), ("condition", .str ">=")]⟩)]⟩

theorem parse?_document_sampleNested :
    sampleNested.UniqueKeys ∧ sampleNested.AreInt64 ∧ sampleNested.AreDistinct ∧
      sampleNested.depth ≤ 127 ∧ Record.parse? sampleNested.document = some sampleNested := by
  have hkeys : sampleNested.UniqueKeys := by
    simp [sampleNested, Record.UniqueKeys, Value.UniqueKeys, UniqueKeysItems, UniqueKeysFields]
  have hints : sampleNested.AreInt64 := by
    simp [sampleNested, Record.AreInt64, Value.AreInt64, AreInt64Items, AreInt64Fields, IsInt64]
  have hdistinct : sampleNested.AreDistinct :=
    ⟨⟨trivial, ⟨trivial, trivial, trivial⟩⟩,
      ⟨⟨trivial, trivial⟩, by decide, trivial, ⟨by decide, trivial⟩, trivial⟩,
      ⟨by decide, trivial, trivial, trivial⟩, trivial⟩
  have hdepth : sampleNested.depth ≤ 127 := by decide
  exact ⟨hkeys, hints, hdistinct, hdepth, parse?_document hkeys hints hdistinct hdepth⟩

end Record

end TableSync
