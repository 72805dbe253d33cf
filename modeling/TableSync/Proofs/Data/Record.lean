import TableSync.Data.Record

/-!
# Records as maps

What the operations of a record do to its fields and to each other.  A record is a list of fields,
in the order in which their keys have come to be there; the operations look for the first field with
a key and change it in its place, or put a new one at the end.  The lemmas come in that order, first
for lists of fields, then for records.

* `get?_insert_self`, `get?_insert_of_ne`, `insert_insert` and `insert_eq_self` for one field: what
  has been put is found, other keys are not touched, and of two values the second one stays.
* `insert_append` says where in the list of fields a value is put.
* `keys_insert` and `keys_remove` say what becomes of the keys, by `withKey`, which puts a key at
  the end of others unless it is among them.
* `ofFields_eq` says that fields under keys that differ are collected as they stand.
* `insertAll_induction` carries what every field has through the collection of a record.

Keys differ in every record that comes from the empty one, but the lemmas that do not need it do not
ask for it.
-/

set_option autoImplicit false

namespace TableSync

/-! ## Lists of fields

Each operation is a recursion over the fields, and each lemma an induction on them.  Further on only
these lemmas are used, and no definition is unfolded. -/

theorem findField_eq_none_iff {key : String} {fs : List (String × Value)} :
    findField key fs = none ↔ key ∉ fs.map Prod.fst := by
  induction fs with
  | nil => simp [findField]
  | cons f fs ih =>
    obtain ⟨k, v⟩ := f
    by_cases h : k = key
    · simp [findField, h]
    · simp [findField, h, Ne.symm h, ih]

theorem mem_of_findField {key : String} {v : Value} {fs : List (String × Value)}
    (h : findField key fs = some v) : (key, v) ∈ fs := by
  induction fs with
  | nil => exact absurd h (by simp [findField])
  | cons f fs ih =>
    obtain ⟨k, w⟩ := f
    rw [findField] at h
    split at h
    · rename_i hk
      rw [hk, Option.some.inj h]
      exact List.mem_cons_self
    · exact List.mem_cons_of_mem _ (ih h)

/-- Among fields put together, the first ones are looked at first. -/
theorem findField_append_or (key : String) (a b : List (String × Value)) :
    findField key (a ++ b) = (findField key a).or (findField key b) := by
  induction a with
  | nil => rfl
  | cons f a ih =>
    obtain ⟨k, v⟩ := f
    rw [List.cons_append, findField, findField, ih]
    split <;> rfl

/-- A field is found after fields under other keys. -/
theorem findField_append {key : String} {a b : List (String × Value)}
    (h : key ∉ a.map Prod.fst) : findField key (a ++ b) = findField key b := by
  rw [findField_append_or, findField_eq_none_iff.2 h, Option.none_or]

/-- A value is put in place after fields under other keys. -/
theorem insertField_append {key : String} {v : Value} {a b : List (String × Value)}
    (h : key ∉ a.map Prod.fst) : insertField key v (a ++ b) = a ++ insertField key v b := by
  induction a with
  | nil => rfl
  | cons f a ih =>
    obtain ⟨k, w⟩ := f
    rw [List.map_cons, List.mem_cons, not_or] at h
    rw [List.cons_append, insertField, if_neg (Ne.symm h.1), ih h.2, List.cons_append]

theorem insertField_eq_append {key : String} {v : Value} {fs : List (String × Value)}
    (h : key ∉ fs.map Prod.fst) : insertField key v fs = fs ++ [(key, v)] := by
  have hfs := insertField_append (v := v) (b := []) h
  rw [List.append_nil] at hfs
  exact hfs

/-- The keys after an insertion: a new key is the last one. -/
theorem map_fst_insertField (key : String) (v : Value) (fs : List (String × Value)) :
    (insertField key v fs).map Prod.fst =
      if key ∈ fs.map Prod.fst then fs.map Prod.fst else fs.map Prod.fst ++ [key] := by
  induction fs with
  | nil => rfl
  | cons f fs ih =>
    obtain ⟨k, w⟩ := f
    by_cases h : k = key
    · simp [insertField, h]
    · by_cases hmem : key ∈ fs.map Prod.fst <;>
        simp only [insertField, h, if_false, List.map_cons, ih, hmem, if_true, List.mem_cons, or_true,
          Ne.symm h, or_self, List.cons_append]

theorem removeField_sublist (key : String) (fs : List (String × Value)) :
    (removeField key fs).Sublist fs := by
  induction fs with
  | nil => exact List.Sublist.refl []
  | cons f fs ih =>
    rw [removeField]
    split
    · exact List.sublist_cons_self f fs
    · exact ih.cons_cons f

/-- The keys after a field has been dropped. -/
theorem map_fst_removeField (key : String) (fs : List (String × Value)) :
    (removeField key fs).map Prod.fst = (fs.map Prod.fst).erase key := by
  induction fs with
  | nil => rfl
  | cons f fs ih =>
    rw [removeField, List.map_cons, List.erase_cons, ← ih]
    simp only [beq_iff_eq]
    split <;> rfl

namespace Record

variable {r : Record} {key k : String} {v w : Value}

/-! ## One field -/

@[simp]
theorem get?_insert_self (r : Record) (key : String) (v : Value) :
    (r.insert key v).get? key = some v := by
  obtain ⟨fs⟩ := r
  show findField key (insertField key v fs) = some v
  induction fs with
  | nil => simp [insertField, findField]
  | cons f fs ih =>
    obtain ⟨k, w⟩ := f
    by_cases h : k = key
    · simp [insertField, findField, h]
    · simp [insertField, findField, h, ih]

theorem get?_insert_of_ne (h : k ≠ key) (r : Record) (v : Value) :
    (r.insert k v).get? key = r.get? key := by
  obtain ⟨fs⟩ := r
  show findField key (insertField k v fs) = findField key fs
  induction fs with
  | nil => simp [insertField, findField, h]
  | cons f fs ih =>
    obtain ⟨l, w⟩ := f
    by_cases hl : l = k
    · simp [insertField, findField, hl, h]
    · by_cases hkey : l = key
      · subst hkey
        simp [insertField, findField, hl]
      · simp [insertField, findField, hl, hkey, ih]

/-- Of two values put under a key the second one stays. -/
@[simp]
theorem insert_insert (r : Record) (key : String) (v w : Value) :
    (r.insert key v).insert key w = r.insert key w := by
  obtain ⟨fs⟩ := r
  refine congrArg Record.mk ?_
  show insertField key w (insertField key v fs) = insertField key w fs
  induction fs with
  | nil => simp [insertField]
  | cons f fs ih =>
    obtain ⟨k, u⟩ := f
    by_cases h : k = key
    · simp [insertField, h]
    · simp [insertField, h, ih]

/-- Nothing changes when the value is put under a key that is there already. -/
theorem insert_eq_self (h : r.get? key = some v) : r.insert key v = r := by
  obtain ⟨fs⟩ := r
  refine congrArg Record.mk ?_
  have hfind : findField key fs = some v := h
  show insertField key v fs = fs
  clear h
  induction fs with
  | nil => exact absurd hfind (by simp [findField])
  | cons f fs ih =>
    obtain ⟨k, u⟩ := f
    rw [findField] at hfind
    rw [insertField]
    split
    · rename_i hk
      rw [if_pos hk] at hfind
      rw [Option.some.inj hfind]
    · rename_i hk
      rw [if_neg hk] at hfind
      rw [ih hfind]

/-- A value takes the place of the one under its key. -/
theorem insert_append {a b : List (String × Value)} (h : key ∉ a.map Prod.fst) (v w : Value) :
    (⟨a ++ (key, v) :: b⟩ : Record).insert key w = ⟨a ++ (key, w) :: b⟩ := by
  refine congrArg Record.mk ?_
  rw [insertField_append h, insertField, if_pos rfl]

theorem get?_append {a b : List (String × Value)} (h : key ∉ a.map Prod.fst) (v : Value) :
    (⟨a ++ (key, v) :: b⟩ : Record).get? key = some v := by
  show findField key (a ++ (key, v) :: b) = some v
  rw [findField_append h, findField, if_pos rfl]

theorem get?_eq_none_iff : r.get? key = none ↔ key ∉ r.keys := findField_eq_none_iff

theorem record?_insert_self (r : Record) (key : String) (inner : Record) :
    (r.insert key (.record inner)).record? key = some inner := by
  rw [record?, get?_insert_self]
  rfl

theorem record?_insert_of_ne (h : k ≠ key) (r : Record) (v : Value) :
    (r.insert k v).record? key = r.record? key := by
  rw [record?, record?, get?_insert_of_ne h]

theorem get?_remove_of_ne (h : k ≠ key) (r : Record) : (r.remove k).get? key = r.get? key := by
  obtain ⟨fs⟩ := r
  show findField key (removeField k fs) = findField key fs
  induction fs with
  | nil => rfl
  | cons f fs ih =>
    rw [removeField]
    split
    · next hk => rw [findField, if_neg fun hkey => h (hk.symm.trans hkey)]
    · rw [findField, findField, ih]

/-! ## Keys -/

/-- Keys in their order, and one more at the end if it is not there. -/
def withKey (keys : List String) (key : String) : List String :=
  if key ∈ keys then keys else keys ++ [key]

/-- The keys after an insertion: a new key is the last one. -/
theorem keys_insert (r : Record) (key : String) (v : Value) :
    (r.insert key v).keys = withKey r.keys key :=
  map_fst_insertField key v r.fields

theorem mem_keys_insert : k ∈ (r.insert key v).keys ↔ k = key ∨ k ∈ r.keys := by
  rw [keys_insert, withKey]
  split
  · next hmem => exact ⟨Or.inr, fun h => h.elim (fun heq => heq ▸ hmem) id⟩
  · rw [List.mem_append, List.mem_singleton, or_comm]

theorem keys_remove (r : Record) (key : String) : (r.remove key).keys = r.keys.erase key :=
  map_fst_removeField key r.fields

/-! ## Collecting fields -/

/-- Fields under keys that differ are put at the end in turn. -/
theorem insertAll_eq_append {fields : List (String × Value)} (r : Record)
    (h : (r.keys ++ fields.map Prod.fst).Nodup) : r.insertAll fields = ⟨r.fields ++ fields⟩ := by
  induction fields generalizing r with
  | nil =>
    obtain ⟨fs⟩ := r
    rw [List.append_nil]
    rfl
  | cons f fields ih =>
    obtain ⟨k, v⟩ := f
    rw [List.map_cons] at h
    have hk : k ∉ r.fields.map Prod.fst := by
      intro hmem
      exact (List.nodup_append.1 h).2.2 k hmem k List.mem_cons_self rfl
    have hinsert : r.insert k v = ⟨r.fields ++ [(k, v)]⟩ :=
      congrArg Record.mk (insertField_eq_append hk)
    have hrest := ih (⟨r.fields ++ [(k, v)]⟩ : Record) (by
      simpa [Record.keys, List.append_assoc] using h)
    show (r.insert k v).insertAll fields = _
    rw [hinsert, hrest, List.append_assoc]
    rfl

/-- Fields under keys that differ are collected as they stand. -/
theorem ofFields_eq {fields : List (String × Value)} (h : (fields.map Prod.fst).Nodup) :
    ofFields fields = ⟨fields⟩ :=
  insertAll_eq_append empty h

theorem keys_insert_nodup (h : r.keys.Nodup) (key : String) (v : Value) :
    (r.insert key v).keys.Nodup := by
  rw [keys_insert, withKey]
  split
  · exact h
  · rename_i hmem
    refine List.nodup_append.2 ⟨h, by simp, ?_⟩
    rintro a ha b hb rfl
    rw [List.mem_singleton.1 hb] at ha
    exact hmem ha

/-- A field of a record after an insertion is the new one or was there before. -/
theorem mem_insert {f : String × Value} (h : f ∈ (r.insert key v).fields) :
    f = (key, v) ∨ f ∈ r.fields := by
  obtain ⟨fs⟩ := r
  have hmem : f ∈ insertField key v fs := h
  show f = (key, v) ∨ f ∈ fs
  clear h
  induction fs with
  | nil => exact .inl (List.mem_singleton.1 hmem)
  | cons g fs ih =>
    obtain ⟨l, u⟩ := g
    rw [insertField] at hmem
    split at hmem
    · rename_i hl
      rcases List.mem_cons.1 hmem with hf | hf
      · exact .inl (by rw [hf, hl])
      · exact .inr (List.mem_cons_of_mem _ hf)
    · rcases List.mem_cons.1 hmem with hf | hf
      · exact .inr (hf ▸ List.mem_cons_self)
      · rcases ih hf with hf | hf
        · exact .inl hf
        · exact .inr (List.mem_cons_of_mem _ hf)

/-- Keys that differ and what every field has are kept while fields are collected. -/
theorem insertAll_induction {p : String × Value → Prop} {fields : List (String × Value)}
    (r : Record) (hkeys : r.keys.Nodup) (hr : ∀ f ∈ r.fields, p f) (h : ∀ f ∈ fields, p f) :
    (r.insertAll fields).keys.Nodup ∧ ∀ f ∈ (r.insertAll fields).fields, p f := by
  induction fields generalizing r with
  | nil => exact ⟨hkeys, hr⟩
  | cons f fields ih =>
    obtain ⟨k, v⟩ := f
    refine ih (r.insert k v) (keys_insert_nodup hkeys k v) ?_
      fun g hg => h g (List.mem_cons_of_mem _ hg)
    intro g hg
    rcases mem_insert hg with rfl | hg
    · exact h _ List.mem_cons_self
    · exact hr g hg

end Record

end TableSync
