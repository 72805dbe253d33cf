import Mathlib.Data.List.Nodup
import Mathlib.Data.List.Perm.Basic
import Mathlib.Data.Option.Basic
import Mathlib.Data.Prod.Basic
import TableSync.Proofs.Data.Record

/-!
# Fields selected by their keys

A list of keys parts the fields of a record in those under its keys, in the order of the list, and
the others, as they stand in the record.  The fields of species are put in the order of a table in
this way, and what the table does not name follows.

* `Record.selected` and `Record.others` are the two parts, and `Record.selected_append_others_perm`
  says that nothing is lost and nothing doubled, if no key occurs twice.  Where keys differ, lists
  of fields are permutations of each other if they have the same fields.
* `eq_of_perm_of_keys` says that the order of the keys then is the order of the fields.
* `findField_perm` and `Record.selected_congr` say that selecting does not depend on the order in
  which the fields stood before.
* `Record.moveFields` comes to the same by moving fields from one record to another one, which is
  how the program goes about it: `Record.moveField_selected` is one step of it, and
  `Record.moveFields_eq` all of them.  The invariant of the steps is that the fields moved so far
  are those under the keys that have been met, and the fields left are the others.
-/

set_option autoImplicit false

namespace TableSync

/-! ## Fields under keys that differ -/

section UniqueKeys

variable {key : String} {v : Value} {fs gs : List (String × Value)}

/-- A field is found under its key. -/
theorem findField_eq_some_iff (h : (fs.map Prod.fst).Nodup) :
    findField key fs = some v ↔ (key, v) ∈ fs := by
  refine ⟨mem_of_findField, fun hmem => ?_⟩
  induction fs with
  | nil => exact absurd hmem List.not_mem_nil
  | cons f fs ih =>
    obtain ⟨k, w⟩ := f
    rw [List.map_cons, List.nodup_cons] at h
    rw [findField]
    rcases List.mem_cons.1 hmem with heq | hmem
    · rw [Prod.mk.injEq] at heq
      rw [if_pos heq.1.symm, heq.2]
    · have hk : k ≠ key := by
        rintro rfl
        have hkeys : k ∈ fs.map Prod.fst := List.mem_map_of_mem hmem
        exact h.1 hkeys
      rw [if_neg hk, ih h.2 hmem]

/-- What is found does not depend on the order of the fields. -/
theorem findField_perm (hperm : fs.Perm gs) (h : (fs.map Prod.fst).Nodup) (key : String) :
    findField key fs = findField key gs := by
  have hgs : (gs.map Prod.fst).Nodup := (hperm.map Prod.fst).nodup_iff.1 h
  refine Option.ext fun v => ?_
  rw [findField_eq_some_iff h, findField_eq_some_iff hgs, hperm.mem_iff]

/-- Fields that are the same but for their order stand in the order of their keys. -/
theorem eq_of_perm_of_keys (hperm : fs.Perm gs) (h : (fs.map Prod.fst).Nodup)
    (hkeys : fs.map Prod.fst = gs.map Prod.fst) : fs = gs := by
  -- each field is its key with what is found under it
  have hfound : ∀ hs : List (String × Value), hs.Perm fs →
      hs.map (Prod.map id some) = (hs.map Prod.fst).map fun k => (k, findField k fs) := by
    intro hs hhs
    rw [List.map_map]
    refine List.map_congr_left fun f hf => ?_
    have hmem := (findField_eq_some_iff h).2 (hhs.mem_iff.1 hf)
    rw [Function.comp_apply, hmem]
    rfl
  have hinj : Function.Injective (List.map (Prod.map id some : String × Value → String × Option Value)) :=
    List.map_injective_iff.2
      (Function.Injective.prodMap Function.injective_id (Option.some_injective _))
  refine hinj ?_
  rw [hfound fs (List.Perm.refl fs), hfound gs hperm.symm, hkeys]

/-- Dropping a field keeps the fields under other keys. -/
theorem removeField_eq_filter (h : (fs.map Prod.fst).Nodup) (key : String) :
    removeField key fs = fs.filter fun f => f.1 ≠ key := by
  induction fs with
  | nil => rfl
  | cons f fs ih =>
    obtain ⟨k, w⟩ := f
    rw [List.map_cons, List.nodup_cons] at h
    rw [removeField]
    by_cases hk : k = key
    · have hrest : fs.filter (fun f => f.1 ≠ key) = fs := by
        refine List.filter_eq_self.2 fun f hf => ?_
        have hmem : f.1 ∈ fs.map Prod.fst := List.mem_map_of_mem hf
        have hne : f.1 ≠ key := fun heq => h.1 (by rwa [hk, ← heq])
        simpa using hne
      rw [if_pos hk, List.filter_cons_of_neg (by simpa using hk), hrest]
    · rw [if_neg hk, List.filter_cons_of_pos (by simpa using hk), ih h.2]

end UniqueKeys

/-! ## Looking up selected fields -/

/-- Fields that are looked up in turn are found if they are among those looked for. -/
theorem findField_filterMap (key : String) (keys : List String) (fields : List (String × Value)) :
    findField key (keys.filterMap fun k => (findField k fields).map fun v => (k, v)) =
      if key ∈ keys then findField key fields else none := by
  induction keys with
  | nil => rfl
  | cons k keys ih =>
    by_cases hkey : k = key
    · obtain rfl := hkey
      rw [if_pos List.mem_cons_self]
      cases hfind : findField k fields with
      | none =>
        rw [List.filterMap_cons_none (by rw [hfind]; rfl), ih, hfind, ite_self]
      | some v =>
        rw [List.filterMap_cons_some (by rw [hfind]; rfl), findField, if_pos rfl]
    · have hmem : key ∈ k :: keys ↔ key ∈ keys := by simp [Ne.symm hkey]
      simp only [hmem, ← ih]
      cases hfind : findField k fields with
      | none => rw [List.filterMap_cons_none (by rw [hfind]; rfl)]
      | some v => rw [List.filterMap_cons_some (by rw [hfind]; rfl), findField, if_neg hkey]

theorem findField_filter (key : String) (keys : List String) (fields : List (String × Value)) :
    findField key (fields.filter fun f => !keys.contains f.1) =
      if key ∈ keys then none else findField key fields := by
  induction fields with
  | nil => simp [findField]
  | cons f fields ih =>
    obtain ⟨k, v⟩ := f
    by_cases hkeep : k ∈ keys
    · rw [List.filter_cons_of_neg (by simpa using hkeep), ih, findField]
      by_cases hkey : k = key
      · rw [if_pos (hkey ▸ hkeep), if_pos (hkey ▸ hkeep)]
      · rw [if_neg hkey]
    · rw [List.filter_cons_of_pos (by simpa using hkeep), findField, findField, ih]
      by_cases hkey : k = key
      · rw [if_pos hkey, if_pos hkey, if_neg (hkey ▸ hkeep)]
      · rw [if_neg hkey, if_neg hkey]

namespace Record

/-- The fields under some keys, in the order of the keys. -/
def selected (keys : List String) (r : Record) : List (String × Value) :=
  keys.filterMap fun key => (r.get? key).map fun v => (key, v)

/-- The fields under other keys, in the order of the record. -/
def others (keys : List String) (r : Record) : List (String × Value) :=
  r.fields.filter fun f => !keys.contains f.1

variable {r s : Record} {keys : List String} {key : String}

theorem mem_selected {f : String × Value} :
    f ∈ r.selected keys ↔ f.1 ∈ keys ∧ r.get? f.1 = some f.2 := by
  rw [selected, List.mem_filterMap]
  constructor
  · rintro ⟨k, hk, hf⟩
    obtain ⟨v, hv, rfl⟩ := Option.map_eq_some_iff.1 hf
    exact ⟨hk, hv⟩
  · rintro ⟨hk, hv⟩
    exact ⟨f.1, hk, by rw [hv]; rfl⟩

/-- The keys of selected fields are the given ones that are there. -/
theorem map_fst_selected (keys : List String) (r : Record) :
    (r.selected keys).map Prod.fst = keys.filter fun key => key ∈ r.keys := by
  induction keys with
  | nil => rfl
  | cons k keys ih =>
    rw [selected, List.filterMap_cons, ← selected]
    cases hk : r.get? k with
    | none => rw [List.filter_cons_of_neg (by simpa using get?_eq_none_iff.1 hk)]; exact ih
    | some v =>
      have hmem : k ∈ r.keys := List.mem_map_of_mem (f := Prod.fst) (mem_of_findField hk)
      rw [List.filter_cons_of_pos (by simpa using hmem), ← ih]
      rfl

theorem map_fst_others (keys : List String) (r : Record) :
    (r.others keys).map Prod.fst = r.keys.filter fun key => key ∉ keys := by
  rw [others, Record.keys, List.filter_map]
  refine congrArg (List.map Prod.fst) (List.filter_congr fun f _ => ?_)
  simp

/-- Selecting looks at nothing but what is found under the keys. -/
theorem selected_congr (h : ∀ key ∈ keys, r.get? key = s.get? key) :
    r.selected keys = s.selected keys :=
  List.filterMap_congr fun key hkey => by rw [h key hkey]

/-- **Nothing is lost and nothing doubled** when the fields are parted. -/
theorem selected_append_others_perm (hkeys : keys.Nodup) (h : r.keys.Nodup) :
    (r.selected keys ++ r.others keys).Perm r.fields := by
  have hselected : (r.selected keys).Perm (r.fields.filter fun f => keys.contains f.1) := by
    refine (List.perm_ext_iff_of_nodup ?_ ?_).2 fun f => ?_
    · refine List.Nodup.of_map Prod.fst ?_
      rw [map_fst_selected]
      exact hkeys.filter _
    · exact (List.Nodup.of_map Prod.fst h).filter _
    · rw [mem_selected, List.mem_filter, List.contains_iff_mem, and_comm]
      exact and_congr_left fun _ => findField_eq_some_iff h
  exact (hselected.append_right _).trans
    (List.filter_append_perm (fun f : String × Value => keys.contains f.1) r.fields)

/-! ## Moving fields

The program takes every field out of one record and sets it in another one.  Its result is described
by `Record.selected` and `Record.others`, which say at once what is in it and in which order. -/

/-- A field is taken out of the first record and set in the second one, if it is there. -/
def moveField (r : Record × Record) (key : String) : Record × Record :=
  match r.1.get? key with
  | some v => (r.1.remove key, r.2.insert key v)
  | none => r

/-- The fields under some keys are moved to an empty record key by key, and the fields that are left
are set in it after them. -/
def moveFields (keys : List String) (r : Record) : Record :=
  let moved := keys.foldl moveField (r, .empty)
  moved.2.insertAll moved.1.fields

/-- **One more key**: if it is there, its field goes from the others to the end of the selected
ones. -/
theorem moveField_selected (h : r.keys.Nodup) (hkey : key ∉ keys) :
    moveField (⟨r.others keys⟩, ⟨r.selected keys⟩) key =
      (⟨r.others (keys ++ [key])⟩, ⟨r.selected (keys ++ [key])⟩) := by
  have hget : (⟨r.others keys⟩ : Record).get? key = r.get? key := by
    show findField key (r.fields.filter fun f => !keys.contains f.1) = findField key r.fields
    rw [findField_filter, if_neg hkey]
  have hselected : r.selected (keys ++ [key]) =
      r.selected keys ++ ((r.get? key).map fun v => (key, v)).toList := by
    rw [selected, List.filterMap_append, ← selected]
    cases hr : r.get? key <;> simp [hr]
  have hothers : r.others (keys ++ [key]) = (r.others keys).filter fun f => f.1 ≠ key := by
    rw [others, others, List.filter_filter]
    refine List.filter_congr fun f _ => ?_
    by_cases hf : f.1 = key <;> simp [hf]
  rw [moveField, hget]
  cases hr : r.get? key with
  | none =>
    rw [hselected, hothers, hr]
    have hself : (r.others keys).filter (fun f => f.1 ≠ key) = r.others keys := by
      refine List.filter_eq_self.2 fun f hf => ?_
      have hne : f.1 ≠ key := fun heq => get?_eq_none_iff.1 hr
        (heq ▸ List.mem_map_of_mem (f := Prod.fst) (List.mem_of_mem_filter hf))
      simpa using hne
    rw [hself]
    simp
  | some v =>
    have hnodup : ((r.others keys).map Prod.fst).Nodup := by
      rw [map_fst_others]
      exact h.filter _
    have hnew : key ∉ (r.selected keys).map Prod.fst := by
      rw [map_fst_selected]
      exact fun hmem => hkey (List.mem_of_mem_filter hmem)
    refine Prod.ext (congrArg Record.mk ?_) (congrArg Record.mk ?_)
    · rw [hothers]
      exact removeField_eq_filter hnodup key
    · rw [hselected, hr]
      exact insertField_eq_append hnew

/-- **Moving fields key by key parts them.** -/
theorem moveFields_eq (hkeys : keys.Nodup) (h : r.keys.Nodup) :
    r.moveFields keys = ⟨r.selected keys ++ r.others keys⟩ := by
  have hrun : ∀ done rest : List String, (done ++ rest).Nodup →
      rest.foldl moveField (⟨r.others done⟩, ⟨r.selected done⟩) =
        (⟨r.others (done ++ rest)⟩, ⟨r.selected (done ++ rest)⟩) := by
    intro done rest hnodup
    induction rest generalizing done with
    | nil => rw [List.append_nil]; rfl
    | cons key rest ih =>
      have hkey : key ∉ done := fun hmem =>
        (List.nodup_append.1 hnodup).2.2 key hmem key List.mem_cons_self rfl
      have hnext := ih (done ++ [key]) (by simpa using hnodup)
      rw [List.foldl_cons, moveField_selected h hkey, hnext, List.append_assoc]
      rfl
  have hstart : (⟨r.others []⟩ : Record) = r := by
    rw [others]
    obtain ⟨fields⟩ := r
    simp
  have hall := hrun [] keys hkeys
  rw [hstart] at hall
  have hunion : ((⟨r.selected keys⟩ : Record).keys ++ (r.others keys).map Prod.fst).Nodup := by
    have hperm := (selected_append_others_perm hkeys h).map Prod.fst
    rw [List.map_append] at hperm
    exact hperm.nodup_iff.2 h
  rw [moveFields]
  have hmoved : keys.foldl moveField (r, empty) = (⟨r.others keys⟩, ⟨r.selected keys⟩) := hall
  rw [hmoved]
  exact insertAll_eq_append _ hunion

end Record

end TableSync
