import Mathlib.Data.List.Induction
import TableSync.Proofs.Data.Record

/-!
# Records collected from lists

A record that is collected from named values has a key where it is named first, and under it the
value that is named last.  The readers collect the tables of a header in this way, so what is shown
here is the part of their theorems that is the same for all of them.

* `getLast?_filter_concat` and `eraseDups_concat` are about one more element at the end of a list.
  The lists are read from the front, but a record is changed at its end, so the inductions are on
  the lists from the back.
* `eraseDups_sublist`, `nodup_eraseDups` and `length_eraseDups_eq_iff` are about the first
  occurrences in a list, which are what is left of its elements when each is kept once.
* `Record.keys_ofFields` says which keys the record has, and in which order.
* `Record.get?_ofFields` says which value stands under a key, for values that are computed from the
  elements of a list, as they are where a header is read.

`Record.ofFields` inserts one value after the other, and inserting a value under a key that is there
changes it in its place; from that both statements follow.
-/

set_option autoImplicit false

namespace TableSync

/-- The last element with a property, with one more element behind. -/
theorem getLast?_filter_concat {α : Type} (p : α → Bool) (xs : List α) (x : α) :
    ((xs ++ [x]).filter p).getLast? = if p x = true then some x else (xs.filter p).getLast? := by
  rw [List.filter_append]
  by_cases hp : p x = true
  · rw [List.filter_cons_of_pos hp, List.filter_nil, List.getLast?_concat, if_pos hp]
  · rw [List.filter_cons_of_neg hp, List.filter_nil, List.append_nil, if_neg hp]

/-! ## First occurrences -/

section EraseDups

variable {α : Type} [BEq α] [LawfulBEq α]

/-- One more element is a first occurrence if it has not occurred. -/
theorem eraseDups_concat (xs : List α) (x : α) :
    (xs ++ [x]).eraseDups = if x ∈ xs then xs.eraseDups else xs.eraseDups ++ [x] := by
  rw [List.eraseDups_append]
  by_cases h : x ∈ xs
  · simp [List.removeAll, h]
  · simp [List.removeAll, h, List.eraseDups_cons]

theorem eraseDups_sublist (xs : List α) : xs.eraseDups.Sublist xs := by
  induction xs using List.reverseRecOn with
  | nil => exact List.Sublist.refl []
  | append_singleton xs x ih =>
    rw [eraseDups_concat]
    split
    · exact ih.trans (List.sublist_append_left xs [x])
    · exact ih.append_right [x]

theorem nodup_eraseDups (xs : List α) : xs.eraseDups.Nodup := by
  induction xs using List.reverseRecOn with
  | nil => exact List.nodup_nil
  | append_singleton xs x ih =>
    rw [eraseDups_concat]
    split
    · exact ih
    · next hx =>
      refine List.nodup_append.2 ⟨ih, by simp, ?_⟩
      rintro y hy z hz rfl
      exact hx (List.mem_singleton.1 hz ▸ List.mem_eraseDups.1 hy)

/-- The first occurrences are fewer, unless nothing occurs twice. -/
theorem length_eraseDups_eq_iff {xs : List α} : xs.eraseDups.length = xs.length ↔ xs.Nodup := by
  refine ⟨fun h => ?_, fun h => ?_⟩
  · rw [← (eraseDups_sublist xs).eq_of_length h]
    exact nodup_eraseDups xs
  · induction xs using List.reverseRecOn with
    | nil => rfl
    | append_singleton xs x ih =>
      obtain ⟨hxs, -, hx⟩ := List.nodup_append.1 h
      have hnot : x ∉ xs := fun hmem => hx x hmem x List.mem_cons_self rfl
      rw [eraseDups_concat, if_neg hnot, List.length_append, List.length_append, ih hxs]

theorem eraseDups_eq_self {xs : List α} (h : xs.Nodup) : xs.eraseDups = xs :=
  (eraseDups_sublist xs).eq_of_length (length_eraseDups_eq_iff.2 h)

end EraseDups

/-! ## Collecting -/

namespace Record

theorem ofFields_concat (fields : List (String × Value)) (key : String) (v : Value) :
    ofFields (fields ++ [(key, v)]) = (ofFields fields).insert key v := by
  rw [ofFields, insertAll, List.foldl_append]
  rfl

/-- Every key stands where it is named first. -/
theorem keys_ofFields (fields : List (String × Value)) :
    (ofFields fields).keys = (fields.map Prod.fst).eraseDups := by
  induction fields using List.reverseRecOn with
  | nil => rfl
  | append_singleton fields f ih =>
    obtain ⟨key, v⟩ := f
    rw [ofFields_concat, keys_insert, ih, List.map_append, List.map_cons, List.map_nil,
      eraseDups_concat, withKey]
    simp only [List.mem_eraseDups]

/-- Under every key stands the value that is named last. -/
theorem get?_ofFields {α : Type} (key : α → String) (value : α → Value) (xs : List α)
    (name : String) :
    (ofFields (xs.map fun x => (key x, value x))).get? name =
      (xs.filter fun x => key x = name).getLast?.map value := by
  induction xs using List.reverseRecOn with
  | nil => rfl
  | append_singleton xs x ih =>
    rw [List.map_append, List.map_cons, List.map_nil, ofFields_concat, getLast?_filter_concat]
    by_cases hname : key x = name
    · rw [if_pos (decide_eq_true hname), hname, get?_insert_self, Option.map_some]
    · rw [if_neg (by simpa using hname), get?_insert_of_ne hname, ih]

end Record

end TableSync
