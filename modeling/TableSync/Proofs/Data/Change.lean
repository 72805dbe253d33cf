import TableSync.Proofs.Data.Record

/-!
# Changes of a record

The values under the keys of a record are put there and dropped in turn.  The record shows of these
changes what a map in the order of its keys would show: the value that was put last under a key, and
the keys in the order in which they came to be there.  A key that is put again stays where it is,
and one that is dropped and put again stands last.

* `Record.IsLatest` and `Record.IsSince` read values and order off a history of changes.  Neither of
  them mentions a record, so they are a specification that the list of fields is measured against.
* `isLatest_concat` and `isSince_concat` say what one more change at the end of a history makes of
  them; the histories are taken apart by `cases_of_concat_eq`.
* `Record.Shows` relates a record to a history.  The order is said of two keys at a time: the one
  that has been there for longer stands first.
* `Record.Shows.put` and `Record.Shows.drop` are the two changes, `Record.Shows.apply` is one of
  them, and `Record.Shows.foldl` is any number of them, by induction on the changes.
-/

set_option autoImplicit false

namespace TableSync

/-- An element of a list with one more behind it is that one, or stands before it. -/
theorem cases_of_concat_eq {α : Type} {xs before after : List α} {x y : α}
    (h : xs ++ [x] = before ++ y :: after) :
    (xs = before ∧ x = y ∧ after = []) ∨ ∃ rest, xs = before ++ y :: rest ∧ after = rest ++ [x] := by
  rcases List.eq_nil_or_concat after with rfl | ⟨rest, z, rfl⟩
  · obtain ⟨hxs, hx⟩ := List.append_inj' h rfl
    exact .inl ⟨hxs, (List.cons.inj hx).1, rfl⟩
  · rw [List.concat_eq_append, ← List.cons_append, ← List.append_assoc] at h
    obtain ⟨hxs, hx⟩ := List.append_inj' h rfl
    rw [List.concat_eq_append, (List.cons.inj hx).1]
    exact .inr ⟨rest, hxs, rfl⟩

namespace Record

/-! ## Changes -/

/-- What happens to one key of a record. -/
inductive Change
  | put (key : String) (v : Value)
  | drop (key : String)
  deriving DecidableEq

/-- The key that a change is about. -/
def Change.key : Change → String
  | .put key _ => key
  | .drop key => key

/-- A record after a change. -/
def apply (r : Record) : Change → Record
  | .put key v => r.insert key v
  | .drop key => r.remove key

/-- The last change of the key has put the value there. -/
def IsLatest (history : List Change) (key : String) (v : Value) : Prop :=
  ∃ before after, history = before ++ .put key v :: after ∧ ∀ c ∈ after, c.key ≠ key

/-- The key has been there since the change at a position: there was nothing under it before, and it
has not been dropped after that. -/
def IsSince (history : List Change) (key : String) (n : Nat) : Prop :=
  ∃ before v after, history = before ++ .put key v :: after ∧ before.length = n ∧
    (∀ w, ¬ IsLatest before key w) ∧ .drop key ∉ after

variable {r : Record} {history : List Change} {c : Change} {key k : String} {v : Value} {n : Nat}

/-! ## One more change in a history

Both lemmas are equivalences: a change of another key passes the question on to what came before,
and a change of the same key answers it. -/

theorem isLatest_concat :
    IsLatest (history ++ [c]) key v ↔ c = .put key v ∨ c.key ≠ key ∧ IsLatest history key v := by
  constructor
  · rintro ⟨before, after, h, hafter⟩
    rcases cases_of_concat_eq h with ⟨-, hc, -⟩ | ⟨after, rfl, rfl⟩
    · exact .inl hc
    · rw [List.forall_mem_append] at hafter
      exact .inr ⟨hafter.2 c List.mem_cons_self, before, after, rfl, hafter.1⟩
  · rintro (rfl | ⟨hkey, before, after, rfl, hafter⟩)
    · exact ⟨history, [], rfl, fun _ h => absurd h List.not_mem_nil⟩
    · refine ⟨before, after ++ [c], by simp, List.forall_mem_append.2 ⟨hafter, ?_⟩⟩
      exact List.forall_mem_singleton.2 hkey

theorem isSince_concat :
    IsSince (history ++ [c]) key n ↔
      c ≠ .drop key ∧ IsSince history key n ∨
        n = history.length ∧ (∃ v, c = .put key v) ∧ ∀ w, ¬ IsLatest history key w := by
  constructor
  · rintro ⟨before, v, after, h, hn, hbefore, hafter⟩
    rcases cases_of_concat_eq h with ⟨rfl, hc, -⟩ | ⟨after, rfl, rfl⟩
    · exact .inr ⟨hn.symm, ⟨v, hc⟩, hbefore⟩
    · rw [List.mem_append, List.mem_singleton, not_or] at hafter
      exact .inl ⟨Ne.symm hafter.2, before, v, after, rfl, hn, hbefore, hafter.1⟩
  · rintro (⟨hdrop, before, v, after, rfl, hn, hbefore, hafter⟩ | ⟨rfl, ⟨v, rfl⟩, hbefore⟩)
    · refine ⟨before, v, after ++ [c], by simp, hn, hbefore, ?_⟩
      rw [List.mem_append, List.mem_singleton, not_or]
      exact ⟨hafter, Ne.symm hdrop⟩
    · exact ⟨history, v, [], rfl, rfl, hbefore, List.not_mem_nil⟩

theorem IsSince.lt (h : IsSince history key n) : n < history.length := by
  obtain ⟨before, v, after, rfl, rfl, -⟩ := h
  simp

/-! ## What a record shows of its history -/

/-- A record holds the latest values of the keys that have not been dropped since, and the key that
has been there for longer stands first. -/
structure Shows (r : Record) (history : List Change) : Prop where
  /-- No key stands there twice. -/
  nodup : r.keys.Nodup
  /-- Under a key stands the value that was put there last. -/
  value : ∀ key v, r.get? key = some v ↔ IsLatest history key v
  /-- A key is there if it has been there since some change. -/
  present : ∀ key, key ∈ r.keys ↔ ∃ n, IsSince history key n
  /-- Of two keys the one that has been there for longer stands first. -/
  order : ∀ j k m n, IsSince history j m → IsSince history k n → m < n → [j, k].Sublist r.keys

namespace Shows

theorem empty : Record.empty.Shows [] where
  nodup := List.nodup_nil
  value _ _ := by
    refine ⟨fun h => (Option.some_ne_none _ h.symm).elim, ?_⟩
    rintro ⟨before, after, h, -⟩
    simp at h
  present _ := by
    refine ⟨fun h => absurd h List.not_mem_nil, ?_⟩
    rintro ⟨n, hn⟩
    exact absurd hn.lt (Nat.not_lt_zero n)
  order _ _ m _ hm := absurd hm.lt (Nat.not_lt_zero m)

/-- Nothing is under the keys that are not there. -/
theorem absent_iff (h : r.Shows history) (key : String) :
    (∀ w, ¬ IsLatest history key w) ↔ key ∉ r.keys := by
  rw [← get?_eq_none_iff, Option.eq_none_iff_forall_ne_some]
  exact forall_congr' fun w => not_congr (h.value key w).symm

theorem put (h : r.Shows history) (key : String) (v : Value) :
    (r.insert key v).Shows (history ++ [.put key v]) where
  nodup := keys_insert_nodup h.nodup key v
  value k w := by
    rw [isLatest_concat, ← h.value]
    by_cases hk : key = k
    · subst hk
      simp [Change.key, eq_comm]
    · simp [Change.key, hk, get?_insert_of_ne hk]
  present k := by
    simp only [mem_keys_insert, h.present, isSince_concat, exists_or, h.absent_iff]
    by_cases hk : k = key
    · subst hk
      by_cases hmem : k ∈ r.keys <;> simp [← h.present, hmem]
    · simp [hk, Ne.symm hk]
  order i j m n hi hj hmn := by
    rw [isSince_concat] at hi hj
    rw [keys_insert, withKey]
    obtain ⟨-, hi⟩ | ⟨rfl, -⟩ := hi
    · obtain ⟨-, hj⟩ | ⟨-, ⟨w, hput⟩, habsent⟩ := hj
      · have hold := h.order i j m n hi hj hmn
        split
        · exact hold
        · exact hold.trans (List.sublist_append_left r.keys [key])
      · -- a key that was not there before goes behind all others
        obtain ⟨rfl, -⟩ := Change.put.inj hput
        rw [if_neg ((h.absent_iff key).1 habsent)]
        have hmem : i ∈ r.keys := (h.present i).2 ⟨m, hi⟩
        exact (List.singleton_sublist.2 hmem).append (List.Sublist.refl [key])
    · obtain ⟨-, hj⟩ | ⟨rfl, -⟩ := hj
      · exact absurd hmn (Nat.lt_asymm hj.lt)
      · exact absurd hmn (Nat.lt_irrefl _)

theorem drop (h : r.Shows history) (key : String) :
    (r.remove key).Shows (history ++ [.drop key]) where
  nodup := by
    rw [keys_remove]
    exact h.nodup.erase key
  value k w := by
    rw [isLatest_concat, ← h.value]
    by_cases hk : key = k
    · subst hk
      have hnone : (r.remove key).get? key = none := by
        rw [get?_eq_none_iff, keys_remove, h.nodup.mem_erase_iff]
        exact fun hmem => hmem.1 rfl
      simp [Change.key, hnone]
    · simp [Change.key, hk, get?_remove_of_ne hk]
  present k := by
    rw [keys_remove, h.nodup.mem_erase_iff, h.present]
    simp only [isSince_concat, exists_or]
    by_cases hk : k = key
    · simp [hk]
    · simp [hk, Ne.symm hk]
  order i j m n hi hj hmn := by
    rw [isSince_concat] at hi hj
    obtain ⟨hi, hm⟩ | ⟨-, ⟨w, hput⟩, -⟩ := hi
    · obtain ⟨hj, hn⟩ | ⟨-, ⟨w, hput⟩, -⟩ := hj
      · have hold := (h.order i j m n hm hn hmn).erase key
        have hstay : key ∉ [i, j] := by
          simp only [List.mem_cons, List.not_mem_nil, or_false, not_or]
          exact ⟨fun hkey => hi (congrArg _ hkey), fun hkey => hj (congrArg _ hkey)⟩
        rwa [List.erase_of_not_mem hstay, ← keys_remove] at hold
      · cases hput
    · cases hput

/-- **One change.** -/
theorem apply (h : r.Shows history) (c : Change) : (r.apply c).Shows (history ++ [c]) := by
  cases c with
  | put key v => exact h.put key v
  | drop key => exact h.drop key

/-- Any number of changes. -/
theorem foldl (h : r.Shows history) (changes : List Change) :
    (changes.foldl Record.apply r).Shows (history ++ changes) := by
  induction changes generalizing r history with
  | nil => rwa [List.append_nil]
  | cons c changes ih =>
    rw [List.foldl_cons, List.append_cons]
    exact ih (h.apply c)

end Shows

end Record

end TableSync
