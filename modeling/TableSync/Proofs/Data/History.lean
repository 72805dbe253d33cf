import TableSync.Proofs.Data.Change
import TableSync.Proofs.Data.Reading

/-!
# What a record has been through

A record comes from the empty one by steps, each of which makes some changes.  So do the records
inside it, whether they have been put there, have come about on the way to a value, or have been
read from a text.  What is known of a record by its history is therefore known of every record that
the program can hold, and of those inside it.

* `Record.Step` is a step, and `Record.Step.run_eq` says which changes it makes.  A step that goes
  over all values, or reads a whole text, makes many of them; setting a value at the end of a path
  makes one, of the first key of the path.
* `Record.Reached` says which records come from the empty one, and with which history;
  `Value.IsBuilt` says which values they are given.  The two are defined together: a value is built
  if the records in it have been reached, and a step may put in values that are built.
* `Value.isBuilt_of_ofJson?` and `Record.Reached.isBuilt` say that all values in a record are such
  values.  The first goes by the recursion of the reader, which may meet a key twice in an object;
  the second by induction on the steps.
* `Value.IsBuilt.uniqueKeys` follows from both: no record in such a value has a key twice.
* `Record.Reached.isOrderedMap` puts together what follows for a record: the invariant of the steps
  is `Record.Shows`, which `Record.Reached.shows` carries along.
-/

set_option autoImplicit false

namespace TableSync

namespace Record

/-! ## Steps -/

/-- A step in the making of a record. -/
inductive Step
  | insert (key : String) (v : Value)
  | remove (key : String)
  /-- The value under a key, if there is one, is assigned another one. -/
  | assign (key : String) (v : Value)
  | setPath (path : List String) (v : Value)
  /-- Every value is assigned another one. -/
  | assignAll (f : String → Value → Value)
  /-- The record is collected anew from named values. -/
  | rebuild (fields : List (String × Value))
  /-- The record is read from a text, if the text writes one. -/
  | read (text : Text)

/-- A record is emptied, and named values are put into it. -/
def rebuilding (r : Record) (fields : List (String × Value)) : List Change :=
  r.keys.map .drop ++ fields.map fun f => .put f.1 f.2

namespace Step

/-- The record after a step. -/
def run : Step → Record → Record
  | .insert key v, r => r.insert key v
  | .remove key, r => r.remove key
  | .assign key v, r => if r.contains key then r.insert key v else r
  | .setPath path v, r => r.setPath path v
  | .assignAll f, r => r.mapValues f
  | .rebuild fields, _ => ofFields fields
  | .read text, r => (parse? text).getD r

/-- The changes that a step makes to a record.  At the end of a path, a value is set in a record
that is put under the first key. -/
def changes : Step → Record → List Change
  | .insert key v, _ => [.put key v]
  | .remove key, _ => [.drop key]
  | .assign key v, r => if r.contains key then [.put key v] else []
  | .setPath [] _, _ => []
  | .setPath [key] v, _ => [.put key v]
  | .setPath (key :: rest) v, r =>
    [.put key (.record (((r.record? key).getD empty).setPath rest v))]
  | .assignAll f, r => r.fields.map fun (k, v) => .put k (f k v)
  | .rebuild fields, r => r.rebuilding fields
  | .read text, r => ((members? text).map r.rebuilding).getD []

/-- The values that a step puts into a record; what is read is made by the reading. -/
def given : Step → Record → List Value
  | .insert _ v, _ => [v]
  | .remove _, _ => []
  | .assign _ v, _ => [v]
  | .setPath _ v, _ => [v]
  | .assignAll f, r => r.fields.map fun (k, v) => f k v
  | .rebuild fields, _ => fields.map Prod.snd
  | .read _, _ => []

end Step

end Record

mutual

/-- A value that can be made: the records in it come from the empty one. -/
inductive Value.IsBuilt : Value → Prop
  | int (n : Int) : Value.IsBuilt (.int n)
  | str (s : String) : Value.IsBuilt (.str s)
  | list {items : List Value} (h : ∀ v ∈ items, Value.IsBuilt v) : Value.IsBuilt (.list items)
  | conditional {e : Conditional} (ht : Value.IsBuilt e.whenTrue) (hf : Value.IsBuilt e.whenFalse) :
    Value.IsBuilt (.conditional e)
  | record {history : List Record.Change} {r : Record} (h : Record.Reached history r) :
    Value.IsBuilt (.record r)

/-- A record that comes from the empty one by steps, with all changes of its keys. -/
inductive Record.Reached : List Record.Change → Record → Prop
  | empty : Record.Reached [] .empty
  | step {history : List Record.Change} {r : Record} (hr : Record.Reached history r)
    (step : Record.Step) (hgiven : ∀ v ∈ step.given r, Value.IsBuilt v) :
    Record.Reached (history ++ step.changes r) (step.run r)

end

namespace Record

variable {r : Record} {history : List Change}

/-! ## One more step in a history -/

/-- Every value is put anew under its key. -/
theorem foldl_put (f : String → Value → Value) (hkeys : r.keys.Nodup) :
    (r.fields.map fun (k, v) => Change.put k (f k v)).foldl apply r = r.mapValues f := by
  obtain ⟨fs⟩ := r
  have hrest : ∀ done rest : List (String × Value), ((done ++ rest).map Prod.fst).Nodup →
      (rest.map fun (k, v) => Change.put k (f k v)).foldl apply ⟨done ++ rest⟩ =
        ⟨done ++ rest.map fun (k, v) => (k, f k v)⟩ := by
    intro done rest hnodup
    induction rest generalizing done with
    | nil => rfl
    | cons p rest ih =>
      obtain ⟨k, v⟩ := p
      rw [List.map_append, List.map_cons] at hnodup
      have hk : k ∉ done.map Prod.fst := fun hmem =>
        (List.nodup_append.1 hnodup).2.2 k hmem k List.mem_cons_self rfl
      have hnext := ih (done ++ [(k, f k v)]) (by simpa using hnodup)
      rw [List.append_assoc, List.append_assoc] at hnext
      rw [List.map_cons, List.foldl_cons, apply, insert_append hk]
      exact hnext
  exact hrest [] fs hkeys

/-- A record without the keys that it has is empty. -/
theorem foldl_drop (r : Record) : (r.keys.map Change.drop).foldl apply r = empty := by
  obtain ⟨fs⟩ := r
  rw [keys]
  induction fs with
  | nil => rfl
  | cons f fs ih =>
    have hremove : (⟨f :: fs⟩ : Record).remove f.1 = ⟨fs⟩ :=
      congrArg Record.mk (if_pos rfl)
    rw [List.map_cons, List.map_cons, List.foldl_cons, apply, hremove]
    exact ih

theorem foldl_rebuilding (r : Record) (fields : List (String × Value)) :
    (r.rebuilding fields).foldl apply r = ofFields fields := by
  rw [rebuilding, List.foldl_append, foldl_drop, List.foldl_map]
  rfl

/-- **A step makes its changes**, one after the other. -/
theorem Step.run_eq (step : Step) (hkeys : r.keys.Nodup) :
    step.run r = (step.changes r).foldl apply r := by
  cases step with
  | insert key v => rfl
  | remove key => rfl
  | assign key v =>
    rw [run, changes]
    split <;> rfl
  | setPath path v =>
    match path with
    | [] => rfl
    | [key] => rfl
    | key :: k :: rest => rfl
  | assignAll f => exact (foldl_put f hkeys).symm
  | rebuild fields => exact (foldl_rebuilding r fields).symm
  | read text =>
    rw [run, changes, parse?_eq]
    cases members? text with
    | none => rfl
    | some fields => exact (foldl_rebuilding r fields).symm

/-- A record shows its history. -/
theorem Reached.shows : ∀ {history : List Change} {r : Record}, r.Reached history → r.Shows history
  | _, _, .empty => Shows.empty
  | _, _, .step hr s _ => by
    rw [s.run_eq hr.shows.nodup]
    exact hr.shows.foldl _

theorem isBuilt_ofFields {fields : List (String × Value)} (h : ∀ f ∈ fields, f.2.IsBuilt) :
    (Value.record (ofFields fields)).IsBuilt :=
  .record (Reached.empty.step (.rebuild fields) (List.forall_mem_map.2 h))

end Record

/-! ## What is read is built

An object that is read as a record is collected from its members one by one, so the record has a
history of its own, which begins with the empty record. -/

mutual

/-- **A value that is read is built**, whatever keys its objects repeat. -/
theorem Value.isBuilt_of_ofJson? : ∀ {j : Json} {v : Value}, Value.ofJson? j = some v → v.IsBuilt
  | .null, _, h => by cases h
  | .num n, _, h => by
    obtain rfl := Option.some.inj h
    exact .int n
  | .str s, _, h => by
    obtain rfl := Option.some.inj h
    exact .str s
  | .arr items, v, h => by
    have hitems := isBuilt_of_mem_readItems items
    rw [Value.ofJson?] at h
    split at h
    · next vs hvs =>
      obtain rfl := Option.some.inj h
      exact .list (forall_mem_of_allValues? hitems hvs)
    · obtain ⟨e, he, rfl⟩ := Option.map_eq_some_iff.1 h
      obtain ⟨ht, hf⟩ := branches_of_conditionalOfItems? hitems he
      exact .conditional ht hf
  | .obj members, v, h => by
    have hmembers := isBuilt_of_mem_readMembers members
    rw [Value.ofJson?] at h
    split at h
    · next e he =>
      obtain rfl := Option.some.inj h
      obtain ⟨ht, hf⟩ := branches_of_conditionalOfMembers? hmembers he
      exact .conditional ht hf
    · obtain ⟨fs, hfs, rfl⟩ := Option.map_eq_some_iff.1 h
      exact Record.isBuilt_ofFields (forall_mem_of_allFields? hmembers hfs)

theorem isBuilt_of_mem_readItems : ∀ (items : List Json), ∀ m ∈ readItems items, ∀ v : Value,
    m.2 = some v → v.IsBuilt
  | [], _, hm, _, _ => absurd hm List.not_mem_nil
  | j :: items, m, hm, v, hv => by
    rcases List.mem_cons.1 hm with rfl | hm
    · exact Value.isBuilt_of_ofJson? hv
    · exact isBuilt_of_mem_readItems items m hm v hv

theorem isBuilt_of_mem_readMembers : ∀ (members : List (String × Json)),
    ∀ m ∈ readMembers members, ∀ v : Value, m.2.2 = some v → v.IsBuilt
  | [], _, hm, _, _ => absurd hm List.not_mem_nil
  | (_, j) :: members, m, hm, v, hv => by
    rcases List.mem_cons.1 hm with rfl | hm
    · exact Value.isBuilt_of_ofJson? hv
    · exact isBuilt_of_mem_readMembers members m hm v hv

end

/-! ## What is in a record is built

A value that is set at the end of a path changes the records on the way, each of which is built anew
from what it was. -/

namespace Record

variable {r inner : Record} {history : List Change} {key : String} {v : Value}
  {fields : List (String × Value)}

theorem isBuilt_of_mem_insert (h : ∀ f ∈ r.fields, f.2.IsBuilt) (hv : v.IsBuilt) :
    ∀ f ∈ (r.insert key v).fields, f.2.IsBuilt := by
  intro f hf
  rcases mem_insert hf with rfl | hf
  · exact hv
  · exact h f hf

theorem isBuilt_of_mem_ofFields (h : ∀ f ∈ fields, f.2.IsBuilt) :
    ∀ f ∈ (ofFields fields).fields, f.2.IsBuilt :=
  (insertAll_induction empty List.nodup_nil (fun _ hf => absurd hf List.not_mem_nil) h).2

theorem isBuilt_of_members? {text : Text} (h : members? text = some fields) :
    ∀ f ∈ fields, f.2.IsBuilt := by
  rw [members?] at h
  split at h
  · next members _ => exact forall_mem_of_allFields? (isBuilt_of_mem_readMembers members) h
  · cases h

/-- A record inside a record comes from the empty one. -/
theorem exists_reached_of_record? (h : ∀ f ∈ r.fields, f.2.IsBuilt)
    (hrecord : r.record? key = some inner) : ∃ history, inner.Reached history := by
  obtain ⟨v, hget, hv⟩ := Option.bind_eq_some_iff.1 hrecord
  cases h (key, v) (mem_of_findField hget) with
  | record hinner =>
    obtain rfl := Option.some.inj hv
    exact ⟨_, hinner⟩
  | _ => cases hv

/-- A value that is set in a record on the way is built into it. -/
theorem isBuilt_setPath (h : ∀ f ∈ r.fields, f.2.IsBuilt) (key : String) (rest : List String)
    (hv : v.IsBuilt) :
    (Value.record (((r.record? key).getD empty).setPath rest v)).IsBuilt := by
  obtain ⟨history, hinner⟩ : ∃ history, ((r.record? key).getD empty).Reached history := by
    cases hrecord : r.record? key with
    | none => exact ⟨[], .empty⟩
    | some inner => exact exists_reached_of_record? h hrecord
  exact .record (hinner.step (.setPath rest v) (List.forall_mem_singleton.2 hv))

theorem Step.isBuilt_run (step : Step) (h : ∀ f ∈ r.fields, f.2.IsBuilt)
    (hgiven : ∀ v ∈ step.given r, v.IsBuilt) : ∀ f ∈ (step.run r).fields, f.2.IsBuilt := by
  cases step with
  | insert key v => exact isBuilt_of_mem_insert h (hgiven v List.mem_cons_self)
  | remove key => exact fun f hf => h f ((removeField_sublist key r.fields).subset hf)
  | assign key v =>
    rw [run]
    split
    · exact isBuilt_of_mem_insert h (hgiven v List.mem_cons_self)
    · exact h
  | setPath path v =>
    have hv := hgiven v List.mem_cons_self
    match path with
    | [] => exact h
    | [key] => exact isBuilt_of_mem_insert h hv
    | key :: k :: rest => exact isBuilt_of_mem_insert h (isBuilt_setPath h key (k :: rest) hv)
  | assignAll f => exact List.forall_mem_map.2 fun p hp => hgiven _ (List.mem_map_of_mem hp)
  | rebuild fields =>
    exact isBuilt_of_mem_ofFields fun p hp => hgiven _ (List.mem_map_of_mem hp)
  | read text =>
    rw [run, parse?_eq]
    cases hmembers : members? text with
    | none => exact h
    | some fields => exact isBuilt_of_mem_ofFields (isBuilt_of_members? hmembers)

/-- **The values in a record are built.** -/
theorem Reached.isBuilt : ∀ {history : List Change} {r : Record}, r.Reached history →
    ∀ f ∈ r.fields, f.2.IsBuilt
  | _, _, .empty => fun _ hf => absurd hf List.not_mem_nil
  | _, _, .step hr s hgiven => s.isBuilt_run hr.isBuilt hgiven

end Record

/-! ## Keys are unique -/

mutual

/-- **No record in a value that is built has a key twice.** -/
theorem Value.IsBuilt.uniqueKeys : ∀ {v : Value}, v.IsBuilt → v.UniqueKeys
  | .int _, _ => trivial
  | .str _, _ => trivial
  | .list items, h => by
    cases h with
    | list h => exact uniqueKeysItems_of_isBuilt items h
  | .conditional ⟨_, _, _, _, _, _, _⟩, h => by
    cases h with
    | conditional ht hf => exact ⟨ht.uniqueKeys, hf.uniqueKeys⟩
  | .record ⟨fields⟩, h => by
    cases h with
    | record h => exact ⟨h.shows.nodup, uniqueKeysFields_of_isBuilt fields h.isBuilt⟩

theorem uniqueKeysItems_of_isBuilt : ∀ vs : List Value, (∀ v ∈ vs, v.IsBuilt) → UniqueKeysItems vs
  | [], _ => trivial
  | _ :: vs, h =>
    have ⟨hv, hvs⟩ := List.forall_mem_cons.1 h
    ⟨hv.uniqueKeys, uniqueKeysItems_of_isBuilt vs hvs⟩

theorem uniqueKeysFields_of_isBuilt : ∀ fs : List (String × Value), (∀ f ∈ fs, f.2.IsBuilt) →
    UniqueKeysFields fs
  | [], _ => trivial
  | _ :: fs, h =>
    have ⟨hv, hfs⟩ := List.forall_mem_cons.1 h
    ⟨hv.uniqueKeys, uniqueKeysFields_of_isBuilt fs hfs⟩

end

/-! ## Records as ordered maps -/

namespace Record

variable {r : Record} {history : List Change}

/-- **A record is an ordered map**, by whatever steps it comes from the empty one.

No key occurs twice, in the record or in one inside it.  Under a key stands the value that was put
there last, if the key has not been dropped since; and the keys that are there stand in the order in
which they have come, each at the first time since it was dropped last.  An insertion gives the value
that was under its key before.  A record is collected from its own fields as it is.  The records
inside the record come from the empty one, too, so the same is true of them. -/
theorem Reached.isOrderedMap (h : r.Reached history) :
    r.UniqueKeys ∧
    (∀ key v, r.get? key = some v ↔ IsLatest history key v) ∧
    (∀ key, key ∈ r.keys ↔ r.contains key = true) ∧
    (∀ key, key ∈ r.keys ↔ ∃ n, IsSince history key n) ∧
    (∀ j k m n, IsSince history j m → IsSince history k n → m < n → [j, k].Sublist r.keys) ∧
    (∀ key v w, (r.exchange key v).1 = some w ↔ IsLatest history key w) ∧
    (∀ key v, v.IsBuilt → (r.exchange key v).2.Reached (history ++ [.put key v])) ∧
    ofFields r.fields = r ∧
    ∀ key inner, r.record? key = some inner → ∃ history', inner.Reached history' := by
  obtain ⟨hnodup, hvalue, hpresent, horder⟩ := h.shows
  refine ⟨(Value.IsBuilt.record h).uniqueKeys, hvalue, fun key => ?_, hpresent, horder,
    fun key _ => hvalue key, fun key v hv => ?_, ?_,
    fun _ _ => exists_reached_of_record? h.isBuilt⟩
  · rw [contains, Option.isSome_iff_ne_none, ne_eq, get?_eq_none_iff, Decidable.not_not]
  · exact h.step (.insert key v) (List.forall_mem_singleton.2 hv)
  · obtain ⟨fs⟩ := r
    exact ofFields_eq hnodup

/-- A text in which two keys occur twice. -/
def sampleText : Text :=
  "\x7b\"name\": 1, \"stats\": \x7b\"hp\": 1, \"hp\": 2\x7d, \"name\": 3\x7d".toList

/-- The changes when the text is read, the name is dropped, a value inside the record is set, and the
name is put back. -/
def sampleHistory : List Change :=
  [.put "name" (.int 1), .put "stats" (.record ⟨[("hp", .int 2)]⟩), .put "name" (.int 3),
    .drop "name", .put "stats" (.record ⟨[("hp", .int 5)]⟩), .put "name" (.str "A")]

/-- The record after these changes. -/
def sampleReread : Record := ⟨[("stats", .record ⟨[("hp", .int 5)]⟩), ("name", .str "A")]⟩

/-- **A key that is dropped and put back goes to the end**, although the text named it first. -/
theorem isOrderedMap_sampleReread :
    sampleReread.Reached sampleHistory ∧ sampleReread.UniqueKeys ∧
      IsLatest sampleHistory "stats" (.record ⟨[("hp", .int 5)]⟩) ∧
      (IsSince sampleHistory "stats" 1 ∧ IsSince sampleHistory "name" 5 ∧
        ["stats", "name"].Sublist sampleReread.keys) ∧
      ((sampleReread.exchange "name" (.int 0)).1 = some (.str "A") ∧
        (sampleReread.exchange "name" (.int 0)).2.Reached
          (sampleHistory ++ [.put "name" (.int 0)])) ∧
      ofFields sampleReread.fields = sampleReread := by
  have hreached : sampleReread.Reached sampleHistory := by
    have hread := Reached.empty.step (.read sampleText) fun _ hv => absurd hv List.not_mem_nil
    have hremove := hread.step (.remove "name") fun _ hv => absurd hv List.not_mem_nil
    have hset := hremove.step (.setPath ["stats", "hp"] (.int 5))
      (List.forall_mem_singleton.2 (.int 5))
    have hassign := hset.step (.assign "type" (.int 0)) (List.forall_mem_singleton.2 (.int 0))
    have hinsert := hassign.step (.insert "name" (.str "A"))
      (List.forall_mem_singleton.2 (.str "A"))
    exact (congr (congrArg Reached (by decide +kernel)) (by decide +kernel)).mp hinsert
  have habsent : ∀ (before : List Change) (key : String), key ∉ (before.foldl apply empty).keys →
      ∀ w, ¬ IsLatest before key w := fun before key =>
    ((Shows.empty.foldl before).absent_iff key).2
  have hstats : IsSince sampleHistory "stats" 1 :=
    ⟨sampleHistory.take 1, _, sampleHistory.drop 2, rfl, rfl, habsent _ _ (by decide +kernel),
      by decide +kernel⟩
  have hname : IsSince sampleHistory "name" 5 :=
    ⟨sampleHistory.take 5, _, [], rfl, rfl, habsent _ _ (by decide +kernel), List.not_mem_nil⟩
  obtain ⟨hkeys, hvalue, -, -, horder, hexchange, hafter, hcollected, -⟩ :=
    Reached.isOrderedMap hreached
  exact ⟨hreached, hkeys, (hvalue _ _).1 (by decide +kernel),
    ⟨hstats, hname, horder _ _ _ _ hstats hname (by decide)⟩,
    ⟨(hexchange _ _ _).2 ((hvalue _ _).1 (by decide +kernel)), hafter _ _ (.int 0)⟩, hcollected⟩

end Record

end TableSync
