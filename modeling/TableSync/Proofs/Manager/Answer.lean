import TableSync.Proofs.Manager.Operation

/-!
# What operations answer

An operation leaves a session behind, and some operations answer: with a value that was there
before, with a number of categories, or with a failure.  What is left behind is `Operation.run`; the
answer is defined beside it, so that a failed operation can be told from one that has done nothing.

* `Operation.Answer` are the answers, and `Operation.answer` is the answer of an operation.
* `Operation.target?` is the category that it is aimed at, if it is aimed at one.  The others go
  over all categories and tell of failures instead of answering with one.
* `edited` is an edit in general: of the category of a kind, with a refusal if its records may not
  be used, and with a function that gives the answer and the records to put in, or a failure.
* `Operation.set_eq`, `Operation.setSpeciesInfo_eq` and `Operation.setStarterField_of_known` say
  that the three operations that edit records are such edits, and `Operation.exists_edit` says it at
  once: they look for the category with records that may be used, and put other records in.

The properties of edits are proved of `edited`, and not three times.
-/

set_option autoImplicit false

namespace TableSync

/-- What an operation answers. -/
inductive Answer
  | done
  /-- The value before an edit. -/
  | value (before? : Option Value)
  /-- Whether a document was dirty. -/
  | saved (dirty : Bool)
  /-- A number of categories or files. -/
  | count (n : Nat)
  | failed (f : Failure)

/-- The answer of work that can fail. -/
def Answer.ofResult {α : Type} (answer : α → Answer) : Except Failure α → Answer
  | .ok a => answer a
  | .error f => .failed f

namespace Operation

/-- The answer of an operation. -/
def answer (s : Session) : Operation → Answer
  | start _ _ => .done
  | loadAll _ => .done
  | openDocuments => .done
  | set kind path v => .ofResult (fun out => .value out.1) (s.manager.set kind path v)
  | setSpeciesInfo species key v form? =>
    .ofResult (fun _ => .done) (s.manager.setSpeciesInfo species key v form?)
  | setStarterField slot key v => .ofResult (fun _ => .done) (s.manager.setStarterField slot key v)
  | persistAll => .count (Run.exec s.manager.persistAll s.world).1.1
  | save kind => .ofResult .saved (Run.exec (s.manager.save kind) s.world).1.1
  | regenerate kind => .ofResult (fun _ => .done) (Run.exec (s.manager.regenerate kind) s.world).1.1
  | regenerateAll dryRun => .count (Run.exec (s.manager.regenerateAll dryRun) s.world).1.1
  | restoreAll => .count (Run.exec s.manager.restoreAll s.world).1

/-- The category that an operation is aimed at. -/
def target? : Operation → Option CategoryKind
  | set kind _ _ => some kind
  | setSpeciesInfo _ _ _ _ => some .species
  | setStarterField _ _ _ => some .starters
  | save kind => some kind
  | regenerate kind => some kind
  | _ => none

/-- Whether an operation edits records, and does nothing else. -/
def isEdit : Operation → Bool
  | set _ _ _ => true
  | setSpeciesInfo _ _ _ _ => true
  | setStarterField _ _ _ => true
  | _ => false

/-- A session after an edit of the category of a kind, with the answer: `edit` says which records
the edit puts in, if it goes through. -/
def edited (kind : CategoryKind) (refusal : Failure)
    (edit : Category → Except Failure (Answer × Record)) (s : Session) : Session × Answer :=
  match s.manager.loaded? kind with
  | none => (s, .failed refusal)
  | some c =>
    match edit c with
    | .error f => (s, .failed f)
    | .ok (answer, records) => ({ s with manager := s.manager.withRecords c records }, answer)

section

variable {kind : CategoryKind} {refusal f : Failure}
  {edit : Category → Except Failure (Answer × Record)} {s : Session} {c : Category}

theorem edited_of_none (h : s.manager.loaded? kind = none) :
    edited kind refusal edit s = (s, .failed refusal) := by
  rw [edited, h]

theorem edited_of_error (h : s.manager.loaded? kind = some c) (hedit : edit c = .error f) :
    edited kind refusal edit s = (s, .failed f) := by
  simp only [edited, h, hedit]

theorem edited_of_ok {answer : Answer} {records : Record} (h : s.manager.loaded? kind = some c)
    (hedit : edit c = .ok (answer, records)) :
    edited kind refusal edit s =
      ({ s with manager := s.manager.update (c.extracted records) }, answer) := by
  simp only [edited, h, hedit]
  rfl

theorem save_of_none (h : s.manager.loaded? kind = none) :
    (save kind).run s = s ∧ (save kind).answer s = .failed (Manager.notLoaded kind) := by
  rw [run, answer, Manager.exec_save, h]
  exact ⟨rfl, rfl⟩

theorem save_of_loaded (h : s.manager.loaded? kind = some c) :
    (save kind).run s = ⟨s.manager.update (Run.exec (c.persist s.manager.project) s.world).1.2,
        (Run.exec (c.persist s.manager.project) s.world).2⟩ ∧
      (save kind).answer s =
        .ofResult .saved (Run.exec (c.persist s.manager.project) s.world).1.1 := by
  rw [run, answer, Manager.exec_save, h]
  exact ⟨rfl, rfl⟩

theorem regenerate_of_none (h : s.manager.categories.find? (fun c => c.kind = kind) = none) :
    (regenerate kind).run s = s ∧
      (regenerate kind).answer s = .failed (.ofText s!"category '{kind.id}' is not enabled") := by
  rw [run, answer, Manager.exec_regenerate, h]
  exact ⟨rfl, rfl⟩

theorem regenerate_of_untrusted
    (h : s.manager.categories.find? (fun c => c.kind = kind) = some c) (hc : c.trusted = false) :
    (regenerate kind).run s = s ∧ (regenerate kind).answer s =
      .failed (.ofText s!"category '{kind.id}' has no trusted records") := by
  rw [run, answer, Manager.exec_regenerate, h]
  simp only [hc]
  exact ⟨rfl, rfl⟩

theorem regenerate_of_trusted
    (h : s.manager.categories.find? (fun c => c.kind = kind) = some c)
    (htrusted : c.trusted = true) :
    (regenerate kind).run s =
        ⟨s.manager.update (Run.exec (c.regenerate s.manager.workshop) s.world).1.2,
          (Run.exec (c.regenerate s.manager.workshop) s.world).2⟩ ∧
      (regenerate kind).answer s =
        .ofResult (fun _ => .done) (Run.exec (c.regenerate s.manager.workshop) s.world).1.1 := by
  rw [run, answer, Manager.exec_regenerate, h]
  simp only [htrusted]
  exact ⟨rfl, rfl⟩

end

/-- The records with a value set at the end of a path, which answers with the value before. -/
def setEdit (path : List String) (v : Value) (c : Category) : Except Failure (Answer × Record) :=
  match Manager.blockedAt? c.store.records path with
  | some blocked =>
    let shown := ".".intercalate blocked
    .error (.ofText s!"'{shown}' is not a record")
  | none =>
    let (before?, records) := c.store.records.exchangePath path v
    .ok (.value before?, records)

/-- The records after a change that may not find its place in them. -/
def changeEdit (missing : Failure) (change : Record → Option Record) (c : Category) :
    Except Failure (Answer × Record) :=
  match change c.store.records with
  | none => .error missing
  | some records => .ok (.done, records)

theorem set_eq (kind : CategoryKind) (path : List String) (v : Value) (s : Session) :
    ((set kind path v).run s, (set kind path v).answer s) =
      edited kind (Manager.notLoaded kind) (setEdit path v) s := by
  rw [run, answer, edited, Manager.set]
  cases s.manager.loaded? kind with
  | none => rfl
  | some c =>
    cases hblocked : Manager.blockedAt? c.store.records path with
    | none =>
      simp only [setEdit, hblocked]
      rfl
    | some blocked =>
      simp only [setEdit, hblocked]
      rfl

theorem setSpeciesInfo_eq (species key : String) (v : Value) (form? : Option String)
    (s : Session) :
    ((setSpeciesInfo species key v form?).run s, (setSpeciesInfo species key v form?).answer s) =
      edited .species (Manager.notLoaded .species)
        (changeEdit (.ofText s!"unknown species {species}") fun records =>
          Species.setInfo? records species form? key v) s := by
  rw [run, answer, edited, Manager.setSpeciesInfo]
  cases s.manager.loaded? .species with
  | none => rfl
  | some c =>
    cases hset : Species.setInfo? c.store.records species form? key v with
    | none =>
      simp only [changeEdit, hset]
      rfl
    | some records =>
      simp only [changeEdit, hset]
      rfl

/-- A field that starters do not have is refused before the category is looked for. -/
theorem setStarterField_of_unknown {slot : Nat} {key : String}
    (h : Starters.fieldNames.contains key = false) (v : Value) (s : Session) :
    let refusal := Failure.ofText s!"unknown starter field '{key}'"
    ((setStarterField slot key v).run s, (setStarterField slot key v).answer s) =
      edited .starters refusal (fun _ => .error refusal) s := by
  intro refusal
  rw [run, answer, edited, Manager.setStarterField, h]
  cases s.manager.loaded? .starters <;> rfl

theorem setStarterField_of_known {slot : Nat} {key : String}
    (h : Starters.fieldNames.contains key = true) (v : Value) (s : Session) :
    ((setStarterField slot key v).run s, (setStarterField slot key v).answer s) =
      edited .starters (Manager.notLoaded .starters)
        (changeEdit (.ofText s!"no starter in slot {slot}") fun records =>
          records.modifyRecord? (Starters.slotKey slot) fun r => r.insert key v) s := by
  rw [run, answer, edited, Manager.setStarterField, h]
  cases s.manager.loaded? .starters with
  | none => rfl
  | some c =>
    cases hset : c.store.records.modifyRecord? (Starters.slotKey slot) fun r => r.insert key v with
    | none =>
      simp only [changeEdit, hset]
      rfl
    | some records =>
      simp only [changeEdit, hset]
      rfl

/-- **Edits are made in one way**: in the category that they are aimed at, if its records may be
used, and with nothing but its records in view. -/
theorem exists_edit {op : Operation} (h : op.isEdit = true) :
    ∃ kind refusal edit, op.target? = some kind ∧
      ∀ s, (op.run s, op.answer s) = edited kind refusal edit s := by
  cases op with
  | set kind path v => exact ⟨kind, _, _, rfl, set_eq kind path v⟩
  | setSpeciesInfo species key v form? =>
    exact ⟨.species, _, _, rfl, setSpeciesInfo_eq species key v form?⟩
  | setStarterField slot key v =>
    cases hknown : Starters.fieldNames.contains key with
    | false => exact ⟨.starters, _, _, rfl, setStarterField_of_unknown hknown v⟩
    | true => exact ⟨.starters, _, _, rfl, setStarterField_of_known hknown v⟩
  | _ => cases h

end Operation

end TableSync
