import TableSync.Store
import TableSync.Proofs.Files.Spares

/-!
# Documents and their stores

What a store has after its document has been read or written, and what is in the file then.  A store
remembers the records that were in its document when it was last read or written; it is dirty if the
records are others now, or if there is no document.

* `Store.read_of_document` and `Store.exec_load` say what a store has after a document has been
  read, and `Store.exists_forceSave` that a document is written where nothing is in the way.
* `Store.forceSaveOn` and `Store.saveOn` write a document where the system may refuse any step; on a
  system that refuses nothing they are `Store.forceSave` and `Store.save`.
* `Store.exec_forceSaveOn_cases` says that such a write goes through as a whole or leaves the
  document as it is.

The text of a document goes to a file of its own first, which takes the place of the document in the
end.  A refusal before that leaves the old document, and after it nothing is left to be refused; so
the cases are those of the last step.
-/

set_option autoImplicit false

namespace TableSync

variable {project : Project} {w w' : World}

/-! ## Reading and writing -/

namespace Store

variable {s s' : Store} {t : FileTree} {p : Path}

theorem isDirty_eq_false_iff :
    s.isDirty t = false ↔ s.saved? = some s.records ∧ t.contains s.path = true := by
  simp [isDirty]

/-- A store that has been read is that of its path. -/
theorem path_of_read (h : read project t p = .ok s) : s.path = p := by
  rw [read] at h
  split at h
  · rw [← Except.ok.inj h]
    rfl
  · exact absurd h (by simp [fail])
  · split at h
    · rw [← Except.ok.inj h]
    · exact absurd h (by simp [fail])

theorem read_of_document {f : File} {text : Text} {records : Record}
    (hnode : t.node? p = some (.file f)) (htext : f.content = .text text)
    (hparse : Record.parse? text = some records) :
    read project t p = .ok ⟨p, records, some records⟩ := by
  have hread : t.readText p = .ok text := by
    simp only [FileTree.readText, FileTree.content, FileTree.find, hnode, htext]
  rw [read, hread]
  simp only [hparse]

/-- A store that has been written is that of its path. -/
theorem eq_of_forceSave (project : Project)
    (h : Action.exec (s.forceSave project) w = (.ok s', w')) :
    s' = { s with saved? := some s.records } := by
  rw [forceSave] at h
  obtain ⟨_, w₁, -, h⟩ := Action.exists_of_exec_bind_ok h
  obtain ⟨_, w₂, -, h⟩ := Action.exists_of_exec_bind_ok h
  exact (Except.ok.inj (congrArg Prod.fst h)).symm

/-- Where nothing is in the way, a document is written. -/
theorem exists_forceSave (project : Project) {ps : List Path} (hps : Apart ps) (hp : s.path ∈ ps)
    (hclear : w.tree.Clear ps) :
    ∃ w', Action.exec (s.forceSave project) w = (.ok { s with saved? := some s.records }, w') ∧
      Effect ps (· = s.path) w w' ∧
      ∃ time, w.tree.clock ≤ time ∧ time < w'.tree.clock ∧
        w'.tree.file? s.path = some ⟨.text s.records.document, time⟩ := by
  obtain ⟨w₁, hparent, heffect, hdir⟩ := exists_ensureParent project hps hp hclear
  obtain ⟨t, ht, hwrite, time, hle, hlt, hfile⟩ :=
    exists_write hps hp (heffect.clear hclear) hdir (.text s.records.document)
  refine ⟨{ w₁ with tree := t }, ?_, (heffect.mono fun _ h => h.elim).trans hwrite,
    time, Nat.le_trans heffect.changes.clock hle, hlt, hfile⟩
  rw [forceSave, Action.exec_bind_of_ok hparent,
    Action.exec_bind_of_ok (Action.exec_change_of_ok ht)]
  rfl

end Store

theorem exec_load (project : Project) (p : Path) (w : World) :
    Action.exec (Store.load project p) w = (Store.read project w.tree p, w) := by
  rw [Store.load, Action.exec_get_bind, Action.exec_ofResult]

namespace FileTree

variable {t t' : FileTree} {p : Path} {text : Text}

/-- A text that has been read is in a file. -/
theorem node?_of_readText (h : t.readText p = .ok text) :
    ∃ time, t.node? p = some (.file ⟨.text text, time⟩) := by
  rw [readText, content, find] at h
  cases hnode : t.node? p with
  | none => simp [hnode] at h
  | some node =>
    cases node with
    | directory time => simp [hnode] at h
    | file f =>
      obtain ⟨content, time⟩ := f
      cases content with
      | binary bytes => simp [hnode] at h
      | text s =>
        simp only [hnode, Except.ok.injEq] at h
        exact ⟨time, by rw [h]⟩

theorem node?_eq_none_of_readText (h : t.readText p = .error .notFound) : t.node? p = none := by
  rw [readText, content, find] at h
  cases hnode : t.node? p with
  | none => rfl
  | some node =>
    cases node with
    | directory time => simp [hnode] at h
    | file f =>
      obtain ⟨content, time⟩ := f
      cases content <;> simp [hnode] at h

theorem eq_putContent_of_write {c : Content} (h : t.write p c = .ok t') :
    t' = t.putContent p c := by
  rw [write] at h
  split at h
  · exact (Except.ok.inj h).symm
  · cases h

theorem node?_of_remove_self (h : t.remove p = .ok t') : t'.node? p = none := by
  rw [remove] at h
  split at h
  · next f hfind =>
    rw [← Except.ok.inj h]
    cases p with
    | nil => cases hfind
    | cons name p => exact (lookup_filter_ne (name :: p) (name :: p) t.nodes).trans (if_pos rfl)
  · cases h
  · cases h

end FileTree

/-- A path is not on the way to itself. -/
theorem Path.not_prefix_dropLast {p : Path} (h : p ≠ []) : ¬ p <+: p.dropLast := fun hprefix => by
  have hle := hprefix.length_le
  have hpos := List.length_pos_iff.2 h
  rw [List.length_dropLast] at hle
  omega

/-! ## Writing where the system may refuse it

A refusal may depend on the files, and need not have a reason in them.  It is a parameter here, and
not a property of the tree, so that the lemmas hold of every file system. -/

/-- The steps in which a document is written: its text goes to a file of its own first, which then
takes the place of the old document. -/
inductive SaveStep
  | parents
  | stage
  | fill
  | replace

/-- A system that may refuse any step, for what it finds in the files or for no reason. -/
structure Disk where
  /-- The error with which a step is refused in a tree, if it is. -/
  refusal? : SaveStep → FileTree → Option OsError

/-- The system that refuses nothing. -/
def Disk.willing : Disk := ⟨fun _ _ => none⟩

/-- A change that is made if the system does not refuse the step. -/
def Disk.guard (disk : Disk) (step : SaveStep) (f : FileTree → Except OsError FileTree)
    (t : FileTree) : Except OsError FileTree :=
  match disk.refusal? step t with
  | some e => .error e
  | none => f t

theorem Disk.eq_ok_of_guard {disk : Disk} {step : SaveStep} {f : FileTree → Except OsError FileTree}
    {t t' : FileTree} (h : disk.guard step f t = .ok t') : f t = .ok t' := by
  rw [guard] at h
  split at h
  · cases h
  · exact h

namespace Store

/-- Writes the document, step by step. -/
def forceSaveOn (disk : Disk) (project : Project) (s : Store) : Action Store := do
  (Action.change (disk.guard .parents (FileTree.makeDirs · s.path.dropLast))).inContext
    s!"create parent: {project.show_ s.path.dropLast}"
  Action.change
    (disk.guard .stage <| disk.guard .fill <| disk.guard .replace
      (FileTree.write · s.path (.text s.records.document)))
    (.documentInaccessible (project.show_ s.path))
  return { s with saved? := some s.records }

/-- Writes the document, step by step, if it is dirty. -/
def saveOn (disk : Disk) (project : Project) (s : Store) : Action (Store × Bool) := do
  if ← look s.isDirty then return (← s.forceSaveOn disk project, true)
  return (s, false)

theorem forceSaveOn_willing (project : Project) (s : Store) :
    s.forceSaveOn .willing project = s.forceSave project := rfl

theorem saveOn_willing (project : Project) (s : Store) :
    s.saveOn .willing project = s.save project := rfl

/-- A store is written if it is dirty, and else nothing is done. -/
theorem exec_saveOn (disk : Disk) (project : Project) (s : Store) (w : World) :
    Action.exec (s.saveOn disk project) w =
      if s.isDirty w.tree = true then
        ((Action.exec (s.forceSaveOn disk project) w).1.map (·, true),
          (Action.exec (s.forceSaveOn disk project) w).2)
      else (.ok (s, false), w) := by
  rw [saveOn, Action.exec_look_bind]
  split
  · cases hforce : Action.exec (s.forceSaveOn disk project) w with
    | mk r w' =>
      cases r with
      | error e => exact Action.exec_bind_of_error hforce _
      | ok s' => exact Action.exec_bind_of_ok hforce _
  · rfl

/-- A write goes through as a whole, or it leaves the files as they are but for directories on the
way. -/
theorem exec_forceSaveOn_cases (disk : Disk) (project : Project) (s : Store) (w : World) :
    (∃ t, w.tree.makeDirs s.path.dropLast = .ok t ∧
      Action.exec (s.forceSaveOn disk project) w =
        (.ok { s with saved? := some s.records },
          { w with tree := t.putContent s.path (.text s.records.document) })) ∨
    ∃ e t, (t = w.tree ∨ w.tree.makeDirs s.path.dropLast = .ok t) ∧
      Action.exec (s.forceSaveOn disk project) w = (.error e, { w with tree := t }) := by
  cases hparents : disk.guard .parents (FileTree.makeDirs · s.path.dropLast) w.tree with
  | error e =>
    have hrefused : Action.exec
        (Action.change (disk.guard .parents (FileTree.makeDirs · s.path.dropLast))) w =
          (.error ⟨.system e, []⟩, w) := Action.exec_change_of_error hparents
    exact Or.inr ⟨_, w.tree, Or.inl rfl,
      Action.exec_bind_of_error (Action.exec_inContext_of_error hrefused _) _⟩
  | ok t =>
    have hdirs := Disk.eq_ok_of_guard hparents
    have hopen : Action.exec
        (Action.change (disk.guard .parents (FileTree.makeDirs · s.path.dropLast))) w =
          (.ok (), { w with tree := t }) := Action.exec_change_of_ok hparents
    rw [forceSaveOn, Action.exec_bind_of_ok (Action.exec_inContext_of_ok hopen _)]
    cases hwrite : (disk.guard .stage <| disk.guard .fill <| disk.guard .replace
        (FileTree.write · s.path (.text s.records.document))) t with
    | error e =>
      exact Or.inr ⟨_, t, Or.inr hdirs,
        Action.exec_bind_of_error (Action.exec_change_of_error hwrite) _⟩
    | ok t' =>
      refine Or.inl ⟨t, hdirs, ?_⟩
      have hput := Disk.eq_ok_of_guard (Disk.eq_ok_of_guard (Disk.eq_ok_of_guard hwrite))
      rw [← FileTree.eq_putContent_of_write hput]
      exact Action.exec_bind_of_ok (Action.exec_change_of_ok hwrite) _

end Store

end TableSync
