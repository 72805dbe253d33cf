import TableSync.Manager.Category
import TableSync.Proofs.Files.Store
import TableSync.Proofs.Manager.Layout

/-!
# Building the files of one category

Where nothing stands in the way of its files, the build of a category goes through exactly if all
its bound files are there and all its texts can be written, and this is seen from the pristine
contents alone.  So it does not matter what a bound file holds at the time, as long as it has a
backup: a build can be repeated, and one that has failed leaves nothing that a later one depends on.

* `Category.IsManaged` says that a category is where its kind wants it, so that its paths are known.
* `Category.Builds` says that a build goes through, and with which texts.
* `exists_save`, `exists_generateOnce_start` and `exists_stamp` say what the parts of a build do; a
  generation `Category.Prepares` its backups before it makes the texts.
* `exists_rebuild_of_builds` and `exists_rebuild_of_not_builds` say what a build does, the second
  with its two tries and what is put back after each.  `Category.Built` and `Category.Failed` are
  the two outcomes; failing twice is failing (`Category.Failed.trans`).
* `exists_regenerate` puts saving in front, and says all of it by `Category.Regenerates`.
-/

set_option autoImplicit false

namespace TableSync

/-- The category is what belongs to its kind, and its document is in the place of its kind. -/
structure Category.IsManaged (c : Category) : Prop where
  /-- Its definition is that of its kind. -/
  definition : c.definition = CategoryDef.ofKind c.kind
  /-- Its document is in the place of its kind. -/
  path : c.store.path = c.kind.documentPath

/-- The category after its document has been saved. -/
def Category.saved (c : Category) : Category :=
  { c with store := { c.store with saved? := some c.store.records } }

/-- The text that a bound file had before any generation. -/
def pristineText (project : Project) (t : FileTree) (rel : String) : Result Text :=
  match Binding.pristine? t ⟨rel⟩ with
  | some (.text s) => .ok s
  | some (.binary _) =>
    fail (.sourceUnreadable (project.show_ (Binding.backup ⟨rel⟩)) .notUtf8)
  | none => fail (.sourceMissing (project.show_ (Binding.backup ⟨rel⟩)))

/-- All bound files are there, and all texts can be written. -/
structure Category.Builds (v : Workshop) (c : Category) (t : FileTree)
    (outs : List (String × Text)) : Prop where
  /-- Every bound file has a pristine content. -/
  present : ∀ b ∈ c.definition.bindings, (b.pristine? t).isSome = true
  /-- The texts can be written from the pristine contents. -/
  outputs : c.definition.outputs v.constants c.store.records (pristineText v.project t) = .ok outs

theorem Category.Builds.unique {v : Workshop} {c : Category} {t : FileTree}
    {outs outs' : List (String × Text)} (h : c.Builds v t outs) (h' : c.Builds v t outs') :
    outs = outs' :=
  Except.ok.inj (h.outputs.symm.trans h'.outputs)

/-- The build depends on the pristine contents alone. -/
theorem Category.Builds.congr {v : Workshop} {c : Category} {t t' : FileTree}
    {outs : List (String × Text)} (hdef : c.definition = CategoryDef.ofKind c.kind)
    (h : c.Builds v t outs)
    (hsame : ∀ b ∈ c.definition.bindings, b.pristine? t' = b.pristine? t) :
    c.Builds v t' outs := by
  refine ⟨fun b hb => by rw [hsame b hb]; exact h.present b hb, ?_⟩
  rw [← h.outputs]
  rw [hdef] at hsame ⊢
  refine CategoryDef.outputs_congr fun b hb => ?_
  have hb' : Binding.pristine? t' ⟨b.rel⟩ = Binding.pristine? t ⟨b.rel⟩ := hsame b hb
  rw [pristineText, pristineText, hb']

section

variable {K : List CategoryKind} {c : Category} {w : World} (project : Project)

/-! ## Saving -/

/-- The document of a category has been saved if it was dirty. -/
structure Category.Saves (K : List CategoryKind) (c : Category) (t t' : FileTree) : Prop where
  /-- No file is changed but the document. -/
  changes : t.Changes (trackedPaths K) (· = c.kind.documentPath) t'
  /-- There is a document. -/
  document : t'.HasFile c.kind.documentPath
  /-- A dirty store has been written, at a time within the step. -/
  written : c.store.isDirty t = true → ∃ time, t.clock ≤ time ∧ time < t'.clock ∧
    t'.file? c.kind.documentPath = some ⟨.text c.store.records.document, time⟩
  /-- A clean store has not been written. -/
  kept : c.store.isDirty t = false → t' = t

/-- Saving by force writes the document. -/
theorem exists_forceSave (hc : c.IsManaged) (hk : c.kind ∈ K)
    (hclear : w.tree.Clear (trackedPaths K)) :
    ∃ w', Action.exec (c.store.forceSave project) w = (.ok c.saved.store, w') ∧
      Effect (trackedPaths K) (· = c.kind.documentPath) w w' ∧
      ∃ time, w.tree.clock ≤ time ∧ time < w'.tree.clock ∧
        w'.tree.file? c.kind.documentPath = some ⟨.text c.store.records.document, time⟩ := by
  have hp : c.store.path ∈ trackedPaths K :=
    hc.path ▸ mem_trackedPaths_own hk List.mem_cons_self
  rw [← hc.path]
  exact Store.exists_forceSave project (apart_trackedPaths K) hp hclear

/-- Saving leaves a document, written now if it was dirty. -/
theorem exists_save (hc : c.IsManaged) (hk : c.kind ∈ K) (hclear : w.tree.Clear (trackedPaths K)) :
    ∃ w', Action.exec (c.store.save project) w =
        (.ok (c.saved.store, c.store.isDirty w.tree), w') ∧ c.Saves K w.tree w'.tree ∧
      Told [] w w' := by
  cases hdirty : c.store.isDirty w.tree with
  | true =>
    obtain ⟨w', hforce, heffect, time, hle, hlt, hfile⟩ := exists_forceSave project hc hk hclear
    refine ⟨w', ?_, ⟨heffect.changes, ?_, fun _ => ⟨time, hle, hlt, hfile⟩, fun h => ?_⟩,
      heffect.told⟩
    · rw [Store.save, Action.exec_look_bind, hdirty]
      show Action.exec (c.store.forceSave project >>= _) w = _
      rw [Action.exec_bind_of_ok hforce]
      rfl
    · rw [FileTree.HasFile, hfile]
      rfl
    · rw [hdirty] at h
      exact Bool.noConfusion h
  | false =>
    obtain ⟨hsaved, hcontains⟩ := Store.isDirty_eq_false_iff.1 hdirty
    rw [hc.path, (hclear _ (mem_trackedPaths_own hk List.mem_cons_self)).contains_eq] at hcontains
    refine ⟨w, ?_, ⟨.refl _ _ _, hcontains, fun h => ?_, fun _ => rfl⟩, .refl w⟩
    · rw [Store.save, Action.exec_look_bind, hdirty, Category.saved, ← hsaved]
      rfl
    · rw [hdirty] at h
      exact Bool.noConfusion h

/-! ## Writing outputs -/

/-- A source is written, and this is said. -/
theorem exists_writeAnnounced (project : Project) {ps : List Path} (hps : Apart ps) {rel : String}
    (hrel : Project.sourcePath rel ∈ ps) (hclear : w.tree.Clear ps) (text : Text) :
    ∃ w', Action.exec (writeAnnounced project rel text) w = (.ok (), w') ∧
      Effect ps (· = Project.sourcePath rel) w w' ∧
      w'.tree.content? (Project.sourcePath rel) = some (.text (banner ++ text)) := by
  obtain ⟨w', hwrite, heffect, time, -, -, hfile⟩ := exists_writeSource project hps hrel
    (w := { w with events := w.events ++ [_] }) hclear text
  refine ⟨w', hwrite, (Effect.say ps _ w .debug s!"writing {rel}").trans heffect, ?_⟩
  rw [FileTree.content?, hfile]
  rfl

/-- Texts are written in turn. -/
theorem exists_writeOutputs {ps : List Path} {outs : List (String × Text)} (hps : Apart ps)
    (hmem : ∀ o ∈ outs, Project.sourcePath o.1 ∈ ps)
    (hdistinct : (outs.map fun o => Project.sourcePath o.1).Nodup) (hclear : w.tree.Clear ps) :
    ∃ w', Action.exec (Category.writeOutputs (writeAnnounced project) outs) w = (.ok (), w') ∧
      Effect ps (· ∈ outs.map fun o => Project.sourcePath o.1) w w' ∧
      ∀ o ∈ outs, w'.tree.content? (Project.sourcePath o.1) = some (.text (banner ++ o.2)) := by
  induction outs generalizing w with
  | nil => exact ⟨w, rfl, .refl ps _ w, by simp⟩
  | cons o rest ih =>
    obtain ⟨rel, text⟩ := o
    rw [List.map_cons, List.nodup_cons] at hdistinct
    obtain ⟨w₁, hwrite, heffect, hfile⟩ :=
      exists_writeAnnounced project hps (hmem _ List.mem_cons_self) hclear text
    obtain ⟨w₂, hall, heffect', hcontents⟩ := ih
      (fun o ho => hmem o (List.mem_cons_of_mem _ ho)) hdistinct.2 (heffect.clear hclear)
    refine ⟨w₂, ?_, ?_, fun o ho => ?_⟩
    · rw [Category.writeOutputs]
      exact (Action.exec_bind_of_ok hwrite _).trans hall
    · refine (heffect.mono ?_).trans (heffect'.mono fun p hp => List.mem_cons_of_mem _ hp)
      rintro p rfl
      exact List.mem_cons_self
    · rcases List.mem_cons.1 ho with rfl | ho
      · rw [heffect'.changes.content? hdistinct.1, hfile]
      · exact hcontents o ho

/-! ## One generation

A generation makes its texts from the backups, after having made them.  A backup that is new has the
content of its file, so the texts are made from the pristine contents, as `Category.Builds` wants
it. -/

variable {v : Workshop} {outs : List (String × Text)}

theorem Category.IsManaged.mem_managed (hk : c.kind ∈ K) {p : Path}
    (hp : p ∈ c.kind.managedPaths) : p ∈ trackedPaths K :=
  mem_trackedPaths_own hk (List.mem_cons_of_mem _ hp)

theorem Category.IsManaged.bindings_mem (hc : c.IsManaged) (hk : c.kind ∈ K) :
    ∀ b ∈ c.definition.bindings, b.file ∈ trackedPaths K ∧ b.backup ∈ trackedPaths K := by
  intro b hb
  rw [hc.definition] at hb
  have hpaths := fun p hp => IsManaged.mem_managed hk (CategoryKind.paths_subset hb (p := p) hp)
  exact ⟨hpaths _ b.file_mem_paths, hpaths _ b.backup_mem_paths⟩

theorem Category.IsManaged.generated_mem (hc : c.IsManaged) (hk : c.kind ∈ K) :
    ∀ g ∈ c.definition.generated, g.path ∈ trackedPaths K := by
  intro g hg
  rw [hc.definition] at hg
  exact mem_managed hk (CategoryKind.generated_mem hg)

theorem Category.IsManaged.managed_eq (hc : c.IsManaged) :
    c.definition.bindings.flatMap Binding.paths ++ c.definition.generated.map GeneratedFile.path =
      c.kind.managedPaths := by
  rw [hc.definition]
  rfl

theorem Category.IsManaged.nodup (hc : c.IsManaged) :
    (c.definition.bindings.flatMap Binding.paths ++
      c.definition.generated.map GeneratedFile.path).Nodup := by
  rw [hc.managed_eq]
  exact c.kind.managedPaths_nodup

/-- No bound file is a backup. -/
theorem Category.IsManaged.file_ne_backup (hc : c.IsManaged) {b : Binding}
    (hb : b ∈ c.definition.bindings) : ¬ ∃ b' ∈ c.definition.bindings, b.file = b'.backup := by
  rintro ⟨b', hb', heq⟩
  rw [hc.definition] at hb hb'
  refine CategoryKind.backup_notMem_outputPaths hb' ?_
  rw [← heq]
  exact List.mem_append_right _ (List.mem_map_of_mem hb)

/-- What is written is in the places of generated and bound files. -/
theorem Category.Builds.map_paths {t : FileTree} (h : c.Builds v t outs) (hc : c.IsManaged) :
    outs.map (fun o => Project.sourcePath o.1) =
      if c.definition.generator?.isSome then c.kind.outputPaths else [] := by
  have houtputs := h.outputs
  rw [hc.definition] at houtputs ⊢
  exact CategoryDef.outputs_paths houtputs

theorem Category.Builds.mem_outputPaths {t : FileTree} (h : c.Builds v t outs) (hc : c.IsManaged)
    {p : Path} (hp : p ∈ outs.map fun o => Project.sourcePath o.1) : p ∈ c.kind.outputPaths := by
  rw [h.map_paths hc] at hp
  split at hp
  · exact hp
  · exact absurd hp List.not_mem_nil

theorem Category.Builds.nodup {t : FileTree} (h : c.Builds v t outs) (hc : c.IsManaged) :
    (outs.map fun o => Project.sourcePath o.1).Nodup := by
  rw [h.map_paths hc]
  split
  · exact c.kind.outputPaths_nodup
  · exact List.nodup_nil

/-- The text of a backup that is there is the pristine text. -/
theorem sourceText_backup {t : FileTree} {b : Binding} (hadmits : t.Admits b.backup)
    (hfile : t.HasFile b.backup) :
    sourceText project t b.backup = pristineText project t b.rel := by
  have hpristine : Binding.pristine? t ⟨b.rel⟩ = t.content? b.backup :=
    Binding.pristine?_of_hasFile hfile
  obtain ⟨f, hf⟩ := Option.isSome_iff_exists.1 hfile
  have hcontent : t.content? b.backup = some f.content := by
    rw [FileTree.content?, hf]
    rfl
  rw [sourceText, hadmits.readText_eq, pristineText, hpristine, hcontent]
  cases f.content <;> rfl

/-- Once all backups are there, the texts are made from the pristine contents. -/
theorem Category.IsManaged.outputs_backups (hc : c.IsManaged) (hk : c.kind ∈ K)
    (hclear : w.tree.Clear (trackedPaths K))
    (hbackups : ∀ b ∈ c.definition.bindings, w.tree.HasFile b.backup) :
    c.definition.outputs v.constants c.store.records (fun rel =>
        sourceText v.project w.tree (Binding.backup ⟨rel⟩)) =
      c.definition.outputs v.constants c.store.records (pristineText v.project w.tree) := by
  have hall : ∀ b ∈ c.definition.bindings,
      sourceText v.project w.tree b.backup = pristineText v.project w.tree b.rel := fun b hb =>
    sourceText_backup v.project (hclear _ (hc.bindings_mem hk b hb).2) (hbackups b hb)
  rw [hc.definition] at hall ⊢
  exact CategoryDef.outputs_congr hall

theorem Category.Builds.mem_trackedPaths {t : FileTree} (h : c.Builds v t outs) (hc : c.IsManaged)
    (hk : c.kind ∈ K) : ∀ o ∈ outs, Project.sourcePath o.1 ∈ trackedPaths K := fun _ ho =>
  IsManaged.mem_managed hk
    (CategoryKind.outputPaths_subset (h.mem_outputPaths hc (List.mem_map_of_mem ho)))

/-- What is written leaves the backups as they are. -/
theorem Category.Builds.backups_kept {t : FileTree} (h : c.Builds v t outs) (hc : c.IsManaged)
    {w' : World} {ps : List Path}
    (heffect : Effect ps (· ∈ outs.map fun o => Project.sourcePath o.1) w w')
    (hbackups : ∀ b ∈ c.definition.bindings, w.tree.HasFile b.backup) :
    ∀ b ∈ c.definition.bindings,
      w'.tree.HasFile b.backup ∧ b.pristine? w'.tree = b.pristine? w.tree := by
  intro b hb
  refine Binding.pristine?_of_backup_eq (heffect.changes.frame _ fun hmem => ?_) (hbackups b hb)
  rw [hc.definition] at hb
  exact CategoryKind.backup_notMem_outputPaths hb (h.mem_outputPaths hc hmem)

/-- Backups have been made, as far as they can be: the first one is there unless its file is
missing. -/
structure Category.Prepares (K : List CategoryKind) (c : Category) (w w' : World) : Prop where
  /-- No file is changed but backups, and no step is told. -/
  effect : Effect (trackedPaths K) (fun p => ∃ b ∈ c.definition.bindings, p = b.backup) w w'
  /-- Every backup has been kept, or made from its file. -/
  backedUp : ∀ b ∈ c.definition.bindings, b.BackedUp w w'
  /-- The first backup is there, or its file is missing and nothing has been done. -/
  first : w' = w ∧ (∀ b ∈ c.definition.bindings.head?, ¬ w.tree.HasFile b.file) ∨
    ∃ b ∈ c.definition.bindings.head?, w'.tree.HasFile b.backup

theorem Category.Prepares.pristine? {w' : World} (h : c.Prepares K w w') (hc : c.IsManaged) :
    ∀ b ∈ c.definition.bindings, b.pristine? w'.tree = b.pristine? w.tree := fun b hb =>
  (h.backedUp b hb).pristine? (h.effect.changes.frame _ (hc.file_ne_backup hb))

/-- **A generation starts with the backups.**  Then it writes the texts that are made from them, or
it fails, and no texts can be made. -/
theorem exists_generateOnce_start (v : Workshop) (hc : c.IsManaged) (hk : c.kind ∈ K)
    (hclear : w.tree.Clear (trackedPaths K)) :
    ∃ w', c.Prepares K w w' ∧
      ((∃ e, Action.exec (c.generateOnce v) w = (.error e, w') ∧
          ∀ outs, ¬ c.Builds v w.tree outs) ∨
        ∃ outs, Action.exec (c.generateOnce v) w =
            Action.exec (Category.writeOutputs v.write outs) w' ∧
          c.Builds v w.tree outs ∧ ∀ b ∈ c.definition.bindings, w'.tree.HasFile b.backup) := by
  obtain ⟨r, w', hensure, heffect, hbacked, hok, herror, hfirst⟩ := exists_ensureBackups v.project
    (apart_trackedPaths K) (hc.bindings_mem hk) (List.nodup_append.1 hc.nodup).1 hclear
  have hprepares : c.Prepares K w w' := ⟨heffect, hbacked, hfirst⟩
  refine ⟨w', hprepares, ?_⟩
  cases r with
  | error e =>
    refine Or.inl ⟨e, ?_, fun outs h => ?_⟩
    · rw [Category.generateOnce, Action.exec_bind_of_error hensure]
    · obtain ⟨b, hb, hnobackup, hnofile⟩ := herror rfl
      exact (Binding.isSome_pristine?_iff.1 (h.present b hb)).elim hnobackup hnofile
  | ok _ =>
    -- the texts are read from the backups, which have the pristine contents
    have hbackups := hok rfl
    have hmade : c.definition.outputs v.constants c.store.records (fun rel =>
        sourceText v.project w'.tree (Binding.backup ⟨rel⟩)) =
          c.definition.outputs v.constants c.store.records (pristineText v.project w'.tree) :=
      hc.outputs_backups hk (heffect.clear hclear) hbackups
    have hexec : Action.exec (c.generateOnce v) w = Action.exec (do
        Category.writeOutputs v.write (← Action.ofResult <|
          c.definition.outputs v.constants c.store.records (pristineText v.project w'.tree))) w' := by
      rw [Category.generateOnce, Action.exec_bind_of_ok hensure, Action.exec_get_bind, ← hmade]
    cases houtputs :
        c.definition.outputs v.constants c.store.records (pristineText v.project w'.tree) with
    | error e =>
      rw [houtputs] at hexec
      refine Or.inl ⟨e, hexec, fun outs h => ?_⟩
      have h' := (h.congr hc.definition (hprepares.pristine? hc)).outputs
      rw [houtputs] at h'
      cases h'
    | ok outs =>
      rw [houtputs] at hexec
      have hbuilds : c.Builds v w'.tree outs :=
        ⟨fun b hb => Binding.isSome_pristine?_iff.2 (Or.inl (hbackups b hb)), houtputs⟩
      exact Or.inr ⟨outs, hexec,
        hbuilds.congr hc.definition fun b hb => (hprepares.pristine? hc b hb).symm, hbackups⟩

/-- What a generation that goes through does. -/
theorem exists_generateOnce_of_builds (hv : v.write = writeAnnounced v.project) (hc : c.IsManaged)
    (hk : c.kind ∈ K) (hclear : w.tree.Clear (trackedPaths K)) (h : c.Builds v w.tree outs) :
    ∃ w', Action.exec (c.generateOnce v) w = (.ok (), w') ∧
      Effect (trackedPaths K) (fun p => (∃ b ∈ c.definition.bindings, p = b.backup) ∨
        p ∈ outs.map fun o => Project.sourcePath o.1) w w' ∧
      (∀ b ∈ c.definition.bindings,
        w'.tree.HasFile b.backup ∧ b.pristine? w'.tree = b.pristine? w.tree) ∧
      (∀ o ∈ outs, w'.tree.content? (Project.sourcePath o.1) = some (.text (banner ++ o.2))) ∧
      ((∃ b ∈ c.definition.bindings, ¬ w.tree.HasFile b.backup) →
        w.tree.clock < w'.tree.clock) := by
  obtain ⟨w₁, hprepares, ⟨e, -, hnone⟩ | ⟨outs', hexec, h', hbackups⟩⟩ :=
    exists_generateOnce_start v hc hk hclear
  · exact absurd h (hnone outs)
  · obtain rfl := h'.unique h
    obtain ⟨w₂, hwrite, heffect, hcontents⟩ := exists_writeOutputs v.project (apart_trackedPaths K)
      (h.mem_trackedPaths hc hk) (h.nodup hc) (hprepares.effect.clear hclear)
    refine ⟨w₂, ?_, ?_, fun b hb => ?_, hcontents, fun ⟨b, hb, hnone⟩ => ?_⟩
    · rw [hexec, hv]
      exact hwrite
    · exact (hprepares.effect.mono fun p hp => Or.inl hp).trans (heffect.mono fun p hp => Or.inr hp)
    · obtain ⟨hfile, hpristine⟩ := h.backups_kept hc heffect hbackups b hb
      exact ⟨hfile, hpristine.trans (hprepares.pristine? hc b hb)⟩
    · rcases hprepares.backedUp b hb with hsame | ⟨-, hlt, -⟩
      · refine absurd ?_ hnone
        rw [FileTree.HasFile, ← hsame]
        exact hbackups b hb
      · exact Nat.lt_of_lt_of_le hlt heffect.changes.clock

/-- A generation that does not go through makes backups at most. -/
theorem exists_generateOnce_of_not_builds (hc : c.IsManaged) (hk : c.kind ∈ K)
    (hclear : w.tree.Clear (trackedPaths K)) (h : ∀ outs, ¬ c.Builds v w.tree outs) :
    ∃ e w', Action.exec (c.generateOnce v) w = (.error e, w') ∧ c.Prepares K w w' := by
  obtain ⟨w', hprepares, ⟨e, hexec, -⟩ | ⟨outs, -, hbuilds, -⟩⟩ :=
    exists_generateOnce_start v hc hk hclear
  · exact ⟨e, w', hexec, hprepares⟩
  · exact absurd hbuilds (h outs)

/-! ## Putting files back -/

/-- All bound files are put back, and all generated files deleted. -/
theorem exists_rollback (hc : c.IsManaged) (hk : c.kind ∈ K)
    (hclear : w.tree.Clear (trackedPaths K)) :
    ∃ w', Action.exec (c.rollback project) w = (.ok (), w') ∧
      Effect (trackedPaths K) (· ∈ c.kind.managedPaths) w w' ∧
      (∀ b ∈ c.definition.bindings, b.PutBack w w') ∧
      ∀ g ∈ c.definition.generated, w'.tree.file? g.path = none := by
  obtain ⟨n, w', hrestore, heffect, hput, hgone, -⟩ := exists_restoreFiles project
    (apart_trackedPaths K) (hc.bindings_mem hk) (hc.generated_mem hk) hc.nodup hclear
  rw [hc.managed_eq] at heffect
  refine ⟨w', ?_, heffect, hput, hgone⟩
  rw [Category.rollback, Action.exec_bind_of_ok (Action.exec_inContext_of_ok hrestore _)]
  rfl

/-! ## Stamping -/

/-- Files that are there are given one time. -/
theorem exists_stampAll {ps : List Path} (hps : Apart ps) (time : Nat) {qs : List Path}
    (hqs : ∀ q ∈ qs, q ∈ ps) (hclear : w.tree.Clear ps) :
    ∃ w', Action.exec (Category.stampAll project time qs) w = (.ok (), w') ∧
      Effect ps (· ∈ qs) w w' ∧ w'.tree.clock = w.tree.clock ∧
      ∀ q ∈ qs, w'.tree.file? q = (w.tree.file? q).map fun f => ⟨f.content, time⟩ := by
  induction qs generalizing w with
  | nil => exact ⟨w, rfl, .refl ps _ w, rfl, by simp⟩
  | cons p qs ih =>
    have hp := hqs p List.mem_cons_self
    have hfirst : ∃ w₁, Action.exec (Category.stampAll project time (p :: qs)) w =
          Action.exec (Category.stampAll project time qs) w₁ ∧
        Effect ps (· = p) w w₁ ∧ w₁.tree.clock = w.tree.clock ∧
        w₁.tree.file? p = (w.tree.file? p).map fun f => ⟨f.content, time⟩ := by
      have hcontains := (hclear p hp).contains_eq
      cases hf : w.tree.file? p with
      | none =>
        rw [hf] at hcontains
        refine ⟨w, ?_, .refl ps _ w, rfl, hf⟩
        rw [Category.stampAll, Action.exec_look_bind, hcontains]
        rfl
      | some f =>
        rw [hf] at hcontains
        obtain ⟨w₁, hstamp, heffect, hfile, hclock⟩ :=
          exists_stampFile project hps hp hclear hf time
        refine ⟨w₁, ?_, heffect, hclock, hfile⟩
        rw [Category.stampAll, Action.exec_look_bind, hcontains]
        exact Action.exec_bind_of_ok hstamp _
    obtain ⟨w₁, hstamp, heffect, hclock, hfile⟩ := hfirst
    obtain ⟨w₂, hall, heffect', hclock', hfiles⟩ :=
      ih (fun q hq => hqs q (List.mem_cons_of_mem p hq)) (heffect.clear hclear)
    refine ⟨w₂, hstamp.trans hall, ?_, hclock'.trans hclock, fun q hq => ?_⟩
    · refine (heffect.mono ?_).trans (heffect'.mono fun q hq => List.mem_cons_of_mem p hq)
      rintro q rfl
      exact List.mem_cons_self
    · -- a path that comes twice is given its time twice
      by_cases hmem : q ∈ qs
      · rw [hfiles q hmem]
        by_cases hqp : q = p
        · rw [hqp, hfile]
          cases w.tree.file? p <;> rfl
        · rw [heffect.changes.frame q hqp]
      · obtain rfl := (List.mem_cons.1 hq).resolve_right hmem
        rw [heffect'.changes.frame q hmem, hfile]

/-- The document and the written files are given the present time. -/
theorem exists_stamp (hc : c.IsManaged) (hk : c.kind ∈ K) (hclear : w.tree.Clear (trackedPaths K))
    (hdocument : w.tree.HasFile c.kind.documentPath) :
    ∃ w', Action.exec (c.stamp project) w = (.ok (), w') ∧
      Effect (trackedPaths K) (· ∈ c.kind.documentPath :: c.definition.writtenPaths) w w' ∧
      w.tree.clock < w'.tree.clock ∧
      ∀ q ∈ c.kind.documentPath :: c.definition.writtenPaths,
        w'.tree.file? q = (w.tree.file? q).map fun f => ⟨f.content, w.tree.clock⟩ := by
  have hps := apart_trackedPaths K
  have hdoc : c.kind.documentPath ∈ trackedPaths K := mem_trackedPaths_own hk List.mem_cons_self
  have hwritten : ∀ q ∈ c.definition.writtenPaths, q ∈ c.kind.managedPaths := by
    intro q hq
    rw [hc.definition, ← CategoryKind.mem_outputPaths_iff] at hq
    exact CategoryKind.outputPaths_subset hq
  -- One time is taken for all stamps, and the document gets it last.
  have hnow : Action.exec Action.now w = (.ok w.tree.clock, { w with tree := w.tree.tick }) := rfl
  have htick : Effect (trackedPaths K) (fun _ => False) w { w with tree := w.tree.tick } :=
    .of_tree ⟨fun h p hp => ⟨(h p hp).place, (h p hp).way⟩, Nat.le_succ _, fun _ _ => rfl⟩
  obtain ⟨w₁, hall, heffect, hclock, hfiles⟩ := exists_stampAll project hps w.tree.clock
    (fun q hq => Category.IsManaged.mem_managed hk (hwritten q hq)) (htick.clear hclear)
  have hapart : c.kind.documentPath ∉ c.definition.writtenPaths := fun hmem =>
    c.kind.documentPath_notMem (hwritten _ hmem)
  obtain ⟨f, hf⟩ := Option.isSome_iff_exists.1 hdocument
  have hf₁ : w₁.tree.file? c.kind.documentPath = some f :=
    (heffect.changes.frame _ hapart).trans hf
  obtain ⟨w₂, hstamp, heffect', hfile, hclock'⟩ := exists_stampFile project hps hdoc
    (heffect.clear (htick.clear hclear)) hf₁ w.tree.clock
  refine ⟨w₂, ?_, ?_, ?_, fun q hq => ?_⟩
  · rw [← hc.path] at hstamp
    rw [Category.stamp, Action.exec_bind_of_ok hnow, Action.exec_bind_of_ok hall]
    exact hstamp
  · refine ((htick.mono fun _ h => h.elim).trans
      (heffect.mono fun q hq => List.mem_cons_of_mem _ hq)).trans (heffect'.mono ?_)
    rintro q rfl
    exact List.mem_cons_self
  · rw [hclock', hclock]
    exact Nat.lt_succ_self _
  · rcases List.mem_cons.1 hq with rfl | hq
    · rw [hfile, hf]
      rfl
    · have hne : q ≠ c.kind.documentPath := fun h => hapart (h ▸ hq)
      rw [heffect'.changes.frame q hne]
      exact hfiles q hq

/-! ## The build

The outcomes are said of the tree before the build and the one after it, with nothing of what lies
between: the backups and texts of a first try that fails are gone when the second one starts. -/

/-- A build has gone through: the texts are written, the backups are there, and the document and all
written files have one time. -/
structure Category.Built (c : Category) (outs : List (String × Text)) (t t' : FileTree) : Prop where
  /-- Every bound file has a backup, with the pristine content. -/
  backups : ∀ b ∈ c.definition.bindings,
    t'.HasFile b.backup ∧ b.pristine? t' = b.pristine? t
  /-- The texts are in their places, behind the banner. -/
  written : ∀ o ∈ outs, t'.content? (Project.sourcePath o.1) = some (.text (banner ++ o.2))
  /-- What is counted among the written files and is no text of the build keeps its content. -/
  kept : ∀ p ∈ c.definition.writtenPaths, p ∉ outs.map (fun o => Project.sourcePath o.1) →
    t'.content? p = t.content? p
  /-- The document keeps its content. -/
  document : t'.content? c.kind.documentPath = t.content? c.kind.documentPath
  /-- The document and all written files have one time, which is new if a backup has been made. -/
  stamped : ∃ time, t.clock ≤ time ∧ time < t'.clock ∧
    ((∃ b ∈ c.definition.bindings, ¬ t.HasFile b.backup) → t.clock < time) ∧
    ∀ p ∈ c.kind.documentPath :: c.definition.writtenPaths, ∀ f, t'.file? p = some f →
      f.time = time

theorem Category.IsManaged.written_subset (hc : c.IsManaged) {p : Path}
    (hp : p ∈ c.definition.writtenPaths) : p ∈ c.kind.managedPaths := by
  rw [hc.definition, ← CategoryKind.mem_outputPaths_iff] at hp
  exact CategoryKind.outputPaths_subset hp

theorem Category.IsManaged.backup_mem (hc : c.IsManaged) {b : Binding}
    (hb : b ∈ c.definition.bindings) : b.backup ∈ c.kind.managedPaths := by
  rw [hc.definition] at hb
  exact CategoryKind.backup_mem hb

theorem Category.IsManaged.backup_notMem (hc : c.IsManaged) {b : Binding}
    (hb : b ∈ c.definition.bindings) :
    b.backup ∉ c.kind.documentPath :: c.definition.writtenPaths := by
  intro hmem
  rcases List.mem_cons.1 hmem with heq | hmem
  · have hmanaged := hc.backup_mem hb
    rw [heq] at hmanaged
    exact c.kind.documentPath_notMem hmanaged
  · rw [hc.definition] at hb hmem
    exact CategoryKind.backup_notMem_outputPaths hb (CategoryKind.mem_outputPaths_iff.2 hmem)

/-- **A build that can go through does.** -/
theorem exists_rebuild_of_builds (hv : v.write = writeAnnounced v.project) (hc : c.IsManaged)
    (hk : c.kind ∈ K) (hclear : w.tree.Clear (trackedPaths K))
    (hdocument : w.tree.HasFile c.kind.documentPath) (h : c.Builds v w.tree outs) :
    ∃ w', Action.exec (c.rebuild v) w = (.ok (), w') ∧
      Effect (trackedPaths K) (· ∈ c.kind.ownPaths) w w' ∧ c.Built outs w.tree w'.tree := by
  obtain ⟨w₁, hgenerate, heffect, hbackups, hwritten, hlater⟩ :=
    exists_generateOnce_of_builds hv hc hk hclear h
  -- neither the document nor what is not written is touched before the stamp
  have hmanaged : ∀ p, (∃ b ∈ c.definition.bindings, p = b.backup) ∨
      p ∈ outs.map (fun o => Project.sourcePath o.1) → p ∈ c.kind.managedPaths := by
    rintro p (⟨b, hb, rfl⟩ | hp)
    · exact hc.backup_mem hb
    · exact CategoryKind.outputPaths_subset (h.mem_outputPaths hc hp)
  have hdoc : w₁.tree.file? c.kind.documentPath = w.tree.file? c.kind.documentPath :=
    heffect.changes.frame _ fun hp => c.kind.documentPath_notMem (hmanaged _ hp)
  obtain ⟨w₂, hstamp, heffect', hclock, hfiles⟩ := exists_stamp v.project hc hk
    (heffect.clear hclear) (by rw [FileTree.HasFile, hdoc]; exact hdocument)
  have hcontents : ∀ p ∈ c.kind.documentPath :: c.definition.writtenPaths,
      w₂.tree.content? p = w₁.tree.content? p := by
    intro p hp
    rw [FileTree.content?, FileTree.content?, hfiles p hp]
    cases w₁.tree.file? p <;> rfl
  refine ⟨w₂, ?_, ?_, ?_, ?_, ?_, ?_, w₁.tree.clock, heffect.changes.clock, hclock,
    hlater, ?_⟩
  · rw [Category.rebuild, Action.exec_attempt_bind, hgenerate]
    exact hstamp
  · refine (heffect.mono fun p hp => List.mem_cons_of_mem _ (hmanaged p hp)).trans
      (heffect'.mono fun p hp => ?_)
    rcases List.mem_cons.1 hp with rfl | hp
    · exact List.mem_cons_self
    · exact List.mem_cons_of_mem _ (hc.written_subset hp)
  · intro b hb
    obtain ⟨hfile, hpristine⟩ := hbackups b hb
    obtain ⟨hfile', hpristine'⟩ := Binding.pristine?_of_backup_eq
      (heffect'.changes.frame _ (hc.backup_notMem hb)) hfile
    exact ⟨hfile', hpristine'.trans hpristine⟩
  · intro o ho
    have hpath := h.mem_outputPaths hc (List.mem_map_of_mem ho)
    rw [CategoryKind.mem_outputPaths_iff, ← hc.definition] at hpath
    rw [hcontents _ (List.mem_cons_of_mem _ hpath)]
    exact hwritten o ho
  · intro p hp hnot
    rw [hcontents p (List.mem_cons_of_mem _ hp)]
    refine heffect.changes.content? ?_
    rintro (⟨b, hb, rfl⟩ | hmem)
    · exact hc.backup_notMem hb (List.mem_cons_of_mem _ hp)
    · exact hnot hmem
  · rw [hcontents _ List.mem_cons_self, FileTree.content?, FileTree.content?, hdoc]
  · intro p hp f hf
    rw [hfiles p hp] at hf
    obtain ⟨g, -, rfl⟩ := Option.map_eq_some_iff.1 hf
    rfl

/-- Whether a failing build makes a backup, or finds one, so that there is something to put
back. -/
def Category.LeavesBackup (c : Category) (t : FileTree) : Prop :=
  (∃ b ∈ c.definition.bindings, t.HasFile b.backup) ∨
    ∃ b ∈ c.definition.bindings.head?, t.HasFile b.file

/-- A build has failed: backups and generated files are gone, and the bound files have their
pristine contents.  Something was put back if there was something to put back. -/
structure Category.Failed (c : Category) (t t' : FileTree) : Prop where
  /-- No backup is there, and every bound file has its pristine content. -/
  backups : ∀ b ∈ c.definition.bindings, t'.file? b.backup = none ∧
    t'.content? b.file = b.pristine? t
  /-- No generated file is there. -/
  generated : ∀ g ∈ c.definition.generated, t'.file? g.path = none
  /-- If there was something to put back, a bound file has been written. -/
  putBack : c.LeavesBackup t → ∃ b ∈ c.definition.bindings, ∃ f,
    t'.file? b.file = some f ∧ t.clock ≤ f.time
  /-- If there was not, every bound file is as it was. -/
  kept : ¬ c.LeavesBackup t → ∀ b ∈ c.definition.bindings,
    t'.file? b.file = t.file? b.file
  /-- A bound file is as it was, or has a time within the build. -/
  fresh : ∀ b ∈ c.definition.bindings, ∀ f, t'.file? b.file = some f →
    t.file? b.file = some f ∨ t.clock ≤ f.time

/-- A generation that does not go through, and what is put back after it. -/
theorem Category.Failed.of_putBack {w₁ w₂ : World} (hc : c.IsManaged)
    (hprepares : c.Prepares K w w₁) (hput : ∀ b ∈ c.definition.bindings, b.PutBack w₁ w₂)
    (hgone : ∀ g ∈ c.definition.generated, w₂.tree.file? g.path = none) :
    c.Failed w.tree w₂.tree := by
  obtain ⟨heffect, hbacked, hfirst⟩ := hprepares
  have hfile : ∀ b ∈ c.definition.bindings, w₁.tree.file? b.file = w.tree.file? b.file :=
    fun b hb => heffect.changes.frame _ (hc.file_ne_backup hb)
  refine ⟨fun b hb => ⟨(hput b hb).backup, ?_⟩, hgone, fun hleaves => ?_, fun hnone b hb => ?_,
    fun b hb f hf => ?_⟩
  · rw [(hput b hb).content?_file, (hbacked b hb).pristine? (hfile b hb)]
  -- If there was a backup or a file, at least one backup is there once all are prepared.
  · have hthere : ∃ b ∈ c.definition.bindings, w₁.tree.HasFile b.backup := by
      rcases hfirst with ⟨rfl, hhead⟩ | ⟨b, hb, hbackup⟩
      · rcases hleaves with hbackup | ⟨b, hb, hfile⟩
        · exact hbackup
        · exact absurd hfile (hhead b hb)
      · exact ⟨b, List.mem_of_head? hb, hbackup⟩
    obtain ⟨b, hb, hbackup⟩ := hthere
    rcases (hput b hb).file with ⟨hnone, -⟩ | ⟨f, time, -, hle, -, hwritten⟩
    · rw [FileTree.HasFile, hnone] at hbackup
      exact Bool.noConfusion hbackup
    · exact ⟨b, hb, _, hwritten, Nat.le_trans heffect.changes.clock hle⟩
  -- With neither a backup nor a file there was nothing to prepare, and the world is unchanged.
  · have hsame : w₁ = w := by
      rcases hfirst with ⟨hsame, -⟩ | ⟨b, hb, hbackup⟩
      · exact hsame
      · refine absurd ?_ hnone
        rcases hbacked b (List.mem_of_head? hb) with hkept | ⟨-, -, f, time, hf, -⟩
        · rw [FileTree.HasFile, hkept] at hbackup
          exact Or.inl ⟨b, List.mem_of_head? hb, hbackup⟩
        · exact Or.inr ⟨b, hb, by rw [FileTree.HasFile, hf]; rfl⟩
    rcases (hput b hb).file with ⟨-, hfile⟩ | ⟨f, time, hf, -⟩
    · rw [hfile, hsame]
    · refine absurd (Or.inl ⟨b, hb, ?_⟩) hnone
      rw [FileTree.HasFile, ← hsame, hf]
      rfl
  · rcases (hput b hb).file with ⟨-, hsame⟩ | ⟨g, time, -, hle, -, hwritten⟩
    · rw [hsame, hfile b hb] at hf
      exact Or.inl hf
    · rw [hwritten] at hf
      rw [← Option.some.inj hf]
      exact Or.inr (Nat.le_trans heffect.changes.clock hle)

theorem Category.Failed.pristine? {t t' : FileTree} (h : c.Failed t t') :
    ∀ b ∈ c.definition.bindings, b.pristine? t' = b.pristine? t := by
  intro b hb
  obtain ⟨hbackup, hcontent⟩ := h.backups b hb
  rw [← hcontent, Binding.pristine?, FileTree.content?, hbackup]
  rfl

/-- Failing twice is failing. -/
theorem Category.Failed.trans {t t₁ t₂ : FileTree} (h : c.Failed t t₁) (h' : c.Failed t₁ t₂)
    (hclock : t.clock ≤ t₁.clock) : c.Failed t t₂ := by
  refine ⟨fun b hb => ⟨(h'.backups b hb).1, ?_⟩, h'.generated, fun hleaves => ?_,
    fun hnone b hb => ?_, fun b hb f hf => ?_⟩
  · rw [(h'.backups b hb).2, h.pristine? b hb]
  · obtain ⟨b, hb, f, hf, hle⟩ := h.putBack hleaves
    have hcontent : t₂.content? b.file = some f.content := by
      rw [(h'.backups b hb).2, h.pristine? b hb, ← (h.backups b hb).2, FileTree.content?, hf]
      rfl
    obtain ⟨g, hg, -⟩ := Option.map_eq_some_iff.1 hcontent
    refine ⟨b, hb, g, hg, ?_⟩
    rcases h'.fresh b hb g hg with hsame | hle'
    · rw [hf] at hsame
      rw [← Option.some.inj hsame]
      exact hle
    · exact Nat.le_trans hclock hle'
  · have hnone' : ¬ c.LeavesBackup t₁ := by
      rintro (⟨b, hb, hbackup⟩ | ⟨b, hb, hfile⟩)
      · rw [FileTree.HasFile, (h.backups b hb).1] at hbackup
        exact Bool.noConfusion hbackup
      · rw [FileTree.HasFile, h.kept hnone b (List.mem_of_head? hb)] at hfile
        exact hnone (Or.inr ⟨b, hb, hfile⟩)
    rw [h'.kept hnone' b hb, h.kept hnone b hb]
  · rcases h'.fresh b hb f hf with hsame | hle
    · exact h.fresh b hb f hsame
    · exact Or.inr (Nat.le_trans hclock hle)

/-- A failure is told of before files are put back. -/
def World.warned (w : World) (c : Category) (why : Failure) : World :=
  { w with events := w.events ++ [.message .warn
    s!"{c.id}: generation failed, restoring and retrying: {why.message}"] }

/-- After a failure and a restoration, one more attempt is made. -/
theorem Category.exec_rebuild_of_error {first : Failure} {w₁ w₂ : World}
    (hgenerate : Action.exec (c.generateOnce v) w = (.error first, w₁))
    (hrollback : Action.exec (c.rollback v.project) (w₁.warned c first) = (.ok (), w₂)) :
    Action.exec (c.rebuild v) w = Action.exec (do
      match ← attempt (c.generateOnce v) with
      | .ok () => c.stamp v.project
      | .error second =>
        c.rollback v.project
        throw ⟨.generationFailed c.id second.message, []⟩) w₂ := by
  rw [Category.rebuild, Action.exec_attempt_bind, hgenerate]
  exact Action.exec_bind_of_ok hrollback _

/-- **A build that cannot go through fails**, and puts back what it found. -/
theorem exists_rebuild_of_not_builds (hc : c.IsManaged) (hk : c.kind ∈ K)
    (hclear : w.tree.Clear (trackedPaths K)) (h : ∀ outs, ¬ c.Builds v w.tree outs) :
    ∃ e w', Action.exec (c.rebuild v) w = (.error e, w') ∧
      Effect (trackedPaths K) (· ∈ c.kind.managedPaths) w w' ∧ c.Failed w.tree w'.tree := by
  have hbackups : ∀ p, (∃ b ∈ c.definition.bindings, p = b.backup) → p ∈ c.kind.managedPaths := by
    rintro p ⟨b, hb, rfl⟩
    exact hc.backup_mem hb
  obtain ⟨e₁, w₁, hgenerate₁, hprepares₁⟩ := exists_generateOnce_of_not_builds hc hk hclear h
  have hclear₁ : (w₁.warned c e₁).tree.Clear (trackedPaths K) := hprepares₁.effect.clear hclear
  obtain ⟨w₂, hrollback₂, heffect₂, hput₂, hgone₂⟩ := exists_rollback v.project hc hk hclear₁
  have hfailed₁ : c.Failed w.tree w₂.tree :=
    .of_putBack hc hprepares₁ (fun b hb => ⟨(hput₂ b hb).backup, (hput₂ b hb).file⟩) hgone₂
  have hclear₂ := heffect₂.clear hclear₁
  obtain ⟨e₃, w₃, hgenerate₃, hprepares₃⟩ := exists_generateOnce_of_not_builds
    hc hk hclear₂ fun outs hbuilds => h outs
      (hbuilds.congr hc.definition fun b hb => (hfailed₁.pristine? b hb).symm)
  obtain ⟨w₄, hrollback₄, heffect₄, hput₄, hgone₄⟩ :=
    exists_rollback v.project hc hk (hprepares₃.effect.clear hclear₂)
  have heffect : Effect (trackedPaths K) (· ∈ c.kind.managedPaths) w w₂ :=
    ((hprepares₁.effect.mono hbackups).trans (.say _ _ w₁ _ _)).trans heffect₂
  refine ⟨⟨.generationFailed c.id e₃.message, []⟩, w₄, ?_,
    (heffect.trans (hprepares₃.effect.mono hbackups)).trans heffect₄,
    hfailed₁.trans (.of_putBack hc hprepares₃ hput₄ hgone₄) heffect.changes.clock⟩
  rw [Category.exec_rebuild_of_error hgenerate₁ hrollback₂, Action.exec_attempt_bind, hgenerate₃]
  exact Action.exec_bind_of_ok hrollback₄ _

/-! ## Saving and building -/

theorem Category.Builds.saved_iff {t : FileTree} : c.saved.Builds v t outs ↔ c.Builds v t outs :=
  ⟨fun h => ⟨h.present, h.outputs⟩, fun h => ⟨h.present, h.outputs⟩⟩

theorem Category.Built.of_saved {t t' : FileTree} (h : c.saved.Built outs t t') :
    c.Built outs t t' :=
  ⟨h.backups, h.written, h.kept, h.document, h.stamped⟩

theorem Category.Failed.of_saved {t t' : FileTree} (h : c.saved.Failed t t') : c.Failed t t' :=
  ⟨h.backups, h.generated, h.putBack, h.kept, h.fresh⟩

theorem Category.IsManaged.saved (hc : c.IsManaged) : c.saved.IsManaged :=
  ⟨hc.definition, hc.path⟩

/-- Saving changes nothing that the build depends on. -/
theorem Category.Saves.pristine? {t t' : FileTree} (h : c.Saves K t t') (hc : c.IsManaged) :
    ∀ b ∈ c.definition.bindings, b.pristine? t' = b.pristine? t := by
  intro b hb
  rw [hc.definition] at hb
  exact Binding.pristine?_congr fun p hp => h.changes.frame p fun heq =>
    c.kind.documentPath_notMem (heq ▸ CategoryKind.paths_subset hb hp)

/-- Once the document is saved, the files are built. -/
theorem Category.exec_regenerate_of_save {w₁ : World} {saved : Bool}
    (hsave : Action.exec (c.store.save v.project) w = (.ok (c.saved.store, saved), w₁)) :
    Run.exec (c.regenerate v) w =
      (((Action.exec (c.saved.rebuild v) w₁).1, c.saved),
        (Action.exec (c.saved.rebuild v) w₁).2) := by
  rw [Category.regenerate, Run.exec_bind_of_eq ((Run.exec_attempt _ _).trans hsave)]
  rfl

/-- What a regeneration does to a tree: the document is saved, and the build goes through or
fails. -/
def Category.Regenerates (K : List CategoryKind) (v : Workshop) (c : Category)
    (r : Except Failure Unit) (t t' : FileTree) : Prop :=
  ∃ t₁, c.Saves K t t₁ ∧ t₁.Changes (trackedPaths K) (· ∈ c.kind.ownPaths) t' ∧
    ((∃ outs, r = .ok () ∧ c.Builds v t outs ∧ c.Built outs t₁ t') ∨
      (∃ e, r = .error e) ∧ (∀ outs, ¬ c.Builds v t outs) ∧ c.Failed t₁ t' ∧
        t'.file? c.kind.documentPath = t₁.file? c.kind.documentPath)

/-- **What a regeneration does.** -/
theorem exists_regenerate (hv : v.write = writeAnnounced v.project) (hc : c.IsManaged)
    (hk : c.kind ∈ K) (hclear : w.tree.Clear (trackedPaths K)) :
    ∃ r w', Run.exec (c.regenerate v) w = ((r, c.saved), w') ∧
      c.Regenerates K v r w.tree w'.tree ∧ Told [] w w' := by
  obtain ⟨w₁, hsave, hsaves, htold⟩ := exists_save v.project hc hk hclear
  have hclear₁ := hsaves.changes.clear hclear
  have hpristine := hsaves.pristine? hc
  have hexec := Category.exec_regenerate_of_save hsave
  by_cases hbuilds : ∃ outs, c.Builds v w.tree outs
  · obtain ⟨outs, hbuilds⟩ := hbuilds
    obtain ⟨w₂, hrebuild, heffect, hbuilt⟩ := exists_rebuild_of_builds hv hc.saved hk hclear₁
      hsaves.document (Category.Builds.saved_iff.2 (hbuilds.congr hc.definition hpristine))
    rw [hrebuild] at hexec
    exact ⟨.ok (), w₂, hexec, ⟨w₁.tree, hsaves, heffect.changes,
      Or.inl ⟨outs, rfl, hbuilds, hbuilt.of_saved⟩⟩, htold.trans heffect.told⟩
  · have hnot : ∀ outs, ¬ c.saved.Builds v w₁.tree outs := fun outs h =>
      hbuilds ⟨outs, (Category.Builds.saved_iff.1 h).congr hc.definition fun b hb =>
        (hpristine b hb).symm⟩
    obtain ⟨e, w₂, hrebuild, heffect, hfailed⟩ :=
      exists_rebuild_of_not_builds hc.saved hk hclear₁ hnot
    rw [hrebuild] at hexec
    exact ⟨.error e, w₂, hexec, ⟨w₁.tree, hsaves,
      heffect.changes.mono fun p hp => List.mem_cons_of_mem _ hp, Or.inr ⟨⟨e, rfl⟩,
        fun outs h => hbuilds ⟨outs, h⟩, hfailed.of_saved,
        heffect.changes.frame _ c.kind.documentPath_notMem⟩⟩, htold.trans heffect.told⟩

end

end TableSync
