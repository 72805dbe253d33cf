import TableSync.Manager.Basic
import TableSync.Proofs.Manager.Extraction

/-!
# Work on a category spares the others

Saving a document, writing files from it and putting files back leave alone what is at other paths
than those of the category, whether or not they go through.

* `avoids_ownPaths` says that the paths of two categories keep out of each other's way: none of the
  one is on the way to one of the other, so no directory that is made for the first is a file of the
  second.
* `Category.IsApart` says that certain paths keep out of the way of the files of a category, with
  one lemma for each of its files: the document, the bound and the generated ones, and those that
  are written.
* `spares_save`, `spares_ensureBackups` and `spares_restoreFiles` are about the parts.
* `Category.spares_rebuild` and the lemmas before it put the parts of a build together; a build that
  fails has two tries, and neither of them leaves the paths of the category.

The parts of this work tell of no step, so the property of steps that `Run.Spares` asks for may be
any one here; what is told of a category is recorded when the work on it has ended.
-/

set_option autoImplicit false

namespace TableSync

variable {spared : Path → Prop} {told : Step → Prop} (project : Project)

/-! ## Where the files of categories are -/

/-- No tracked path is on the way to another one. -/
theorem not_prefix_of_tracked {K : List CategoryKind} {p q : Path} (hp : p ∈ trackedPaths K)
    (hq : q ∈ trackedPaths K) (hne : p ≠ q) : ¬ p <+: q := fun hprefix =>
  (Path.eq_or_prefix_dropLast hprefix).elim hne (apart_trackedPaths K q hq p hp)

/-- The files of a category are not on the way to those of another one. -/
theorem avoids_ownPaths {j k : CategoryKind} (hne : j ≠ k) :
    ∀ q ∈ j.ownPaths, Avoids (· ∈ k.ownPaths) q := by
  intro q hq p hp
  refine not_prefix_of_tracked (mem_trackedPaths_own k.mem_all hp)
    (mem_trackedPaths_own j.mem_all hq) ?_
  rintro rfl
  exact hne (CategoryKind.eq_of_mem_ownPaths hq hp)

/-! ## Documents -/

theorem spares_forceSave {s : Store} (h : Avoids spared s.path) :
    Action.Spares spared told (s.forceSave project) :=
  .bind (spares_ensureParent project h) fun _ =>
    .bind (.change fun _ _ hwrite _ hp => FileTree.node?_of_write hwrite (h.ne hp)) fun _ =>
      .pure _

theorem spares_save {s : Store} (h : Avoids spared s.path) :
    Action.Spares spared told (s.save project) := by
  refine .bind (.look _) fun dirty => ?_
  cases dirty with
  | false => exact .pure _
  | true => exact .bind (spares_forceSave project h) fun _ => .pure _

/-! ## Bound and generated files -/

theorem Binding.spares_apply {b : Binding} (h : Avoids spared b.backup) :
    Action.Spares spared told (b.apply project) := by
  refine .bind (.look _) fun there => ?_
  cases there with
  | true => exact .pure _
  | false =>
    refine .bind (.look _) fun present => ?_
    cases present with
    | false => exact .throw _
    | true => exact .bind (spares_copyFile project h) fun _ => .pure _

theorem Binding.spares_remove {b : Binding} (hfile : Avoids spared b.file)
    (hbackup : Avoids spared b.backup) : Action.Spares spared told (b.remove project) := by
  refine .bind (.look _) fun there => ?_
  cases there with
  | false => exact .pure _
  | true =>
    exact .bind (spares_copyFile project hfile) fun _ =>
      .bind (spares_removeExisting project hbackup) fun _ => .pure _

theorem GeneratedFile.spares_remove {g : GeneratedFile} (h : Avoids spared g.path) :
    Action.Spares spared told (g.remove project) := by
  refine .bind (.look _) fun there => ?_
  cases there with
  | false => exact .pure _
  | true => exact .bind (spares_removeExisting project h) fun _ => .pure _

theorem spares_ensureBackups {bs : List Binding} (h : ∀ b ∈ bs, Avoids spared b.backup) :
    Action.Spares spared told (ensureBackups project bs) := by
  induction bs with
  | nil => exact .pure _
  | cons b rest ih =>
    obtain ⟨hb, hrest⟩ := List.forall_mem_cons.1 h
    exact .bind (b.spares_apply project hb) fun _ => ih hrest

theorem spares_countApplied {as : List (Action Change)}
    (h : ∀ a ∈ as, Action.Spares spared told a) : Action.Spares spared told (countApplied as) := by
  induction as with
  | nil => exact .pure _
  | cons a rest ih =>
    obtain ⟨ha, hrest⟩ := List.forall_mem_cons.1 h
    exact .bind ha fun _ => .bind (ih hrest) fun _ => .pure _

theorem spares_restoreFiles {bs : List Binding} {gs : List GeneratedFile}
    (hbs : ∀ b ∈ bs, Avoids spared b.file ∧ Avoids spared b.backup)
    (hgs : ∀ g ∈ gs, Avoids spared g.path) :
    Action.Spares spared told (restoreFiles project bs gs) := by
  refine spares_countApplied (List.forall_mem_append.2 ⟨?_, ?_⟩)
  · exact List.forall_mem_map.2 fun b hb => b.spares_remove project (hbs b hb).1 (hbs b hb).2
  · exact List.forall_mem_map.2 fun g hg => g.spares_remove project (hgs g hg)

/-! ## Categories

A program is gone through in its own order, and each of its steps cites the lemma on it.  Nothing is
known of the outcome of a step but that it is one. -/

namespace Category

variable {c : Category} {v : Workshop}

/-- The category is managed, and certain paths keep out of the way of its files. -/
structure IsApart (spared : Path → Prop) (c : Category) : Prop where
  /-- The category is at its place. -/
  managed : c.IsManaged
  /-- No path that is spared is one of its files, or leads to one. -/
  own : ∀ q ∈ c.kind.ownPaths, Avoids spared q

namespace IsApart

theorem document (h : c.IsApart spared) : Avoids spared c.store.path := by
  rw [h.managed.path]
  exact h.own _ List.mem_cons_self

theorem bound (h : c.IsApart spared) :
    ∀ b ∈ c.definition.bindings, Avoids spared b.file ∧ Avoids spared b.backup := by
  intro b hb
  rw [h.managed.definition] at hb
  have hpaths : ∀ p ∈ b.paths, Avoids spared p := fun p hp =>
    h.own p (List.mem_cons_of_mem _ (CategoryKind.paths_subset hb hp))
  exact ⟨hpaths _ b.file_mem_paths, hpaths _ b.backup_mem_paths⟩

theorem generated (h : c.IsApart spared) : ∀ g ∈ c.definition.generated, Avoids spared g.path := by
  intro g hg
  rw [h.managed.definition] at hg
  exact h.own _ (List.mem_cons_of_mem _ (CategoryKind.generated_mem hg))

theorem written (h : c.IsApart spared) : ∀ p ∈ c.definition.writtenPaths, Avoids spared p := by
  intro p hp
  rw [h.managed.definition] at hp
  exact h.own p (List.mem_cons_of_mem _
    (CategoryKind.outputPaths_subset (CategoryKind.mem_outputPaths_iff.2 hp)))

theorem of_succeeds {c' : Category} (h : c.IsApart spared) (hsucceeds : c.Succeeds c') :
    c'.IsApart spared := by
  refine ⟨hsucceeds.managed h.managed, ?_⟩
  rw [hsucceeds.kind]
  exact h.own

end IsApart

theorem spares_writeOutputs (hv : v.write = writeAnnounced v.project)
    {outs : List (String × Text)} (h : ∀ o ∈ outs, Avoids spared (Project.sourcePath o.1)) :
    Action.Spares spared told (writeOutputs v.write outs) := by
  induction outs with
  | nil => exact .pure ()
  | cons o rest ih =>
    obtain ⟨ho, hrest⟩ := List.forall_mem_cons.1 h
    have hwrite : Action.Spares spared told (v.write o.1 o.2) := by
      rw [hv]
      exact .bind (.say _ _) fun _ => spares_writeSource v.project ho
    exact .bind hwrite fun _ => ih hrest

/-- The texts that are written stand in the files of the category. -/
theorem IsApart.outputs (h : c.IsApart spared) {constants : ConstantTable}
    {pristine : String → Result Text} {outs : List (String × Text)}
    (houts : c.definition.outputs constants c.store.records pristine = .ok outs) :
    ∀ o ∈ outs, Avoids spared (Project.sourcePath o.1) := by
  rw [h.managed.definition] at houts
  have hpaths := CategoryDef.outputs_paths houts
  intro o ho
  have hmem : Project.sourcePath o.1 ∈ outs.map fun o => Project.sourcePath o.1 :=
    List.mem_map_of_mem ho
  rw [hpaths] at hmem
  split at hmem
  · exact h.own _ (List.mem_cons_of_mem _ (CategoryKind.outputPaths_subset hmem))
  · exact absurd hmem List.not_mem_nil

theorem spares_generateOnce (hv : v.write = writeAnnounced v.project) (h : c.IsApart spared) :
    Action.Spares spared told (c.generateOnce v) := by
  refine .bind (spares_ensureBackups v.project fun b hb => (h.bound b hb).2) fun _ => ?_
  have houtputs : ∀ tree, Action.Spares spared told (do
      let outputs ← Action.ofResult <| c.definition.outputs v.constants c.store.records fun rel =>
        sourceText v.project tree (Binding.backup ⟨rel⟩)
      writeOutputs v.write outputs) := by
    intro tree
    cases houts : c.definition.outputs v.constants c.store.records fun rel =>
        sourceText v.project tree (Binding.backup ⟨rel⟩) with
    | error f => exact .throw f
    | ok outs => exact spares_writeOutputs hv (h.outputs houts)
  exact fun t => houtputs t t

theorem spares_rollback (h : c.IsApart spared) :
    Action.Spares spared told (c.rollback project) :=
  .bind (.inContext (spares_restoreFiles project h.bound h.generated) _) fun _ => .pure ()

theorem spares_stampAll {time : Nat} {ps : List Path} (h : ∀ p ∈ ps, Avoids spared p) :
    Action.Spares spared told (stampAll project time ps) := by
  induction ps with
  | nil => exact .pure ()
  | cons p rest ih =>
    obtain ⟨hp, hrest⟩ := List.forall_mem_cons.1 h
    refine .bind (.look _) fun there => ?_
    cases there with
    | false => exact ih hrest
    | true => exact .bind (spares_stampFile project hp) fun _ => ih hrest

theorem spares_stamp (h : c.IsApart spared) : Action.Spares spared told (c.stamp project) :=
  .bind .now fun _ => .bind (spares_stampAll project h.written) fun _ =>
    spares_stampFile project h.document

theorem spares_rebuild (hv : v.write = writeAnnounced v.project) (h : c.IsApart spared) :
    Action.Spares spared told (c.rebuild v) := by
  refine .bind (.attempt (spares_generateOnce hv h)) fun first => ?_
  cases first with
  | ok _ => exact spares_stamp v.project h
  | error _ =>
    refine .bind (.say _ _) fun _ => .bind (spares_rollback v.project h) fun _ =>
      .bind (.attempt (spares_generateOnce hv h)) fun second => ?_
    cases second with
    | ok _ => exact spares_stamp v.project h
    | error _ => exact .bind (spares_rollback v.project h) fun _ => .throw _

end Category

end TableSync
