import TableSync.Manager.Basic
import TableSync.Proofs.Manager.Extraction

/-!
# What one step on a category does

Every step on a category, whichever operation it belongs to, does one of five things to the tree;
what is preserved by these is preserved by all operations.

* `Category.Acts` lists what a step can do to the tree: nothing, an extraction, saving a document, a
  regeneration, or putting files back.  `Category.Acts.changes` says which files that concerns.
* `StepActs` says of a kind of step that it acts on every category in one of these ways, whatever
  state that is in and whether or not it goes through.
* `loadCategory_acts`, `openCategory_acts`, `persistCategory_acts`, `regenerateIfDue_acts` and
  `restoreCategory_acts` are the steps.
* `outcomeStep` is the step that is recorded for an outcome.  Every kind of work on a category ends
  with recording one, by `exec_recorded`, so what is told of a category is read off its outcome.
* `Category.IsDue` says whether a regeneration of all categories writes the files of this one;
  `exists_regenerateIfDue_of_isDue` and `exists_regenerateIfDue_of_rests` are the two cases.

An operation that is added needs one lemma here, and is covered by everything that is said of steps.
-/

set_option autoImplicit false

namespace TableSync

/-! ## Telling outcomes -/

/-- The step that is recorded for an outcome. -/
def outcomeStep (phase : Phase) (id : String) : Except Failure Outcome → Step
  | .ok (.done detail?) => ⟨phase, id, .done, detail?⟩
  | .ok (.unchanged reason) => ⟨phase, id, .unchanged, some reason⟩
  | .ok (.skipped reason) => ⟨phase, id, .skipped, some reason⟩
  | .ok .dryRun => ⟨phase, id, .dryRun, none⟩
  | .error f => ⟨phase, id, .failed, some f.message⟩

/-- A message leaves the tree alone and is no step. -/
theorem exists_say (level : Level) (text : String) (w : World) :
    ∃ w', Run.exec (say level text) w = ((), w') ∧ w'.tree = w.tree ∧ Told [] w w' :=
  ⟨_, rfl, rfl, [.message level text], rfl, rfl⟩

/-- Recording an outcome tells one step and leaves the tree alone. -/
theorem exists_recordOutcome (phase : Phase) (id : String) (r : Except Failure Outcome)
    (w : World) : ∃ w', Run.exec (recordOutcome phase id r) w = ((), w') ∧ w'.tree = w.tree ∧
      Told [outcomeStep phase id r] w w' := by
  have hsay : ∀ (level : Level) (text : String) (s : Step),
      ∃ w', Run.exec (do say level text; tell (.step s)) w = ((), w') ∧ w'.tree = w.tree ∧
        Told [s] w w' := fun level text s =>
    ⟨_, rfl, rfl, [.message level text, .step s], List.append_assoc _ _ _, rfl⟩
  have htell : ∀ s : Step, ∃ w', Run.exec (tell (.step s)) w = ((), w') ∧ w'.tree = w.tree ∧
      Told [s] w w' := fun s => ⟨_, rfl, rfl, [.step s], rfl, rfl⟩
  cases r with
  | error f => exact hsay _ _ _
  | ok outcome =>
    cases outcome with
    | done detail => exact htell _
    | unchanged reason => exact hsay _ _ _
    | skipped reason => exact hsay _ _ _
    | dryRun => exact htell _

/-! ## What a step can do

The cases are said of two trees and a category, with nothing of the program that led from one tree
to the other; so two steps that do the same are the same case. -/

/-- The bound files are put back and the generated files are gone. -/
structure Category.Restores (K : List CategoryKind) (c : Category) (t t' : FileTree) : Prop where
  /-- Only bound and generated files have been changed, and backups. -/
  changes : t.Changes (trackedPaths K) (· ∈ c.kind.managedPaths) t'
  /-- Every backup is gone, and its file has the pristine content. -/
  backups : ∀ b ∈ c.definition.bindings,
    t'.file? b.backup = none ∧ t'.content? b.file = b.pristine? t
  /-- No generated file is there. -/
  generated : ∀ g ∈ c.definition.generated, t'.file? g.path = none

/-- What a step on a category can do to the tree. -/
inductive Category.Acts (K : List CategoryKind) (c : Category) (t t' : FileTree) : Prop
  | rests (h : t' = t)
  | extracts (h : t.Changes (trackedPaths K) c.kind.Extracts t')
  | saves (h : c.Saves K t t')
  | regenerates (v : Workshop) (r : Except Failure Unit) (h : c.Regenerates K v r t t')
  | restores (h : c.Restores K t t')

namespace CategoryKind

/-- The files that the work on a category may change. -/
def Touches (k : CategoryKind) (p : Path) : Prop := p ∈ k.ownPaths ∨ IsProcessed p

end CategoryKind

variable {K : List CategoryKind} {c : Category} {t t' : FileTree}

theorem Category.Saves.changes_own (h : c.Saves K t t') :
    t.Changes (trackedPaths K) (· ∈ c.kind.ownPaths) t' := by
  refine h.changes.mono ?_
  rintro p rfl
  exact List.mem_cons_self

theorem Category.Regenerates.changes {v : Workshop} {r : Except Failure Unit}
    (h : c.Regenerates K v r t t') : t.Changes (trackedPaths K) (· ∈ c.kind.ownPaths) t' := by
  obtain ⟨t₁, hsaves, hchanges, -⟩ := h
  exact hsaves.changes_own.trans hchanges

/-- A step changes only files of its category and what the preprocessor writes. -/
theorem Category.Acts.changes (h : c.Acts K t t') :
    t.Changes (trackedPaths K) c.kind.Touches t' := by
  cases h with
  | rests h =>
    rw [h]
    exact .refl _ _ _
  | extracts h =>
    refine h.mono ?_
    rintro p (rfl | hp)
    · exact Or.inl List.mem_cons_self
    · exact Or.inr hp
  | saves h => exact h.changes_own.mono fun p hp => Or.inl hp
  | regenerates v r h => exact h.changes.mono fun p hp => Or.inl hp
  | restores h => exact h.changes.mono fun p hp => Or.inl (List.mem_cons_of_mem _ hp)

/-! ## The steps -/

/-- A step on a category, whatever its state, acts on it and leaves it in its place. -/
def StepActs (K : List CategoryKind) (step : Category → Run (Nat × Category)) : Prop :=
  ∀ (c : Category) (w : World), c.IsManaged → c.kind ∈ K → w.tree.Clear (trackedPaths K) →
    c.Succeeds (Run.exec (step c) w).1.2 ∧ c.Acts K w.tree (Run.exec (step c) w).2.tree

variable {w : World} {v : Workshop} (project : Project)

/-- Work on a category whose outcome is recorded at its end. -/
theorem exec_recorded (a : Run (Except Failure Outcome × Category)) (phase : Phase) (n : Nat)
    (w : World) : ∃ w', Run.exec (do
        let (outcome, c) ← a
        recordOutcome phase c.id outcome
        return (n, c)) w = ((n, (Run.exec a w).1.2), w') ∧
      w'.tree = (Run.exec a w).2.tree := by
  obtain ⟨w', hrecord, htree, -⟩ := exists_recordOutcome phase (Run.exec a w).1.2.id
    (Run.exec a w).1.1 (Run.exec a w).2
  refine ⟨w', ?_, htree⟩
  rw [Run.exec_bind]
  exact Run.exec_bind_of_eq hrecord _

theorem exec_loadCategory (v : Workshop) (force : Bool) (c : Category) (w : World) :
    ∃ w₀ w', w₀.tree = w.tree ∧ Run.exec (Manager.loadCategory v force c) w =
        ((0, (Run.exec (c.load v force) w₀).1.2), w') ∧
      w'.tree = (Run.exec (c.load v force) w₀).2.tree := by
  obtain ⟨w₀, hsay, htree₀, -⟩ := exists_say .stage s!"{Phase.extract.verb} {c.id}" w
  obtain ⟨w', hexec, htree⟩ := exec_recorded (c.load v force) .extract 0 w₀
  exact ⟨w₀, w', htree₀, (Run.exec_bind_of_eq hsay _).trans hexec, htree⟩

/-- Loading a category extracts it or changes nothing. -/
theorem loadCategory_acts (hv : v.preprocessor.IsConfined) (force : Bool) :
    StepActs K (Manager.loadCategory v force) := by
  intro c w hc hk hclear
  obtain ⟨w₀, w', htree₀, hexec, htree⟩ := exec_loadCategory v force c w
  rw [← htree₀] at hclear ⊢
  obtain ⟨hsucceeds, hchanges⟩ := load_spec hv hc hk hclear force
  rw [hexec]
  refine ⟨hsucceeds, .extracts ?_⟩
  rw [htree]
  exact hchanges

theorem exec_openCategory (c : Category) (w : World) :
    ∃ w', Run.exec (Manager.openCategory project c) w =
        ((0, (Run.exec (c.openDocument project) w).1.2), w') ∧ w'.tree = w.tree := by
  obtain ⟨w', hexec, htree⟩ := exec_recorded (c.openDocument project) .load 0 w
  exact ⟨w', hexec, htree.trans (congrArg World.tree (openDocument_spec project c w).2)⟩

/-- Opening a category changes nothing. -/
theorem openCategory_acts : StepActs K (Manager.openCategory project) := by
  intro c w hc hk hclear
  obtain ⟨w', hexec, htree⟩ := exec_openCategory project c w
  rw [hexec]
  exact ⟨(openDocument_spec project c w).1, .rests htree⟩

/-- The category after its document has been saved if it may be used. -/
def Category.persisted (c : Category) : Category := if c.trusted then c.saved else c

/-- Saving a category. -/
theorem exists_persist (hc : c.IsManaged) (hk : c.kind ∈ K)
    (hclear : w.tree.Clear (trackedPaths K)) :
    ∃ w', Run.exec (c.persist project) w =
        ((.ok (c.store.isDirty w.tree), c.saved), w') ∧ c.Saves K w.tree w'.tree := by
  obtain ⟨w', hsave, hsaves, -⟩ := exists_save project hc hk hclear
  refine ⟨w', ?_, hsaves⟩
  rw [Category.persist, Run.exec_bind_of_eq ((Run.exec_attempt _ _).trans hsave)]
  rfl

/-- Saving a category that may be used. -/
theorem exists_persistCategory (hc : c.IsManaged) (hk : c.kind ∈ K)
    (hclear : w.tree.Clear (trackedPaths K)) :
    ∃ n w', Run.exec (Manager.persistCategory project c) w = ((n, c.persisted), w') ∧
      (c.trusted = false ∧ w'.tree = w.tree ∨
        c.trusted = true ∧ c.Saves K w.tree w'.tree) := by
  rw [Category.persisted]
  cases htrusted : c.trusted with
  | false =>
    refine ⟨0, w, ?_, Or.inl ⟨rfl, rfl⟩⟩
    rw [Manager.persistCategory, htrusted]
    rfl
  | true =>
    obtain ⟨w₁, hpersist, hsaves⟩ := exists_persist project hc hk hclear
    cases hdirty : c.store.isDirty w.tree with
    | true =>
      obtain ⟨w', hrecord, htree, -⟩ :=
        exists_recordOutcome .persist c.id (.ok (.done none)) w₁
      refine ⟨1, w', ?_, Or.inr ⟨rfl, by rw [htree]; exact hsaves⟩⟩
      rw [hdirty] at hpersist
      rw [Manager.persistCategory, htrusted]
      exact (Run.exec_bind_of_eq hpersist _).trans (Run.exec_bind_of_eq hrecord _)
    | false =>
      obtain ⟨w', hrecord, htree, -⟩ :=
        exists_recordOutcome .persist c.id (.ok (.unchanged "no edits")) w₁
      refine ⟨0, w', ?_, Or.inr ⟨rfl, by rw [htree]; exact hsaves⟩⟩
      rw [hdirty] at hpersist
      rw [Manager.persistCategory, htrusted]
      exact (Run.exec_bind_of_eq hpersist _).trans (Run.exec_bind_of_eq hrecord _)

theorem Category.persisted_succeeds (c : Category) : c.Succeeds c.persisted := by
  rw [persisted]
  split
  · exact .of_eq rfl rfl
  · exact .refl c

/-- Saving a category saves its document or changes nothing. -/
theorem persistCategory_acts : StepActs K (Manager.persistCategory project) := by
  intro c w hc hk hclear
  obtain ⟨n, w', hexec, hsaves⟩ := exists_persistCategory project hc hk hclear
  rw [hexec]
  refine ⟨c.persisted_succeeds, ?_⟩
  rcases hsaves with ⟨-, htree⟩ | ⟨-, hsaves⟩
  · exact .rests htree
  · exact .saves hsaves

/-! ## Regenerating

A dry run decides as a build does, and tells what it has decided instead of doing it. -/

/-- Whether the files of a category are written by the next regeneration of all categories. -/
def Category.IsDue (c : Category) (t : FileTree) : Prop :=
  c.trusted = true ∧ c.regenerationDue t = true

theorem exec_look_of_eq {α : Type} {f : FileTree → α} {a : α} (h : f w.tree = a) :
    Run.exec (look f) w = (a, w) := by
  rw [Run.exec_look, h]

instance (c : Category) (t : FileTree) : Decidable (c.IsDue t) :=
  inferInstanceAs (Decidable (_ ∧ _))

/-- The step that a dry run tells of for a category. -/
def Category.foretold (c : Category) (t : FileTree) : Step :=
  if c.trusted = false then ⟨.build, c.id, .skipped, some "records not loaded"⟩
  else if c.IsDue t then ⟨.build, c.id, .dryRun, none⟩
  else ⟨.build, c.id, .unchanged, some "up to date"⟩

/-- Nothing is said to be done or to have failed. -/
theorem Category.foretold_eq (c : Category) (t : FileTree) : ∃ status detail?,
    c.foretold t = ⟨.build, c.id, status, detail?⟩ ∧ status ≠ .done ∧ status ≠ .failed := by
  rw [Category.foretold]
  split
  · exact ⟨_, _, rfl, StepStatus.noConfusion, StepStatus.noConfusion⟩
  · split
    · exact ⟨_, _, rfl, StepStatus.noConfusion, StepStatus.noConfusion⟩
    · exact ⟨_, _, rfl, StepStatus.noConfusion, StepStatus.noConfusion⟩

/-- A category that is not due, or in a dry run, is left alone, and one step is told of. -/
theorem exists_regenerateIfDue_foretold (dryRun : Bool)
    (hrests : c.IsDue w.tree → dryRun = true) :
    ∃ w', Run.exec (Manager.regenerateIfDue v dryRun c) w =
        ((if c.IsDue w.tree then 1 else 0, c), w') ∧
      w'.tree = w.tree ∧ Told [c.foretold w.tree] w w' := by
  cases htrusted : c.trusted with
  | false =>
    obtain ⟨w', hrecord, htree, htold⟩ :=
      exists_recordOutcome .build c.id (.ok (.skipped "records not loaded")) w
    have hnot : ¬ c.IsDue w.tree := fun hdue => Bool.noConfusion (htrusted.symm.trans hdue.1)
    rw [Category.foretold, if_pos htrusted, if_neg hnot, Manager.regenerateIfDue, htrusted]
    exact ⟨w', Run.exec_bind_of_eq hrecord _, htree, htold⟩
  | true =>
    have hloaded : c.trusted ≠ false := by simp [htrusted]
    cases hdue : c.regenerationDue w.tree with
    | false =>
      obtain ⟨w', hrecord, htree, htold⟩ :=
        exists_recordOutcome .build c.id (.ok (.unchanged "up to date")) w
      have hnot : ¬ c.IsDue w.tree := fun hdue' => Bool.noConfusion (hdue.symm.trans hdue'.2)
      rw [Category.foretold, if_neg hloaded, if_neg hnot, if_neg hnot, Manager.regenerateIfDue,
        htrusted]
      exact ⟨w', (Run.exec_bind_of_eq (exec_look_of_eq hdue) _).trans
        (Run.exec_bind_of_eq hrecord _), htree, htold⟩
    | true =>
      obtain rfl := hrests ⟨htrusted, hdue⟩
      obtain ⟨w₀, hsay, htree₀, htold₀⟩ := exists_say .dryRun s!"would regenerate {c.id}" w
      obtain ⟨w', hrecord, htree, htold⟩ :=
        exists_recordOutcome .build c.id (.ok .dryRun) w₀
      rw [Category.foretold, if_neg hloaded, if_pos ⟨htrusted, hdue⟩, if_pos ⟨htrusted, hdue⟩,
        Manager.regenerateIfDue, htrusted]
      refine ⟨w', ?_, htree.trans htree₀, htold₀.trans htold⟩
      refine (Run.exec_bind_of_eq (exec_look_of_eq hdue) _).trans ?_
      exact (Run.exec_bind_of_eq hsay _).trans (Run.exec_bind_of_eq hrecord _)

/-- A category that is not due, or in a dry run, is left alone. -/
theorem exists_regenerateIfDue_of_rests (dryRun : Bool) (hrests : c.IsDue w.tree → dryRun = true) :
    ∃ n w' status detail?, Run.exec (Manager.regenerateIfDue v dryRun c) w = ((n, c), w') ∧
      w'.tree = w.tree ∧ (¬ c.IsDue w.tree → n = 0) ∧
      Told [⟨.build, c.id, status, detail?⟩] w w' ∧ status ≠ .done ∧ status ≠ .failed := by
  obtain ⟨w', hexec, htree, htold⟩ := exists_regenerateIfDue_foretold (v := v) dryRun hrests
  obtain ⟨status, detail?, heq, hstatus⟩ := c.foretold_eq w.tree
  exact ⟨_, w', status, detail?, hexec, htree, fun hnot => if_neg hnot, heq ▸ htold, hstatus⟩

/-- A category that is due is regenerated. -/
theorem exists_regenerateIfDue_of_isDue (hv : v.write = writeAnnounced v.project)
    (hc : c.IsManaged) (hk : c.kind ∈ K) (hclear : w.tree.Clear (trackedPaths K))
    (hdue : c.IsDue w.tree) :
    ∃ r w', Run.exec (Manager.regenerateIfDue v false c) w = ((1, c.saved), w') ∧
      c.Regenerates K v r w.tree w'.tree ∧
      Told [outcomeStep .build c.id (r.map fun () => .done none)] w w' := by
  obtain ⟨htrusted, hdue⟩ := hdue
  obtain ⟨w₀, hsay, htree₀, htold₀⟩ := exists_say .stage s!"{Phase.build.verb} {c.id}" w
  rw [← htree₀] at hclear
  obtain ⟨r, w₁, hexec, hregenerates, htold⟩ := exists_regenerate hv hc hk hclear
  obtain ⟨w', hrecord, htree, htold'⟩ :=
    exists_recordOutcome .build c.id (r.map fun () => .done none) w₁
  rw [← htree, htree₀] at hregenerates
  refine ⟨r, w', ?_, hregenerates, (htold₀.trans htold).trans htold'⟩
  rw [Manager.regenerateIfDue, htrusted]
  refine (Run.exec_bind_of_eq (exec_look_of_eq hdue) _).trans ?_
  refine (Run.exec_bind_of_eq hsay _).trans ?_
  exact (Run.exec_bind_of_eq hexec _).trans (Run.exec_bind_of_eq hrecord _)

theorem Category.saved_succeeds (c : Category) : c.Succeeds c.saved := .of_eq rfl rfl

/-- Regenerating a category where that is due regenerates it or changes nothing. -/
theorem regenerateIfDue_acts (hv : v.write = writeAnnounced v.project) (dryRun : Bool) :
    StepActs K (Manager.regenerateIfDue v dryRun) := by
  intro c w hc hk hclear
  by_cases hrests : c.IsDue w.tree → dryRun = true
  · obtain ⟨n, w', status, detail, hexec, htree, -⟩ := exists_regenerateIfDue_of_rests dryRun hrests
    rw [hexec]
    exact ⟨.refl c, .rests htree⟩
  · obtain ⟨hdue, hdry⟩ := Classical.not_imp.1 hrests
    obtain rfl : dryRun = false := by simpa using hdry
    obtain ⟨r, w', hexec, hregenerates, -⟩ := exists_regenerateIfDue_of_isDue hv hc hk hclear hdue
    rw [hexec]
    exact ⟨c.saved_succeeds, .regenerates v r hregenerates⟩

/-! ## Restoring -/

/-- The bound files of a category are put back; where there is nothing to put back, nothing is
changed. -/
theorem exists_restoreCategory (hc : c.IsManaged) (hk : c.kind ∈ K)
    (hclear : w.tree.Clear (trackedPaths K)) :
    ∃ n w', Run.exec (Manager.restoreCategory project c) w = ((n, c), w') ∧
      c.Restores K w.tree w'.tree ∧ ((∀ b ∈ c.definition.bindings, ¬ w.tree.HasFile b.backup) →
        (∀ g ∈ c.definition.generated, ¬ w.tree.HasFile g.path) → n = 0 ∧ w'.tree = w.tree) := by
  obtain ⟨n, w₁, hrestore, heffect, hput, hgone, hnothing⟩ := exists_restoreFiles project
    (apart_trackedPaths K) (hc.bindings_mem hk) (hc.generated_mem hk) hc.nodup hclear
  rw [hc.managed_eq] at heffect
  have hrestores : c.Restores K w.tree w₁.tree :=
    ⟨heffect.changes, fun b hb => ⟨(hput b hb).backup, (hput b hb).content?_file⟩, hgone⟩
  have hattempt := (Run.exec_attempt _ w).trans hrestore
  cases n with
  | zero =>
    obtain ⟨w', hrecord, htree, -⟩ :=
      exists_recordOutcome .restore c.id (.ok (.unchanged "nothing to restore")) w₁
    refine ⟨0, w', ?_, by rw [htree]; exact hrestores, fun hbackups hgenerated => ⟨rfl, ?_⟩⟩
    · rw [Manager.restoreCategory, Run.exec_bind_of_eq hattempt]
      exact Run.exec_bind_of_eq hrecord _
    · rw [htree, (hnothing hbackups hgenerated).2]
  | succ n =>
    obtain ⟨w', hrecord, htree, -⟩ :=
      exists_recordOutcome .restore c.id (.ok (.done (some s!"{n + 1} files"))) w₁
    refine ⟨n + 1, w', ?_, by rw [htree]; exact hrestores, fun hbackups hgenerated => ?_⟩
    · rw [Manager.restoreCategory, Run.exec_bind_of_eq hattempt]
      exact Run.exec_bind_of_eq hrecord _
    · exact absurd (hnothing hbackups hgenerated).1 (Nat.succ_ne_zero n)

theorem restoreCategory_acts : StepActs K (Manager.restoreCategory project) := by
  intro c w hc hk hclear
  obtain ⟨n, w', hexec, hrestores, -⟩ := exists_restoreCategory project hc hk hclear
  rw [hexec]
  exact ⟨.refl c, .restores hrestores⟩

end TableSync
