import TableSync.Proofs.Manager.Absent
import TableSync.Proofs.Manager.FixedPoint

/-!
# A dry run foretells the build

A build decides in the turn of each category whether its files have to be written, and by then
others may have been written, put back and stamped.  A dry run decides the same of all categories as
they are at first.  Both come to the same, as the work on a category leaves alone what is at the
paths of the others, whether or not it goes through.

* `Step.Foretells` ties a step of a dry run to the step of the build in its place.  What is said to
  be done in the one is attempted in the other, and may fail there; a dry run cannot know that.
* `exists_regenerateIfDue_foretells` is about one category, in a tree that may differ elsewhere from
  the one that the dry run has seen.
* `overCategories_dryRun` and `overCategories_build` are about all of them, by induction on the
  categories that are left, with those that have been worked on spared by the rest.
* `regenerateAll_dryRun` compares the two runs: the files, the records, the steps and the counts.

Nothing is asked of the tree.  Directories in the place of files, or files on the way to others,
make builds fail, and the comparison holds all the same.
-/

set_option autoImplicit false

namespace TableSync

variable {c : Category} {cs : List Category} {K : List CategoryKind} {m : Manager} {t : FileTree}
  {v : Workshop} {w : World}

/-! ## One category -/

theorem Category.foretold_status_iff : (c.foretold t).status = .dryRun ↔ c.IsDue t := by
  rw [foretold]
  split
  · next htrusted =>
    refine ⟨fun h => StepStatus.noConfusion h, fun hdue => ?_⟩
    exact Bool.noConfusion (htrusted.symm.trans hdue.1)
  · split
    · next hdue => exact ⟨fun _ => hdue, fun _ => rfl⟩
    · next hnot => exact ⟨fun h => StepStatus.noConfusion h, fun hdue => absurd hdue hnot⟩

/-- Whether a step is the outcome of an attempt. -/
def Step.isAttempt (s : Step) : Bool := s.status = .done || s.status = .failed

/-- A step of a dry run and the step of the build in its place: what is said to be done in the one is
attempted in the other, and all else is the same. -/
def Step.Foretells (dry real : Step) : Prop :=
  if dry.status = .dryRun then
    real.isAttempt = true ∧ real.phase = dry.phase ∧ real.category = dry.category
  else real = dry ∧ real.isAttempt = false

/-- A regeneration tells of no steps by itself. -/
theorem exists_exec_regenerate (hv : v.write = writeAnnounced v.project) (hc : c.IsManaged)
    (w : World) : ∃ r c' w', Run.exec (c.regenerate v) w = ((r, c'), w') ∧ c'.id = c.id ∧
      Told [] w w' := by
  have hspares : Run.Spares (fun _ => False) (fun _ => False) (c.regenerate v) :=
    c.spares_regenerate hv ⟨hc, fun _ _ _ h => h.elim⟩
  obtain ⟨⟨r, c'⟩, t', new, hexec, htold, -⟩ := hspares w.tree
  have hstays := c.regenerate_stays v w
  rw [hexec w.events] at hstays
  exact ⟨r, c', _, hexec w.events, congrArg CategoryKind.id hstays.succeeds.kind, new, rfl,
    List.eq_nil_iff_forall_not_mem.2 htold⟩

/-- What is told of a category in a build has been foretold. -/
theorem exists_regenerateIfDue_foretells (hv : v.write = writeAnnounced v.project)
    (hc : c.IsManaged) (w : World) :
    ∃ c' w' s, Run.exec (Manager.regenerateIfDue v false c) w =
        ((if c.IsDue w.tree then 1 else 0, c'), w') ∧
      Told [s] w w' ∧ (c.foretold w.tree).Foretells s := by
  by_cases hdue : c.IsDue w.tree
  · obtain ⟨w₀, hsay, htree₀, htold₀⟩ := exists_say .stage s!"{Phase.build.verb} {c.id}" w
    obtain ⟨r, c', w₁, hexec, hid, htold₁⟩ := exists_exec_regenerate hv hc w₀
    obtain ⟨w', hrecord, -, htold'⟩ :=
      exists_recordOutcome .build c'.id (r.map fun () => .done none) w₁
    refine ⟨c', w', _, ?_, (htold₀.trans htold₁).trans htold', ?_⟩
    · rw [if_pos hdue, Manager.regenerateIfDue, hdue.1]
      refine (Run.exec_bind_of_eq (exec_look_of_eq hdue.2) _).trans ?_
      refine (Run.exec_bind_of_eq hsay _).trans ?_
      exact (Run.exec_bind_of_eq hexec _).trans (Run.exec_bind_of_eq hrecord _)
    · rw [Step.Foretells, if_pos (Category.foretold_status_iff.2 hdue), Category.foretold,
        if_neg (by simp [hdue.1]), if_pos hdue, hid]
      cases r <;> exact ⟨rfl, rfl, rfl⟩
  · obtain ⟨w', hexec, -, htold⟩ :=
      exists_regenerateIfDue_foretold (v := v) false fun h => absurd h hdue
    obtain ⟨status, detail?, heq, hdone, hfailed⟩ := c.foretold_eq w.tree
    refine ⟨c, w', _, hexec, htold, ?_⟩
    rw [Step.Foretells, if_neg (mt Category.foretold_status_iff.1 hdue), Step.isAttempt, heq]
    exact ⟨rfl, by simp [hdone, hfailed]⟩

/-! ## All categories -/

/-- A dry run changes nothing and tells of every category as it is. -/
theorem overCategories_dryRun (v : Workshop) (cs : List Category) (w : World) :
    ∃ w', Run.exec (overCategories (Manager.regenerateIfDue v true) cs) w =
        ((cs.countP fun c => c.IsDue w.tree, cs), w') ∧
      w'.tree = w.tree ∧ Told (cs.map fun c => c.foretold w.tree) w w' := by
  induction cs generalizing w with
  | nil => exact ⟨w, rfl, rfl, .refl w⟩
  | cons c cs ih =>
    obtain ⟨w₁, hfirst, htree₁, htold₁⟩ :=
      exists_regenerateIfDue_foretold (v := v) (c := c) (w := w) true fun _ => rfl
    obtain ⟨w', hrest, htree, htold⟩ := ih w₁
    rw [htree₁] at hrest htree htold
    refine ⟨w', ?_, htree, htold₁.trans htold⟩
    rw [exec_overCategories_cons, hfirst, hrest, List.countP_cons]
    simp only [decide_eq_true_eq, Nat.add_comm]

/-- **A build tells of every category what has been foretold of it**: in its turn, a category is due
exactly if it was due at first. -/
theorem overCategories_build (hv : v.write = writeAnnounced v.project) (hcs : AreManaged K cs)
    (hsame : ∀ c ∈ cs, ∀ p ∈ c.kind.ownPaths, w.tree.node? p = t.node? p) :
    ∃ cs' w' steps, Run.exec (overCategories (Manager.regenerateIfDue v false) cs) w =
        ((cs.countP fun c => c.IsDue t, cs'), w') ∧
      Told steps w w' ∧ List.Forall₂ Step.Foretells (cs.map fun c => c.foretold t) steps := by
  induction cs generalizing w with
  | nil => exact ⟨[], w, [], rfl, .refl w, .nil⟩
  | cons c cs ih =>
    have hc := hcs.managed c List.mem_cons_self
    obtain ⟨c', w₁, s, hfirst, htold₁, hforetells⟩ :=
      exists_regenerateIfDue_foretells (v := v) hv hc w
    -- what is at the paths of the others stays, and so does what is due for them
    have hsame₁ : ∀ d ∈ cs, ∀ p ∈ d.kind.ownPaths, w₁.tree.node? p = t.node? p := by
      intro d hd p hp
      obtain ⟨out, t', new, hexec, -, hspared⟩ :=
        (regenerateIfDue_spares (v := v) hv false).spares (· ∈ d.kind.ownPaths) c
          ⟨hc, avoids_ownPaths (hcs.kind_ne d hd).symm⟩ w.tree
      obtain rfl : w₁ = ⟨t', w.events ++ new⟩ :=
        congrArg Prod.snd (hfirst.symm.trans (hexec w.events))
      exact (hspared p hp).trans (hsame d (List.mem_cons_of_mem c hd) p hp)
    obtain ⟨cs', w', steps, hrest, htold, hforetell⟩ := ih hcs.tail hsame₁
    have hregeneration : c.regenerationDue w.tree = c.regenerationDue t :=
      hc.regenerationDue_congr (hsame c List.mem_cons_self)
    have hdue : c.IsDue w.tree ↔ c.IsDue t := by
      rw [Category.IsDue, Category.IsDue, hregeneration]
    have hforetold : c.foretold w.tree = c.foretold t := by
      rw [Category.foretold, Category.foretold]
      simp only [hdue]
    rw [hforetold] at hforetells
    refine ⟨c' :: cs', w', s :: steps, ?_, htold₁.trans htold, .cons hforetells hforetell⟩
    rw [exec_overCategories_cons, hfirst, hrest, List.countP_cons]
    simp only [hdue, decide_eq_true_eq, Nat.add_comm]

/-! ## The two runs -/

/-- What is foretold is attempted, and nothing else is. -/
theorem map_category_of_foretells {dry real : List Step}
    (h : List.Forall₂ Step.Foretells dry real) :
    (dry.filter fun s => s.status = .dryRun).map Step.category =
      (real.filter Step.isAttempt).map Step.category := by
  induction h with
  | nil => rfl
  | @cons d r dry real hd _ ih =>
    rw [Step.Foretells] at hd
    split at hd
    · next hstatus =>
      rw [List.filter_cons_of_pos (by simpa using hstatus), List.filter_cons_of_pos hd.1,
        List.map_cons, List.map_cons, hd.2.2, ih]
    · next hstatus =>
      rw [List.filter_cons_of_neg (by simpa using hstatus),
        List.filter_cons_of_neg (by simp [hd.2]), ih]

/-- **A dry run foretells the build.**  It changes no file and no record; the categories that it
names are those that the build attempts, in order, and as many as both runs count.  Of all other
categories both tell the same. -/
theorem regenerateAll_dryRun (hm : AreManaged CategoryKind.all m.categories) (w : World) :
    let dry := Run.exec (m.regenerateAll true) w
    let real := Run.exec (m.regenerateAll false) w
    (dry.2.tree = w.tree ∧ dry.1.2 = m) ∧
    ((newSteps w dry.2).filter fun s => s.status = .dryRun).map Step.category =
      ((newSteps w real.2).filter fun s => s.status = .done || s.status = .failed).map
        Step.category ∧
    (dry.1.1 = ((newSteps w dry.2).filter fun s => s.status = .dryRun).length ∧
      real.1.1 = dry.1.1) ∧
    List.Forall₂ Step.Foretells (newSteps w dry.2) (newSteps w real.2) := by
  intro dry real
  obtain ⟨w₁, hdry, htree, htold₁⟩ := overCategories_dryRun m.workshop m.categories w
  obtain ⟨cs', w₂, steps, hreal, htold₂, hforetell⟩ :=
    overCategories_build (v := m.workshop) (t := w.tree) rfl hm fun _ _ _ _ => rfl
  have hdry' : dry = ((m.categories.countP fun c => c.IsDue w.tree, m), w₁) := by
    show Run.exec (m.regenerateAll true) w = _
    rw [Manager.regenerateAll, Manager.exec_forAll, hdry]
  have hreal' : real = ((m.categories.countP fun c => c.IsDue w.tree,
      { m with categories := cs' }), w₂) := by
    show Run.exec (m.regenerateAll false) w = _
    rw [Manager.regenerateAll, Manager.exec_forAll, hreal]
  rw [hdry', hreal', htold₁.newSteps_eq, htold₂.newSteps_eq]
  refine ⟨⟨htree, rfl⟩, map_category_of_foretells hforetell, ⟨?_, rfl⟩, hforetell⟩
  rw [List.filter_map, List.length_map, ← List.countP_eq_length_filter]
  refine List.countP_congr fun c _ => ?_
  simp only [Function.comp_apply, decide_eq_true_eq, Category.foretold_status_iff]

/-- Bound files from which all but starters can be built. -/
def uncalledWorld : World where
  tree := (sampleSources 0).putContent (Project.sourcePath Starters.givingFile)
    (.text Starters.sampleGiving.toList)

/-- A dry run over these files, or a build. -/
def uncalledRun (dryRun : Bool) : (Nat × Manager) × World :=
  Run.exec ((sampleTrusted 0).manager.regenerateAll dryRun) uncalledWorld

/-- A dry run and a build of all categories, of which abilities are up to date and starters fail. -/
theorem regenerateAll_dryRun_uncalled :
    let due := ["species", "items", "constants", "starters", "moves", "pokedex"]
    AreManaged CategoryKind.all (sampleTrusted 0).manager.categories ∧
    ((uncalledRun true).2.tree = uncalledWorld.tree ∧
      (uncalledRun true).1.2 = (sampleTrusted 0).manager) ∧
    ((newSteps uncalledWorld (uncalledRun true).2).filter fun s => s.status = .dryRun).map
      Step.category = due ∧
    ((newSteps uncalledWorld (uncalledRun false).2).filter fun s =>
      s.status = .done || s.status = .failed).map Step.category = due ∧
    ((uncalledRun true).1.1 = 6 ∧ (uncalledRun false).1.1 = 6) ∧
    ∃ s ∈ newSteps uncalledWorld (uncalledRun false).2,
      s.category = "starters" ∧ s.status = .failed := by
  have hm : AreManaged CategoryKind.all (sampleTrusted 0).manager.categories :=
    (sampleTrusted_isOver 0).areManaged (by decide)
  -- the two runs are named before anything is taken apart, so that nothing runs them
  have hrun : ∀ dryRun, Run.exec ((sampleTrusted 0).manager.regenerateAll dryRun) uncalledWorld =
      uncalledRun dryRun := fun _ => rfl
  have hforetold := regenerateAll_dryRun hm uncalledWorld
  simp only [hrun] at hforetold
  obtain ⟨hunchanged, hcategories, ⟨-, hcount⟩, -⟩ := hforetold
  have hdue : ((newSteps uncalledWorld (uncalledRun true).2).filter fun s =>
      s.status = .dryRun).map Step.category =
        ["species", "items", "constants", "starters", "moves", "pokedex"] := by decide +kernel
  have hsix : (uncalledRun true).1.1 = 6 := by decide +kernel
  exact ⟨hm, hunchanged, hdue, hcategories.symm.trans hdue, ⟨hsix, hcount.trans hsix⟩,
    by decide +kernel⟩

end TableSync
