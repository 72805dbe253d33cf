import TableSync.Proofs.Manager.Operation
import TableSync.Proofs.Manager.Quiet

/-!
# A build leaves nothing to do

After a regeneration of all categories in which none fails, no regeneration is due, and a new
manager that finds all documents current neither extracts nor regenerates.

* `Operation.RegeneratesAll` is such a regeneration.  All categories have records that may be used,
  and all bound files are there, so a category that is due can be built
  (`Operation.RegeneratesAll.exists_builds`); if it could not, its build would fail.
* `Operation.RegeneratesAll.isBuilt` and `Operation.RegeneratesAll.exists_isCurrent` say how it
  leaves each category.  A category is looked at in its own turn: what was done before it has not
  touched its files, and what is done after it does not either, but for the header that the dex
  shares with species.
* `Session.IsOver.rests_of_isBuilt` is about a new manager: it finds nothing to do if all categories
  are built and all documents current.
* `Operation.regenerateAll_fixedPoint` says what is due afterwards, and for whom.

An extraction may still be due after a build: of a document that was out of date before and whose
files did not have to be written (`regenerateAll_leaves_extractionDue`), and of species after the
dex has been built.  So the last part of the theorem asks that none is; `sampleNamed` is a session
after which none is, since the dex has been built before it.
-/

set_option autoImplicit false

namespace TableSync

variable {K : List CategoryKind} {c : Category} {t t' : FileTree} {v : Workshop}
  {r : Except Failure Unit} {s s' : Session}

/-- A regeneration of what can be built goes through. -/
theorem Category.Regenerates.eq_ok_of_builds {outs : List (String × Text)}
    (h : c.Regenerates K v r t t') (hbuilds : c.Builds v t outs) : r = .ok () := by
  obtain ⟨-, -, -, ⟨-, hok, -⟩ | ⟨-, hnot, -⟩⟩ := h
  · exact hok
  · exact absurd hbuilds (hnot outs)

/-- Whether a category can be built is seen from its own files. -/
theorem Category.Builds.of_agreeOn {outs : List (String × Text)} (h : c.Builds v t outs)
    (hc : c.IsManaged) (hsame : t.AgreeOn (· ∈ c.kind.ownPaths) t') : c.Builds v t' outs := by
  refine h.congr hc.definition fun b hb => Binding.pristine?_congr fun p hp => ?_
  rw [hc.definition] at hb
  exact hsame p (List.mem_cons_of_mem _ (CategoryKind.paths_subset hb hp))

/-- All categories are regenerated, where that is due, and no step fails. -/
structure Operation.RegeneratesAll (K : List CategoryKind) (s s' : Session) : Prop where
  /-- The manager has the categories of these kinds. -/
  isOver : s.IsOver K
  /-- No kind is there twice. -/
  nodup : K.Nodup
  /-- Nothing stands in the way of the files of the categories. -/
  clear : s.tree.Clear (trackedPaths K)
  /-- All records may be used. -/
  trusted : ∀ c ∈ s.manager.categories, c.trusted = true
  /-- Every bound file is there. -/
  bound : ∀ k ∈ K, ∀ b ∈ (CategoryDef.ofKind k).bindings, s.tree.HasFile b.file
  /-- The second session is the one after the regeneration. -/
  run : s' = (Operation.regenerateAll false).run s
  /-- No step has failed. -/
  done : ∀ step ∈ newSteps s.world s'.world, step.status ≠ .failed

namespace Operation.RegeneratesAll

theorem acts (_h : RegeneratesAll K s s') :
    StepActs K (Manager.regenerateIfDue s.manager.workshop false) :=
  regenerateIfDue_acts rfl false

theorem isOver' (h : RegeneratesAll K s s') : s'.IsOver K := by
  rw [h.run]
  exact (h.isOver.forAll h.nodup h.clear h.acts).isOver

theorem clear' (h : RegeneratesAll K s s') : s'.tree.Clear (trackedPaths K) := by
  rw [h.run]
  exact (h.isOver.forAll h.nodup h.clear h.acts).works.clear h.clear

/-- What a category sees of its own files before its turn is what was there at the start. -/
theorem agreeOn_before (h : RegeneratesAll K s s') (hc : c ∈ s.manager.categories)
    {w : World} (hchanges : s.tree.Changes (trackedPaths K) (c.kind.Others K) w.tree) :
    s.tree.AgreeOn (· ∈ c.kind.ownPaths) w.tree :=
  fun p hp => hchanges.frame p (not_others_own (h.isOver.kind_mem hc) hp)

/-- A category that is due can be built, as its build would fail otherwise. -/
theorem exists_builds (h : RegeneratesAll K s s') (hc : c ∈ s.manager.categories)
    (hdue : c.regenerationDue s.tree = true) :
    ∃ outs, c.Builds s.manager.workshop s.tree outs := by
  have hm := h.isOver.managed c hc
  have hk := h.isOver.kind_mem hc
  obtain ⟨c', w₁, w₂, hturn⟩ := exists_turn h.acts (h.isOver.areManaged h.nodup) h.clear hc
  have hclear := hturn.before.clear h.clear
  have hown := h.agreeOn_before hc hturn.before
  obtain ⟨r, w', hexec, hregenerates, htold⟩ := exists_regenerateIfDue_of_isDue
    (v := s.manager.workshop) rfl hm hk hclear
    ((Category.IsDue.congr hm hk h.clear hclear hown).2 ⟨h.trusted c hc, hdue⟩)
  obtain ⟨n, hexec'⟩ := hturn.exec
  obtain rfl : w' = w₂ := (Prod.mk.inj (hexec.symm.trans hexec')).2
  obtain ⟨-, -, -, ⟨outs, -, hbuilds, -⟩ | ⟨⟨e, rfl⟩, -⟩⟩ := hregenerates
  · exact ⟨outs, hbuilds.of_agreeOn hm hown.symm⟩
  · refine absurd rfl (h.done (outcomeStep .build c.id (.error e)) ?_)
    rw [h.run]
    exact (hturn.mem_newSteps_iff (regenerateIfDue_tellsOwn rfl false) htold rfl).2
      (List.mem_singleton_self _)

/-- **No regeneration is due any more.** -/
theorem isBuilt (h : RegeneratesAll K s s') {c' : Category} (hc' : c' ∈ s'.manager.categories) :
    c'.IsBuilt s'.tree := by
  rw [h.run] at hc' ⊢
  obtain ⟨c, hc, w₁, w₂, hturn⟩ :=
    exists_turn_of_mem_result h.acts (h.isOver.areManaged h.nodup) h.clear hc'
  have hm := h.isOver.managed c hc
  have hk := h.isOver.kind_mem hc
  have hown := h.agreeOn_before hc hturn.before
  have hclear := hturn.before.clear h.clear
  obtain ⟨n, hexec⟩ := hturn.exec
  -- What comes after the turn leaves the files of the category alone, so its end decides.
  refine Category.IsBuilt.congr (hturn.succeeds.managed hm) ?_ fun p hp => hturn.after.frame p
    (not_others_own hk (hturn.succeeds.kind ▸ hp))
  cases hdue : c.regenerationDue s.tree with
  | true =>
    obtain ⟨r, w', hexec', hregenerates, -⟩ := exists_regenerateIfDue_of_isDue
      (v := s.manager.workshop) rfl hm hk hclear
      ((Category.IsDue.congr hm hk h.clear hclear hown).2 ⟨h.trusted c hc, hdue⟩)
    -- The renderer reads the same backups as at the start, hence it cannot fail here.
    obtain ⟨outs, hbuilds⟩ := h.exists_builds hc hdue
    obtain rfl := hregenerates.eq_ok_of_builds (hbuilds.of_agreeOn hm hown)
    obtain ⟨heq, rfl⟩ := Prod.mk.inj (hexec'.symm.trans hexec)
    obtain rfl := (Prod.mk.inj heq).2
    refine hregenerates.isBuilt hm fun b hb => (hown.hasFile ?_).2 (h.bound c.kind hk b ?_)
    · rw [hm.definition] at hb
      exact List.mem_cons_of_mem _ (CategoryKind.file_mem hb)
    · rw [← hm.definition]
      exact hb
  | false =>
    have hbuilt := ((regenerationDue_eq_false_iff hm hk h.clear).1 hdue).congr hm hown
    obtain ⟨m, w', status, detail, hexec', htree, -⟩ :=
      exists_regenerateIfDue_of_rests (v := s.manager.workshop) (c := c) (w := w₁) false fun hdue' =>
        absurd hdue'.2 (by simp [(regenerationDue_eq_false_iff hm hk hclear).2 hbuilt])
    obtain ⟨heq, rfl⟩ := Prod.mk.inj (hexec'.symm.trans hexec)
    obtain rfl := (Prod.mk.inj heq).2
    rw [htree]
    exact hbuilt

/-- **A document is current** if its category has been built, or if it was current before, unless
the build of the dex gave the header of species a new time. -/
theorem exists_isCurrent (h : RegeneratesAll K s s')
    (htimes : ∀ p ∈ trackedPaths K, ∀ f, s.tree.file? p = some f → f.time ≤ s.tree.clock)
    (hc : c ∈ s.manager.categories)
    (hready : c.regenerationDue s.tree = true ∨ c.extractionDue s.tree = false)
    (hcalm : c.kind = .species → ∀ d ∈ s.manager.categories, d.kind = .pokedex →
      d.regenerationDue s.tree = false) :
    ∃ document, c.kind.IsCurrent s'.tree document := by
  have hm := h.isOver.managed c hc
  have hk := h.isOver.kind_mem hc
  have hcalm' : IsCalm c.kind s.manager.categories s.tree := by
    rintro d hd ⟨-, hdue⟩ ⟨hkind, hspecies, -⟩
    rw [hcalm hspecies d hd hkind] at hdue
    exact Bool.noConfusion hdue
  obtain ⟨c', w₁, w₂, hturn, -⟩ := (isQuiet_regenerateIfDue (v := s.manager.workshop) rfl false).exists_turn
    (h.isOver.areManaged h.nodup) h.clear hcalm' hc rfl
  -- The turns before this one are other categories': they change none of its own files.
  have hown : s.tree.AgreeOn (· ∈ c.kind.ownPaths) w₁.tree := fun p hp =>
    hturn.before p (Or.inl hp)
  obtain ⟨n, hexec⟩ := hturn.exec
  rw [h.run]
  cases hdue : c.regenerationDue s.tree with
  | true =>
    obtain ⟨r, w', hexec', hregenerates, -⟩ := exists_regenerateIfDue_of_isDue
      (v := s.manager.workshop) rfl hm hk hturn.clear
      ((Category.IsDue.congr hm hk h.clear hturn.clear hown).2 ⟨h.trusted c hc, hdue⟩)
    obtain ⟨outs, hbuilds⟩ := h.exists_builds hc hdue
    obtain rfl := hregenerates.eq_ok_of_builds (hbuilds.of_agreeOn hm hown)
    obtain rfl := (Prod.mk.inj (hexec'.symm.trans hexec)).2
    -- No turn before this one has rewritten an input, so the stamp is later than all of them.
    obtain ⟨document, hcurrent, -⟩ := hregenerates.isSettled_of_ok hm fun p hp _ f hf => by
      rw [hturn.before p (Or.inr hp)] at hf
      exact Nat.le_trans (htimes p (mem_trackedPaths_input hk hp) f hf) hturn.clock_before
    exact ⟨document, hcurrent.congr hturn.after⟩
  | false =>
    obtain ⟨document, hcurrent⟩ := (extractionDue_eq_false_iff hm hk h.clear).1
      (hready.resolve_left (by simp [hdue]))
    have hrests : ¬ c.IsDue w₁.tree := by
      rw [Category.IsDue.congr hm hk h.clear hturn.clear hown]
      rintro ⟨-, hdue'⟩
      rw [hdue] at hdue'
      exact Bool.noConfusion hdue'
    obtain ⟨m, w', status, detail, hexec', htree, -⟩ := exists_regenerateIfDue_of_rests
      (v := s.manager.workshop) (c := c) (w := w₁) false fun hdue' => absurd hdue' hrests
    obtain rfl := (Prod.mk.inj (hexec'.symm.trans hexec)).2
    have hcurrent₁ := hcurrent.congr hturn.before
    rw [← htree] at hcurrent₁
    exact ⟨document, hcurrent₁.congr hturn.after⟩

end Operation.RegeneratesAll

/-! ## A new manager

A new manager has no records that may be used until it has loaded them.  If all documents are
current it reads them, and then has the records that the old one had saved. -/

/-- A document that is there holds what has been read from it. -/
theorem Store.saved?_of_read {project : Project} {p : Path} {store : Store}
    (h : Store.read project t p = .ok store) (hadmits : t.Admits p) (hfile : t.HasFile p) :
    store.saved? = some store.records := by
  obtain ⟨f, hf⟩ := Option.isSome_iff_exists.1 hfile
  rw [Store.read, hadmits.readText_eq, FileTree.content?, hf] at h
  cases hcontent : f.content with
  | binary bytes =>
    rw [Option.map_some, hcontent] at h
    cases h
  | text text =>
    rw [Option.map_some, hcontent] at h
    simp only at h
    split at h
    · obtain rfl := Except.ok.inj h
      rfl
    · cases h

/-- Loading changes nothing if all documents are current. -/
theorem Session.IsOver.loadAll_of_isCurrent (hs : s.IsOver K)
    (hclear : s.tree.Clear (trackedPaths K))
    (hcurrent : ∀ k ∈ K, ∃ document, k.IsCurrent s.tree document) :
    ((Operation.loadAll false).run s).tree = s.tree ∧
      ((Operation.loadAll false).run s).manager =
        { s.manager with categories :=
          s.manager.categories.map (Category.reloaded s.manager.project s.tree) } := by
  have hstep : ∀ c ∈ s.manager.categories, ∀ w : World, w.tree = s.tree →
      ∃ w', Run.exec (Manager.loadCategory s.manager.workshop false c) w =
        ((0, c.reloaded s.manager.project s.tree), w') ∧ w'.tree = s.tree := by
    intro c hc w hw
    have hk := hs.kind_mem hc
    obtain ⟨w', hexec, htree⟩ := exec_loadCategory_of_isCurrent (v := s.manager.workshop)
      (hs.managed c hc) hk (hw ▸ hclear) (hw ▸ hcurrent c.kind hk)
    rw [hw] at hexec
    exact ⟨w', hexec, htree.trans hw⟩
  obtain ⟨w', hexec, htree⟩ := overCategories_rests hstep rfl
  have hload : (Operation.loadAll false).run s =
      ⟨{ s.manager with categories := (Run.exec (overCategories
        (Manager.loadCategory s.manager.workshop false) s.manager.categories) s.world).1.2 },
          (Run.exec (overCategories (Manager.loadCategory s.manager.workshop false)
            s.manager.categories) s.world).2⟩ := rfl
  rw [hload, hexec]
  exact ⟨htree, rfl⟩

/-- A category that is not trusted before it is loaded is not due after that, if its files are
built. -/
theorem Category.IsBuilt.not_isDue_reloaded {c' : Category} (h : c'.IsBuilt t) (hc' : c'.IsManaged)
    (hc : c.IsManaged) (hkind : c'.kind = c.kind) (hk : c.kind ∈ K)
    (hclear : t.Clear (trackedPaths K)) (hfresh : c.trusted = false) (project : Project) :
    ¬ (c.reloaded project t).IsDue t := by
  rw [Category.reloaded]
  cases hread : Store.read project t c.kind.documentPath with
  | error f =>
    rintro ⟨htrusted, -⟩
    rw [show c.trusted = true from htrusted] at hfresh
    cases hfresh
  | ok store =>
    rintro ⟨-, hdue⟩
    have hm : (c.withStore store).IsManaged := ⟨hc.definition, Store.path_of_read hread⟩
    have hdefinition : c'.definition = c.definition := by
      rw [hc'.definition, hc.definition, hkind]
    have hbuilt : (c.withStore store).IsBuilt t := by
      refine ⟨Store.saved?_of_read hread (hclear _ (mem_trackedPaths_own hk List.mem_cons_self))
        (hkind ▸ h.document), hkind ▸ h.document, fun b hb => h.bound b ?_,
        fun g hg => h.generated g ?_, fun hgenerator document hfile p hp => ?_⟩
      · exact hdefinition ▸ hb
      · exact hdefinition ▸ hg
      · exact h.written (hdefinition ▸ hgenerator) document (hkind ▸ hfile) p (hdefinition ▸ hp)
    exact Bool.noConfusion
      (((regenerationDue_eq_false_iff hm hk hclear).2 hbuilt).symm.trans hdue)

/-- Nothing is regenerated if nothing is due. -/
theorem Session.regenerateAll_of_not_isDue
    (hrests : ∀ c ∈ s.manager.categories, ¬ c.IsDue s.tree) :
    (Run.exec (s.manager.regenerateAll false) s.world).1.1 = 0 ∧
      (Run.exec (s.manager.regenerateAll false) s.world).2.tree = s.tree := by
  have hstep : ∀ c ∈ s.manager.categories, ∀ w : World, w.tree = s.tree →
      ∃ w', Run.exec (Manager.regenerateIfDue s.manager.workshop false c) w = ((0, id c), w') ∧
        w'.tree = s.tree := by
    intro c hc w hw
    have hnot : ¬ c.IsDue w.tree := by
      rw [hw]
      exact hrests c hc
    obtain ⟨n, w', status, detail, hexec, htree, hzero, -⟩ := exists_regenerateIfDue_of_rests
      (v := s.manager.workshop) (c := c) (w := w) false fun h => absurd h hnot
    obtain rfl := hzero hnot
    exact ⟨w', hexec, htree.trans hw⟩
  obtain ⟨w', hexec, htree⟩ := overCategories_rests hstep rfl
  rw [Manager.regenerateAll, Manager.exec_forAll, hexec]
  exact ⟨rfl, htree⟩

/-- A new manager finds nothing to do if all categories are built and all documents current. -/
theorem Session.IsOver.rests_of_isBuilt (hs : s.IsOver K) (hclear : s.tree.Clear (trackedPaths K))
    (hbuilt : ∀ c ∈ s.manager.categories, c.IsBuilt s.tree)
    (hcurrent : ∀ k ∈ K, ∃ document, k.IsCurrent s.tree document) (constants : ConstantTable)
    {preprocessor : Preprocessor} (hconfined : preprocessor.IsConfined) {loaded : Session}
    (hloaded : loaded = (Operation.loadAll false).run (s.restart constants preprocessor)) :
    loaded.tree = s.tree ∧ (Run.exec (loaded.manager.regenerateAll false) loaded.world).1.1 = 0 ∧
      (Run.exec (loaded.manager.regenerateAll false) loaded.world).2.tree = s.tree := by
  have hnew := (hs.restart constants hconfined).isOver
  obtain ⟨htree, hmanager⟩ := hnew.loadAll_of_isCurrent hclear hcurrent
  rw [← hloaded] at htree hmanager
  have hrests := loaded.regenerateAll_of_not_isDue fun d hd => ?_
  · exact ⟨htree, hrests.1, hrests.2.trans htree⟩
  · rw [hmanager] at hd
    obtain ⟨c, hc, rfl⟩ := List.mem_map.1 hd
    have hk := hnew.kind_mem hc
    obtain ⟨c', hc', hkind⟩ := hs.exists_category hk
    obtain ⟨k, -, rfl⟩ := List.mem_map.1 hc
    rw [htree]
    exact (hbuilt c' hc').not_isDue_reloaded (hs.managed c' hc') (hnew.managed _ hc) hkind hk hclear
      rfl _

/-! ## The fixed point -/

/-- **A build leaves nothing to do.**  After a regeneration of all categories in which none fails,
no regeneration is due.  No extraction is due for a category that has been built, nor for one for
which none was due; of species this is said only if the dex, which binds one of its inputs, has not
been built.  If no extraction is due, a new manager neither extracts nor regenerates anything. -/
theorem Operation.regenerateAll_fixedPoint (h : Operation.RegeneratesAll K s s')
    (htimes : ∀ p ∈ trackedPaths K, ∀ f, s.tree.file? p = some f → f.time ≤ s.tree.clock) :
    (∀ c ∈ s'.manager.categories, c.regenerationDue s'.tree = false) ∧
    (∀ c ∈ s.manager.categories, c.regenerationDue s.tree = true ∨ c.extractionDue s.tree = false →
      (c.kind = .species → ∀ d ∈ s.manager.categories, d.kind = .pokedex →
        d.regenerationDue s.tree = false) →
      ∀ c' ∈ s'.manager.categories, c'.kind = c.kind → c'.extractionDue s'.tree = false) ∧
    ((∀ c ∈ s'.manager.categories, c.extractionDue s'.tree = false) →
      ∀ (constants : ConstantTable) (preprocessor : Preprocessor), preprocessor.IsConfined →
        ∀ loaded, loaded = (Operation.loadAll false).run (s'.restart constants preprocessor) →
          loaded.tree = s'.tree ∧
          (Run.exec (loaded.manager.regenerateAll false) loaded.world).1.1 = 0 ∧
          (Run.exec (loaded.manager.regenerateAll false) loaded.world).2.tree = s'.tree) := by
  have hover := h.isOver'
  refine ⟨fun c hc => ?_, fun c hc hready hcalm c' hc' hkind => ?_,
    fun hnone constants preprocessor hconfined loaded hloaded => ?_⟩
  · exact (regenerationDue_eq_false_iff (hover.managed c hc) (hover.kind_mem hc) h.clear').2
      (h.isBuilt hc)
  · refine (extractionDue_eq_false_iff (hover.managed c' hc') (hover.kind_mem hc') h.clear').2 ?_
    rw [hkind]
    exact h.exists_isCurrent htimes hc hready hcalm
  · refine hover.rests_of_isBuilt h.clear' (fun c hc => h.isBuilt hc) (fun k hk => ?_) constants
      hconfined hloaded
    obtain ⟨c, hc, rfl⟩ := hover.exists_category hk
    exact (extractionDue_eq_false_iff (hover.managed c hc) (hover.kind_mem hc) h.clear').1
      (hnone c hc)

/-- No file is newer than all nodes. -/
theorem FileTree.time_le_of_file? {time : Nat} (h : ∀ node ∈ t.nodes, node.2.time ≤ time) {p : Path}
    {f : File} (hf : t.file? p = some f) : f.time ≤ time := by
  have hnode := node?_eq_of_file? hf
  cases p with
  | nil => cases hnode
  | cons name p =>
    obtain ⟨a, b, hnodes, -⟩ := List.lookup_eq_some_iff.1 hnode
    exact h (name :: p, .file f) (hnodes ▸ List.mem_append_right a List.mem_cons_self)

/-- Bound files from which all categories can be built, and an input and the document of
abilities. -/
def sampleSources (inputTime : Nat) : FileTree where
  nodes := [(["source"], .directory 0), (["source", "src"], .directory 0),
    (["source", "include"], .directory 0), (["source", "include", "constants"], .directory 0),
    (["source", "src", "data"], .directory 0), (["source", "src", "data", "pokemon"], .directory 0),
    (["data"], .directory 0),
    (["source", "include", "constants", "abilities.h"], .file ⟨.text [], inputTime⟩),
    (["source", "include", "constants", "pokedex.h"], .file ⟨.text [], 0⟩),
    (["source", "src", "data", "pokemon", "species_info.h"],
      .file ⟨.text "    #include \"species_info/gen_1_families.h\"\n".toList, 0⟩),
    (["source", "src", "starter_choose.c"], .file ⟨.text Starters.sampleArray.toList, 0⟩),
    (["source", "src", "battle_setup.c"], .file ⟨.text Starters.sampleCalling.toList, 0⟩),
    (["data", "abilities.json"], .file ⟨.text Record.empty.document, 0⟩)]
  clock := 2

/-- A session over all categories, in which the records of abilities are those of the document. -/
def sampleTrusted (inputTime : Nat) : Session where
  manager :=
    { project := ⟨"/project"⟩
      constants := []
      preprocessor := Starters.samplePreprocessor
      categories := CategoryKind.all.map fun k =>
        { Category.ofKind k with
          store := ⟨k.documentPath, .empty, if k = .abilities then some .empty else none⟩
          trusted := true } }
  world := ⟨sampleSources inputTime, []⟩

theorem sampleTrusted_isOver (inputTime : Nat) :
    (sampleTrusted inputTime).IsOver CategoryKind.all := by
  refine ⟨rfl, fun c hc => ?_, Starters.samplePreprocessor_isConfined⟩
  obtain ⟨k, -, rfl⟩ := List.mem_map.1 hc
  cases k <;> exact ⟨rfl, rfl⟩

theorem sampleTrusted_clear :
    (sampleTrusted 0).tree.Clear (trackedPaths CategoryKind.all) := by
  simp only [trackedPaths, CategoryKind.ownPaths_eq, CategoryKind.inputPaths_eq]
  decide +kernel

/-- The session after a build of all categories and an edit of species.  Only species is due in it,
so the dex, which binds one of its inputs, is not written again. -/
def sampleNamed : Session :=
  Operation.runAll (sampleTrusted 0)
    [.regenerateAll false, .set .species ["SPECIES_A", "name"] (.str "A")]

theorem sampleNamed_continues : (sampleTrusted 0).Continues CategoryKind.all sampleNamed :=
  Operation.runAll_spec (sampleTrusted_isOver 0) (by decide) sampleTrusted_clear _
    (by simp [Operation.IsConfined])

/-- A build after which nothing is left to do: what is due before it is species alone. -/
theorem Operation.regenerateAll_fixedPoint_all :
    let s := sampleNamed
    let s' := (Operation.regenerateAll false).run s
    (∀ c ∈ s.manager.categories, c.regenerationDue s.tree = decide (c.kind = .species)) ∧
    (∀ c ∈ s.manager.categories,
      c.regenerationDue s.tree = true ∨ c.extractionDue s.tree = false) ∧
    (∀ c ∈ s'.manager.categories,
      c.regenerationDue s'.tree = false ∧ c.extractionDue s'.tree = false) ∧
    ∀ loaded, loaded = (Operation.loadAll false).run (s'.restart [] Starters.samplePreprocessor) →
      loaded.tree = s'.tree ∧
      (Run.exec (loaded.manager.regenerateAll false) loaded.world).1.1 = 0 ∧
      (Run.exec (loaded.manager.regenerateAll false) loaded.world).2.tree = s'.tree := by
  -- one evaluation for all that is said of the edited session
  have hedited : (∀ c ∈ sampleNamed.manager.categories, c.trusted = true ∧
        c.regenerationDue sampleNamed.tree = decide (c.kind = .species) ∧
        (c.regenerationDue sampleNamed.tree = true ∨
          c.extractionDue sampleNamed.tree = false)) ∧
      (∀ k ∈ CategoryKind.all, ∀ b ∈ (CategoryDef.ofKind k).bindings,
        (sampleNamed.tree.file? b.file).isSome = true) ∧
      (∀ node ∈ sampleNamed.tree.nodes, node.2.time ≤ sampleNamed.tree.clock) ∧
      ∀ step ∈ newSteps sampleNamed.world ((Operation.regenerateAll false).run sampleNamed).world,
        step.status ≠ .failed := by
    decide +kernel
  obtain ⟨hdue, hbound, htimes, hdone⟩ := hedited
  have hbuild : Operation.RegeneratesAll CategoryKind.all sampleNamed
      ((Operation.regenerateAll false).run sampleNamed) :=
    ⟨sampleNamed_continues.isOver, by decide,
      sampleNamed_continues.works.clear sampleTrusted_clear, fun c hc => (hdue c hc).1, hbound,
      rfl, hdone⟩
  obtain ⟨hbuilt, hcurrent, hfresh⟩ := Operation.regenerateAll_fixedPoint hbuild
    fun _ _ _ hf => FileTree.time_le_of_file? htimes hf
  have hnone : ∀ c ∈ ((Operation.regenerateAll false).run sampleNamed).manager.categories,
      c.extractionDue ((Operation.regenerateAll false).run sampleNamed).tree = false := by
    intro c' hc'
    obtain ⟨c, hc, hkind⟩ :=
      sampleNamed_continues.isOver.exists_category (hbuild.isOver'.kind_mem hc')
    refine hcurrent c hc (hdue c hc).2.2 (fun _ d hd hdex => ?_) c' hc' hkind.symm
    rw [(hdue d hd).2.1, hdex]
    rfl
  exact ⟨fun c hc => (hdue c hc).2.1, fun c hc => (hdue c hc).2.2,
    fun c hc => ⟨hbuilt c hc, hnone c hc⟩,
    fun loaded => hfresh hnone [] _ Starters.samplePreprocessor_isConfined loaded⟩

/-- A document that is older than its input, and from which nothing is written, stays so. -/
theorem regenerateAll_leaves_extractionDue :
    let s := sampleTrusted 1
    let s' := (Operation.regenerateAll false).run s
    s.manager.kinds = CategoryKind.all ∧ (∀ c ∈ s.manager.categories, c.trusted = true) ∧
    (∀ k ∈ CategoryKind.all, ∀ b ∈ (CategoryDef.ofKind k).bindings,
      (s.tree.file? b.file).isSome = true) ∧
    (∀ node ∈ s.tree.nodes, node.2.time ≤ s.tree.clock) ∧
    (∀ step ∈ newSteps s.world s'.world, step.status ≠ .failed) ∧
    ∃ c ∈ s'.manager.categories, c.kind = .abilities ∧ c.extractionDue s'.tree = true := by
  decide +kernel

end TableSync
