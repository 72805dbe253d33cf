import TableSync.Proofs.Manager.Operation

/-!
# Backups stay pristine

Whatever is done in a session, in whatever order, the sources that were there at its start can be
put back.

* `IsPristine` says that a tree has the pristine contents of another one, and `IsPristine.acts` that
  every step keeps them.  It is the invariant of whole runs: `Works.invariant` carries it over from
  the steps (`IsPristine.works`), and a restored tree with it is the tree at the start
  (`IsPristine.eq_of_isRestored`).
* `IsRestored` says that there is nothing to put back, which is what restoring everything leads to,
  and `restoreAll_of_isRestored` that restoring again does nothing.
* `builtContent?` is what a build makes of a pristine tree.  It is said of the tree at the start, so
  it cannot depend on what happened in between.
* `Operation.Regenerates` says that an operation goes through a regeneration of a category, and
  `Operation.Regeneration` where in the operation that is: between what it does before and after.
* `runAll_pristine` is the theorem on whole runs.
-/

set_option autoImplicit false

namespace TableSync

variable {K : List CategoryKind} {k : CategoryKind} {c : Category} {t t' start : FileTree}

/-! ## What a step keeps -/

/-- The pristine content of a bound file lasts as long as the file and its backup do. -/
theorem Category.IsManaged.pristine?_of_changes {touched : Path → Prop} {ps : List Path}
    (hc : c.IsManaged) (h : t.Changes ps touched t')
    (hfree : ∀ p ∈ c.kind.managedPaths, ¬ touched p) :
    ∀ b ∈ c.definition.bindings, b.pristine? t' = b.pristine? t ∧
      t'.content? b.file = t.content? b.file := by
  intro b hb
  rw [hc.definition] at hb
  have hpaths : ∀ p ∈ b.paths, ¬ touched p := fun p hp =>
    hfree p (CategoryKind.paths_subset hb hp)
  exact ⟨Binding.pristine?_congr fun p hp => h.frame p (hpaths p hp),
    h.content? (hpaths _ b.file_mem_paths)⟩

theorem Category.IsManaged.not_extracts (hk : c.kind ∈ K) {p : Path}
    (hp : p ∈ c.kind.managedPaths) : ¬ c.kind.Extracts p := by
  rintro (rfl | hprocessed)
  · exact c.kind.documentPath_notMem hp
  · exact not_under_processedDir (IsManaged.mem_managed hk hp) hprocessed

/-- A step keeps the pristine contents of the bound files, and the contents of those that no
generator writes as long as they are pristine. -/
theorem Category.Acts.keeps (h : c.Acts K t t') (hc : c.IsManaged) (hk : c.kind ∈ K) :
    ∀ b ∈ c.definition.bindings, b.pristine? t' = b.pristine? t ∧
      (c.definition.generator? = none → t.content? b.file = b.pristine? t →
        t'.content? b.file = b.pristine? t) := by
  intro b hb
  cases h with
  | rests h =>
    rw [h]
    exact ⟨rfl, fun _ hpristine => hpristine⟩
  | extracts h =>
    obtain ⟨hpristine, hcontent⟩ :=
      hc.pristine?_of_changes h (fun p hp => Category.IsManaged.not_extracts hk hp) b hb
    exact ⟨hpristine, fun _ hsame => hcontent.trans hsame⟩
  | saves h =>
    obtain ⟨hpristine, hcontent⟩ := hc.pristine?_of_changes h.changes
      (fun p hp heq => c.kind.documentPath_notMem (heq ▸ hp)) b hb
    exact ⟨hpristine, fun _ hsame => hcontent.trans hsame⟩
  | regenerates v r h =>
    obtain ⟨t₁, hsaves, -, hresult⟩ := h
    obtain ⟨hpristine, hcontent⟩ := hc.pristine?_of_changes hsaves.changes
      (fun p hp heq => c.kind.documentPath_notMem (heq ▸ hp)) b hb
    rcases hresult with ⟨outs, -, hbuilds, hbuilt⟩ | ⟨-, -, hfailed, -⟩
    · refine ⟨(hbuilt.backups b hb).2.trans hpristine, fun hnone hsame => ?_⟩
      have hwritten : b.file ∈ c.definition.writtenPaths :=
        List.mem_append_left _ (List.mem_map_of_mem hb)
      -- Without a generator the build writes no output, and the bound file stays as prepared.
      have hpaths : outs.map (fun o => Project.sourcePath o.1) = [] := by
        rw [hbuilds.map_paths hc, hnone]
        rfl
      rw [hbuilt.kept _ hwritten (by rw [hpaths]; exact List.not_mem_nil), hcontent, hsame]
    · refine ⟨(hfailed.pristine? b hb).trans hpristine, fun _ _ => ?_⟩
      rw [(hfailed.backups b hb).2, hpristine]
  | restores h =>
    obtain ⟨hgone, hput⟩ := h.backups b hb
    refine ⟨?_, fun _ _ => hput⟩
    rw [← hput, Binding.pristine?, FileTree.content?, hgone]
    rfl

/-! ## The invariant

A bound file that no generator writes stays as it is, whether or not it has a backup.  The other two
parts are about what bound files have in them or in their backups, and about all sources that no
category has. -/

/-- A tree has the pristine contents of another one, in which there are no backups and no generated
files. -/
structure IsPristine (K : List CategoryKind) (start t : FileTree) : Prop where
  /-- The pristine contents of bound files. -/
  bound : ∀ k ∈ K, ∀ b ∈ (CategoryDef.ofKind k).bindings, b.pristine? t = start.content? b.file
  /-- Without a generator, the bound files themselves. -/
  unwritten : ∀ k ∈ K, (CategoryDef.ofKind k).generator? = none →
    ∀ b ∈ (CategoryDef.ofKind k).bindings, t.content? b.file = start.content? b.file
  /-- All other sources. -/
  rest : ∀ p, Project.sourceDir <+: p → (∀ k ∈ K, p ∉ k.managedPaths) →
    t.content? p = start.content? p

/-- A source that belongs to no category is not touched by work on categories. -/
theorem not_touches_source {p : Path} (hp : Project.sourceDir <+: p)
    (hfree : ∀ k ∈ K, p ∉ k.managedPaths) (hk : k ∈ K) : ¬ k.Touches p := by
  obtain ⟨q, rfl⟩ := hp
  rintro (hown | ⟨r, hr⟩)
  · rcases List.mem_cons.1 hown with hdocument | hmanaged
    · exact absurd (List.cons.inj hdocument).1 (by decide)
    · exact hfree k hk hmanaged
  · exact absurd (List.cons.inj hr).1 (by decide)

/-- **Every step keeps the pristine contents.** -/
theorem IsPristine.acts (h : IsPristine K start t) (hc : c.IsManaged) (hk : c.kind ∈ K)
    (hacts : c.Acts K t t') : IsPristine K start t' := by
  have hchanges := hacts.changes
  have hothers : ∀ k ∈ K, k ≠ c.kind → ∀ b ∈ (CategoryDef.ofKind k).bindings,
      b.pristine? t' = b.pristine? t ∧ t'.content? b.file = t.content? b.file := by
    intro k hkK hne b hb
    have hpaths : ∀ p ∈ b.paths, ¬ c.kind.Touches p := by
      rintro p hp htouched
      exact not_others_own hkK (List.mem_cons_of_mem _ (CategoryKind.paths_subset hb hp))
        ⟨c.kind, hk, Ne.symm hne, htouched⟩
    exact ⟨Binding.pristine?_congr fun p hp => hchanges.frame p (hpaths p hp),
      hchanges.content? (hpaths _ b.file_mem_paths)⟩
  have hown : ∀ b ∈ (CategoryDef.ofKind c.kind).bindings, b.pristine? t' = b.pristine? t ∧
      ((CategoryDef.ofKind c.kind).generator? = none → t.content? b.file = b.pristine? t →
        t'.content? b.file = b.pristine? t) := by
    rw [← hc.definition]
    exact hacts.keeps hc hk
  refine ⟨fun k hkK b hb => ?_, fun k hkK hnone b hb => ?_, fun p hp hfree => ?_⟩
  · by_cases hkc : k = c.kind
    · subst hkc
      rw [(hown b hb).1, h.bound _ hkK b hb]
    · rw [(hothers k hkK hkc b hb).1, h.bound k hkK b hb]
  · by_cases hkc : k = c.kind
    · subst hkc
      have hbound := h.bound _ hkK b hb
      rw [(hown b hb).2 hnone ((h.unwritten _ hkK hnone b hb).trans hbound.symm), hbound]
    · rw [(hothers k hkK hkc b hb).2, h.unwritten k hkK hnone b hb]
  · rw [hchanges.content? (not_touches_source hp hfree hk), h.rest p hp hfree]

/-- All work keeps the pristine contents. -/
theorem IsPristine.works (h : IsPristine K start t) (hworks : Works K t t') :
    IsPristine K start t' :=
  hworks.invariant (I := IsPristine K start)
    (fun _ _ _ hc hk _ hacts hpristine => hpristine.acts hc hk hacts) h

/-- A tree without backups has its own pristine contents. -/
theorem IsPristine.self (hbackups : ∀ k ∈ K, ∀ b ∈ (CategoryDef.ofKind k).bindings,
    start.file? b.backup = none) : IsPristine K start start := by
  refine ⟨fun k hk b hb => ?_, fun _ _ _ _ _ => rfl, fun _ _ _ => rfl⟩
  rw [Binding.pristine?, FileTree.content?, hbackups k hk b hb]
  rfl

/-- Either there is a backup with the pristine content, or the file has it. -/
theorem IsPristine.backup_or_file (h : IsPristine K start t) (hk : k ∈ K) {b : Binding}
    (hb : b ∈ (CategoryDef.ofKind k).bindings) :
    t.HasFile b.backup ∧ t.content? b.backup = start.content? b.file ∨
      t.file? b.backup = none ∧ t.content? b.file = start.content? b.file := by
  have hbound := h.bound k hk b hb
  cases hfile : t.file? b.backup with
  | some f =>
    have hhas : t.HasFile b.backup := by
      rw [FileTree.HasFile, hfile]
      rfl
    rw [Binding.pristine?_of_hasFile hhas] at hbound
    exact Or.inl ⟨hhas, hbound⟩
  | none =>
    rw [Binding.pristine?, FileTree.content?, hfile] at hbound
    exact Or.inr ⟨rfl, hbound⟩

/-! ## Restoring everything -/

variable {s : Session}

/-- There is nothing to put back. -/
structure IsRestored (K : List CategoryKind) (t : FileTree) : Prop where
  /-- No backup is there. -/
  backups : ∀ k ∈ K, ∀ b ∈ (CategoryDef.ofKind k).bindings, t.file? b.backup = none
  /-- No generated file is there. -/
  generated : ∀ k ∈ K, ∀ g ∈ (CategoryDef.ofKind k).generated, t.file? g.path = none

/-- After everything has been put back, there are no backups and no generated files. -/
theorem isRestored_restoreAll (hs : s.IsOver K) (hK : K.Nodup)
    (hclear : s.tree.Clear (trackedPaths K)) :
    IsRestored K (Operation.restoreAll.run s).tree := by
  have hstep := restoreCategory_acts (K := K) s.manager.project
  have hcs := hs.areManaged hK
  have hfiles : ∀ k ∈ K, ∀ p ∈ k.managedPaths, ∀ c ∈ s.manager.categories, c.kind = k →
      (∀ t t', c.Restores K t t' → t'.file? p = none) →
        (Operation.restoreAll.run s).tree.file? p = none := by
    rintro k hk p hp c hc rfl hgone
    obtain ⟨c', w₁, w₂, hturn⟩ := exists_turn hstep hcs hclear hc
    obtain ⟨n, hexec⟩ := hturn.exec
    obtain ⟨n', w', hexec', hrestores, -⟩ := exists_restoreCategory s.manager.project
      (hs.managed c hc) hk (hturn.before.clear hclear)
    have hw : w' = w₂ := (Prod.mk.inj (hexec'.symm.trans hexec)).2
    rw [← hgone _ _ hrestores, hw]
    exact hturn.after.frame p (not_others_own hk (List.mem_cons_of_mem _ hp))
  refine ⟨fun k hk b hb => ?_, fun k hk g hg => ?_⟩
  · obtain ⟨c, hc, rfl⟩ := hs.exists_category hk
    refine hfiles _ hk b.backup (CategoryKind.backup_mem hb) c hc rfl
      fun t t' h => ?_
    rw [← (hs.managed c hc).definition] at hb
    exact (h.backups b hb).1
  · obtain ⟨c, hc, rfl⟩ := hs.exists_category hk
    refine hfiles _ hk g.path (CategoryKind.generated_mem hg) c hc rfl fun t t' h => ?_
    rw [← (hs.managed c hc).definition] at hg
    exact h.generated g hg

/-- A restored tree with pristine contents is the tree at the start, source by source. -/
theorem IsPristine.eq_of_isRestored (h : IsPristine K start t) (hstart : IsRestored K start)
    (ht : IsRestored K t) {p : Path} (hp : Project.sourceDir <+: p) :
    t.content? p = start.content? p := by
  by_cases hfree : ∀ k ∈ K, p ∉ k.managedPaths
  · exact h.rest p hp hfree
  · obtain ⟨k, hk, hmem⟩ : ∃ k ∈ K, p ∈ k.managedPaths := by
      simpa using hfree
    have hnone : ∀ q, t.file? q = none → start.file? q = none →
        t.content? q = start.content? q := by
      intro q hq hq'
      rw [FileTree.content?, FileTree.content?, hq, hq']
    rcases List.mem_append.1 hmem with hmem | hmem
    · obtain ⟨b, hb, hpath⟩ := List.mem_flatMap.1 hmem
      have hbackup := ht.backups k hk b hb
      rcases List.mem_cons.1 hpath with rfl | hpath
      · rcases h.backup_or_file hk hb with ⟨hhas, -⟩ | ⟨-, hcontent⟩
        · rw [FileTree.HasFile, hbackup] at hhas
          exact Bool.noConfusion hhas
        · exact hcontent
      · obtain rfl := List.mem_singleton.1 hpath
        exact hnone _ hbackup (hstart.backups k hk b hb)
    · obtain ⟨g, hg, rfl⟩ := List.mem_map.1 hmem
      exact hnone _ (ht.generated k hk g hg) (hstart.generated k hk g hg)

/-- Where there is nothing to put back, nothing is put back. -/
theorem restoreAll_of_isRestored (hs : s.IsOver K) (hclear : s.tree.Clear (trackedPaths K))
    (ht : IsRestored K s.tree) :
    (Run.exec s.manager.restoreAll s.world).1 = 0 ∧
      (Run.exec s.manager.restoreAll s.world).2.tree = s.tree := by
  have hstep : ∀ c ∈ s.manager.categories, ∀ w : World, w.tree = s.tree →
      ∃ w', Run.exec (Manager.restoreCategory s.manager.project c) w = ((0, id c), w') ∧
        w'.tree = s.tree := by
    intro c hc w hw
    have hk := hs.kind_mem hc
    rw [← hw] at hclear ht
    obtain ⟨n, w', hexec, -, hnothing⟩ := exists_restoreCategory s.manager.project
      (hs.managed c hc) hk hclear
    rw [(hs.managed c hc).definition] at hnothing
    have hnone : ∀ {p : Path}, w.tree.file? p = none → ¬ w.tree.HasFile p := by
      intro p hp
      simp [FileTree.HasFile, hp]
    obtain ⟨rfl, htree⟩ := hnothing (fun b hb => hnone (ht.backups _ hk b hb))
      fun g hg => hnone (ht.generated _ hk g hg)
    exact ⟨w', hexec, htree.trans hw⟩
  obtain ⟨w', hexec, htree⟩ := overCategories_rests hstep rfl
  have hrestore : Run.exec s.manager.restoreAll s.world =
      ((Run.exec (overCategories (Manager.restoreCategory s.manager.project)
          s.manager.categories) s.world).1.1,
        (Run.exec (overCategories (Manager.restoreCategory s.manager.project)
          s.manager.categories) s.world).2) := rfl
  rw [hrestore, hexec]
  exact ⟨rfl, htree⟩

/-! ## What is built

A regeneration may be one of several in an operation, so it is taken out of it first: what the
operation does before and after it leaves the files of the category alone. -/

/-- What a build makes of the file at a path, from the sources as they were at the start. -/
def builtContent? (project : Project) (start : FileTree) (constants : ConstantTable)
    (records : Record) (k : CategoryKind) (p : Path) : Option Content :=
  match (CategoryDef.ofKind k).outputs constants records (pristineText project start) with
  | .error _ => start.content? p
  | .ok outs =>
    match outs.find? fun o => Project.sourcePath o.1 = p with
    | some o => some (.text (banner ++ o.2))
    | none => start.content? p

theorem CategoryDef.generated_eq_nil (hnone : (CategoryDef.ofKind k).generator? = none) :
    (CategoryDef.ofKind k).generated = [] := by
  cases k with
  | species => exact absurd hnone (Option.some_ne_none _)
  | _ => rfl

/-- **A build that goes through makes of every written file what it makes of the pristine
sources.** -/
theorem Category.Regenerates.content? {v : Workshop} (h : c.Regenerates K v (.ok ()) t t')
    (hc : c.IsManaged) (hk : c.kind ∈ K) (hstart : IsRestored K start)
    (hbound : ∀ b ∈ (CategoryDef.ofKind c.kind).bindings, b.pristine? t = start.content? b.file)
    (hunwritten : (CategoryDef.ofKind c.kind).generator? = none →
      ∀ b ∈ (CategoryDef.ofKind c.kind).bindings, t.content? b.file = start.content? b.file)
    {p : Path} (hp : p ∈ c.definition.writtenPaths) :
    t'.content? p = builtContent? v.project start v.constants c.store.records c.kind p := by
  obtain ⟨t₁, hsaves, -, ⟨outs, -, hbuilds, hbuilt⟩ | ⟨⟨e, he⟩, -⟩⟩ := h
  · have houtputs : (CategoryDef.ofKind c.kind).outputs v.constants c.store.records
        (pristineText v.project start) = .ok outs := by
      rw [← hbuilds.outputs, hc.definition]
      refine CategoryDef.outputs_congr fun b hb => ?_
      have hsame : Binding.pristine? start ⟨b.rel⟩ = Binding.pristine? t ⟨b.rel⟩ :=
        ((IsPristine.self hstart.backups).bound _ hk b hb).trans
          (hbound b hb).symm
      rw [pristineText, pristineText, hsame]
    unfold builtContent?
    rw [houtputs]
    cases hfind : outs.find? fun o => Project.sourcePath o.1 = p with
    | some o =>
      have hpath : Project.sourcePath o.1 = p := by simpa using List.find?_some hfind
      simp only [hfind]
      rw [← hpath, hbuilt.written o (List.mem_of_find?_eq_some hfind)]
    | none =>
      simp only [hfind]
      -- only a file of a category without a generator is not written
      have hnot : p ∉ outs.map fun o => Project.sourcePath o.1 := by
        intro hmem
        obtain ⟨o, ho, heq⟩ := List.mem_map.1 hmem
        exact absurd (decide_eq_true heq) (List.find?_eq_none.1 hfind o ho)
      have hnone : (CategoryDef.ofKind c.kind).generator? = none := by
        by_contra hsome
        rw [hbuilds.map_paths hc, hc.definition, if_pos (Option.isSome_iff_ne_none.2 hsome)] at hnot
        rw [hc.definition] at hp
        exact hnot (CategoryKind.mem_outputPaths_iff.2 hp)
      have hdocument : p ≠ c.kind.documentPath := fun heq =>
        c.kind.documentPath_notMem (heq ▸ hc.written_subset hp)
      rw [hbuilt.kept p hp hnot, hsaves.changes.content? hdocument]
      rw [hc.definition, CategoryDef.writtenPaths, CategoryDef.generated_eq_nil hnone,
        List.map_nil, List.append_nil] at hp
      obtain ⟨b, hb, rfl⟩ := List.mem_map.1 hp
      exact hunwritten hnone b hb
  · cases he

/-- Whether an operation goes through a regeneration of a category. -/
def Operation.Regenerates (s : Session) (k : CategoryKind) : Operation → Prop
  | .regenerate kind =>
    kind = k ∧ (Run.exec (s.manager.regenerate kind) s.world).1.1 = .ok ()
  | .regenerateAll dryRun =>
    ⟨.build, k.id, .done, none⟩ ∈ newSteps s.world (Operation.run s (.regenerateAll dryRun)).world
  | _ => False

/-- The regeneration of a category that an operation goes through, between what the operation does
before and after it. -/
structure Operation.Regeneration (K : List CategoryKind) (s s' : Session) (c : Category)
    (t t' : FileTree) : Prop where
  /-- The category is one of the manager before the operation. -/
  mem : c ∈ s.manager.categories
  /-- What is done before changes files of other categories only. -/
  before : s.tree.Changes (trackedPaths K) (c.kind.Others K) t
  /-- The regeneration goes through. -/
  regenerates : c.Regenerates K s.manager.workshop (.ok ()) t t'
  /-- What is done after it changes files of other categories only. -/
  after : t'.Changes (trackedPaths K) (c.kind.Others K) s'.tree
  /-- The category has the same records after the operation. -/
  records : ∀ d ∈ s'.manager.categories, d.kind = c.kind → d.store.records = c.store.records

/-- A regeneration leaves the records of its category as they are. -/
theorem regenerateIfDue_records {v : Workshop} (hv : v.write = writeAnnounced v.project)
    (hc : c.IsManaged) (hk : c.kind ∈ K) {w w' : World} {dryRun : Bool} {n : Nat} {c' : Category}
    (hclear : w.tree.Clear (trackedPaths K))
    (hexec : Run.exec (Manager.regenerateIfDue v dryRun c) w = ((n, c'), w')) :
    c'.store.records = c.store.records := by
  by_cases hrests : c.IsDue w.tree → dryRun = true
  · obtain ⟨m, w₁, status, detail, hexec', -⟩ :=
      exists_regenerateIfDue_of_rests (v := v) dryRun hrests
    rw [← (Prod.mk.inj (Prod.mk.inj (hexec'.symm.trans hexec)).1).2]
  · obtain ⟨hdue, hdry⟩ := Classical.not_imp.1 hrests
    obtain rfl : dryRun = false := by simpa using hdry
    obtain ⟨r, w₁, hexec', -⟩ := exists_regenerateIfDue_of_isDue hv hc hk hclear hdue
    rw [← (Prod.mk.inj (Prod.mk.inj (hexec'.symm.trans hexec)).1).2]
    rfl

/-- The regeneration of one category. -/
theorem exists_regeneration_of_regenerate (hs : s.IsOver K) (hK : K.Nodup)
    (hclear : s.tree.Clear (trackedPaths K))
    (h : (Operation.regenerate k).Regenerates s k) :
    ∃ c t t', c.kind = k ∧ Operation.Regeneration K s ((Operation.regenerate k).run s) c t t' := by
  obtain ⟨-, hok⟩ := h
  rw [Manager.exec_regenerate] at hok
  rw [Operation.run, Manager.exec_regenerate]
  cases hfind : s.manager.categories.find? fun c => c.kind = k with
  | none =>
    rw [hfind] at hok
    cases hok
  | some c =>
    obtain ⟨hmem, rfl⟩ := Manager.find?_kind_spec hfind
    obtain ⟨r, w', hexec, hregenerates, -⟩ := exists_regenerate (v := s.manager.workshop) rfl
      (hs.managed c hmem) (hs.kind_mem hmem) hclear
    simp only [hfind] at hok ⊢
    cases htrusted : c.trusted with
    | false =>
      rw [htrusted] at hok
      cases hok
    | true =>
      simp only [htrusted, if_true, hexec] at hok ⊢
      rw [hok] at hregenerates
      refine ⟨c, s.tree, w'.tree, rfl, hmem, .refl _ _ _, hregenerates, .refl _ _ _,
        fun d hd hkind => ?_⟩
      rw [Manager.eq_of_mem_replaceCategory (hs.areManaged hK).distinct hd hkind]
      rfl

/-- The regeneration of a category in its turn, when all are regenerated. -/
theorem exists_regeneration_of_regenerateAll (hs : s.IsOver K) (hK : K.Nodup)
    (hclear : s.tree.Clear (trackedPaths K)) (hk : k ∈ K) {dryRun : Bool}
    (h : (Operation.regenerateAll dryRun).Regenerates s k) :
    ∃ c t t', c.kind = k ∧
      Operation.Regeneration K s ((Operation.regenerateAll dryRun).run s) c t t' := by
  obtain ⟨c, hc, rfl⟩ := hs.exists_category hk
  have hwrite : s.manager.workshop.write = writeAnnounced s.manager.workshop.project := rfl
  have hstep := regenerateIfDue_acts (K := K) hwrite dryRun
  have hcs := hs.areManaged hK
  obtain ⟨c', w₁, w₂, hturn⟩ := exists_turn hstep hcs hclear hc
  obtain ⟨n, hexec⟩ := hturn.exec
  have htells := regenerateIfDue_tellsOwn (K := K) hwrite dryRun
  have hrecords : ∀ d ∈ (Operation.run s (.regenerateAll dryRun)).manager.categories,
      d.kind = c.kind → d.store.records = c.store.records := by
    intro d hd hkind
    obtain ⟨e, he, w₃, w₄, hturn'⟩ := exists_turn_of_mem_result hstep hcs hclear hd
    obtain ⟨n, hexec'⟩ := hturn'.exec
    obtain rfl : e = c := hcs.eq_of_kind_eq he hc (hturn'.succeeds.kind.symm.trans hkind)
    exact regenerateIfDue_records hwrite (hs.managed e he) hk
      (hturn'.before.clear hclear) hexec'
  by_cases hrests : c.IsDue w₁.tree → dryRun = true
  · obtain ⟨m, w', status, detail, hexec', -, -, htold, hdone, -⟩ :=
      exists_regenerateIfDue_of_rests (v := s.manager.workshop) dryRun hrests
    obtain rfl : w' = w₂ := (Prod.mk.inj (hexec'.symm.trans hexec)).2
    have hstatus := List.mem_singleton.1 ((hturn.mem_newSteps_iff htells htold rfl).1 h)
    exact absurd (Step.mk.inj hstatus).2.2.1.symm hdone
  · obtain ⟨hdue, hdry⟩ := Classical.not_imp.1 hrests
    obtain rfl : dryRun = false := by simpa using hdry
    obtain ⟨r, w', hexec', hregenerates, htold⟩ := exists_regenerateIfDue_of_isDue hwrite
      (hs.managed c hc) hk (hturn.before.clear hclear) hdue
    obtain rfl : w' = w₂ := (Prod.mk.inj (hexec'.symm.trans hexec)).2
    have houtcome := List.mem_singleton.1 ((hturn.mem_newSteps_iff htells htold rfl).1 h)
    cases r with
    | error e => exact StepStatus.noConfusion (Step.mk.inj houtcome).2.2.1
    | ok _ =>
      exact ⟨c, w₁.tree, w'.tree, rfl, hc, hturn.before, hregenerates, hturn.after, hrecords⟩

/-- An operation that goes through a regeneration of a category. -/
theorem Operation.Regenerates.exists_regeneration (hs : s.IsOver K) (hK : K.Nodup)
    (hclear : s.tree.Clear (trackedPaths K)) {op : Operation} (h : op.Regenerates s k)
    (hk : k ∈ K) :
    ∃ c t t', c.kind = k ∧ Operation.Regeneration K s (op.run s) c t t' := by
  cases op with
  | regenerate kind =>
    obtain rfl := h.1
    exact exists_regeneration_of_regenerate hs hK hclear h
  | regenerateAll dryRun => exact exists_regeneration_of_regenerateAll hs hK hclear hk h
  | _ => exact h.elim

/-- What a regeneration writes follows from the sources at the start, the records and the
constants. -/
theorem Operation.Regeneration.content? {s s' : Session} (h : Operation.Regeneration K s s' c t t')
    (hs : s.IsOver K) (hstart : IsRestored K start) (hpristine : IsPristine K start s.tree)
    {d : Category} (hd : d ∈ s'.manager.categories) (hkind : d.kind = c.kind) {p : Path}
    (hp : p ∈ (CategoryDef.ofKind c.kind).writtenPaths) :
    s'.tree.content? p = builtContent? s.manager.project start s.manager.constants
      d.store.records c.kind p := by
  have hc := hs.managed c h.mem
  have hk := hs.kind_mem h.mem
  have hfree : ∀ q ∈ c.kind.managedPaths, ¬ c.kind.Others K q := fun q hq =>
    not_others_own hk (List.mem_cons_of_mem _ hq)
  rw [← hc.definition] at hp
  have hkept := hc.pristine?_of_changes h.before hfree
  rw [hc.definition] at hkept
  rw [h.after.content? (hfree p (hc.written_subset hp)), h.records d hd hkind]
  refine h.regenerates.content? hc hk hstart (fun b hb => ?_) (fun hnone b hb => ?_) hp
  · rw [(hkept b hb).1, hpristine.bound _ hk b hb]
  · rw [(hkept b hb).2, hpristine.unwritten _ hk hnone b hb]

/-! ## Whole runs -/

/-- **Backups stay pristine over whole runs.**  The start has neither backups nor generated files;
after any operations, a bound file has a backup with its content at the start, or has that content
itself.  So restoring brings all sources back and leaves nothing to restore, and what a regeneration
writes depends on the sources at the start, the records and the constants alone. -/
theorem Operation.runAll_pristine (hK : K.Nodup) {s₀ : Session} (hs₀ : s₀.IsOver K)
    (hclear : s₀.tree.Clear (trackedPaths K)) (hstart : IsRestored K s₀.tree)
    (ops : List Operation) (hops : ∀ op ∈ ops, op.IsConfined) {s : Session}
    (hs : s = Operation.runAll s₀ ops) :
    (∀ k ∈ K, ∀ b ∈ (CategoryDef.ofKind k).bindings,
      s.tree.HasFile b.backup ∧ s.tree.content? b.backup = s₀.tree.content? b.file ∨
        s.tree.file? b.backup = none ∧ s.tree.content? b.file = s₀.tree.content? b.file) ∧
    (∀ s', s' = Operation.restoreAll.run s →
      (∀ p, Project.sourceDir <+: p → s'.tree.content? p = s₀.tree.content? p) ∧
        (Run.exec s'.manager.restoreAll s'.world).1 = 0 ∧
        (Run.exec s'.manager.restoreAll s'.world).2.tree = s'.tree) ∧
    ∀ op : Operation, op.IsConfined → ∀ c ∈ (op.run s).manager.categories,
      op.Regenerates s c.kind → ∀ p ∈ c.definition.writtenPaths,
        (op.run s).tree.content? p = builtContent? s.manager.project s₀.tree s.manager.constants
          c.store.records c.kind p := by
  have hrun := Operation.runAll_spec hs₀ hK hclear ops hops
  rw [← hs] at hrun
  have hclear' := hrun.works.clear hclear
  have hpristine := (IsPristine.self hstart.backups).works hrun.works
  refine ⟨fun k hk b hb => hpristine.backup_or_file hk hb, ?_, fun op hop c hc hregenerates p hp => ?_⟩
  · rintro s' rfl
    have hrestore := Operation.run_spec hrun.isOver hK hclear' .restoreAll trivial
    have hrestored := isRestored_restoreAll hrun.isOver hK hclear'
    exact ⟨fun p hp => (hpristine.works hrestore.works).eq_of_isRestored hstart hrestored hp,
      restoreAll_of_isRestored hrestore.isOver (hrestore.works.clear hclear') hrestored⟩
  · have hop' := Operation.run_spec hrun.isOver hK hclear' op hop
    obtain ⟨d, t, t', hkind, hregeneration⟩ := hregenerates.exists_regeneration hrun.isOver hK
      hclear' (hop'.isOver.kind_mem hc)
    rw [(hop'.isOver.managed c hc).definition, ← hkind] at hp
    rw [← hkind]
    exact hregeneration.content? hrun.isOver hstart hpristine hc hkind.symm hp

/-- A run with a failing build in its middle. -/
theorem Operation.runAll_pristine_starters :
    let s := Operation.runAll (Starters.sampleSession [] 1)
      [.loadAll false, .setStarterField 0 "level" (.int 12), .regenerateAll false]
    (∀ k ∈ [CategoryKind.starters], ∀ b ∈ (CategoryDef.ofKind k).bindings,
      s.tree.HasFile b.backup ∧
          s.tree.content? b.backup = (Starters.sampleTree [] 1).content? b.file ∨
        s.tree.file? b.backup = none ∧
          s.tree.content? b.file = (Starters.sampleTree [] 1).content? b.file) ∧
    (∀ s', s' = Operation.restoreAll.run s →
      (∀ p, Project.sourceDir <+: p →
        s'.tree.content? p = (Starters.sampleTree [] 1).content? p) ∧
        (Run.exec s'.manager.restoreAll s'.world).1 = 0 ∧
        (Run.exec s'.manager.restoreAll s'.world).2.tree = s'.tree) ∧
    ∀ op : Operation, op.IsConfined → ∀ c ∈ (op.run s).manager.categories,
      op.Regenerates s c.kind → ∀ p ∈ c.definition.writtenPaths,
        (op.run s).tree.content? p = builtContent? s.manager.project (Starters.sampleTree [] 1)
          s.manager.constants c.store.records c.kind p :=
  Operation.runAll_pristine (by decide) (Starters.sampleSession_isOver [] 1) (by decide +kernel)
    ⟨by decide +kernel, by decide +kernel⟩ _ (by simp [Operation.IsConfined]) rfl

end TableSync
