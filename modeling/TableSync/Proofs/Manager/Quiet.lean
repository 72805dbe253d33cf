import TableSync.Proofs.Manager.Current

/-!
# What one category sees of the work on all

While all categories are worked on, each sees what its own step does.  Of the others it sees
nothing, unless one of them disturbs it.

* `IsQuiet` says so of a kind of step, under a condition on the categories that are still to come
  and on the tree (`calm`), which the steps keep.  A condition is needed for regenerations alone; it
  is trivial for the other kinds.
* `IsQuiet.agreeOn_all` goes over a list of other categories, and `IsQuiet.exists_turn` takes work
  on all categories apart as one of them sees it: `QuietTurn` has nothing change before its own step
  and nothing after it.
* `isQuiet_loadCategory` and `isQuiet_persistCategory` are quiet always, `isQuiet_regenerateIfDue`
  where the categories that are due are calm (`IsCalm`): the dex is not due, or the category looked
  at is not species, or the header that they share is not there.
* `exec_loadCategory_of_isCurrent` is the load of a current document, which changes nothing at all.

A category sees its own files and its inputs (`CategoryKind.Sees`), so what is said here is more
than that the others leave its files alone.
-/

set_option autoImplicit false

namespace TableSync

variable {K : List CategoryKind} {k : CategoryKind} {c : Category} {cs : List Category}
  {v : Workshop} {w : World} {step : Category → Run (Nat × Category)}
  {calm : List Category → FileTree → Prop}

/-- Steps on other categories are not seen by one category.  What this takes holds of the categories
that are still to come. -/
structure IsQuiet (K : List CategoryKind) (k : CategoryKind)
    (step : Category → Run (Nat × Category)) (calm : List Category → FileTree → Prop) :
    Prop where
  /-- The steps are steps on categories. -/
  acts : StepActs K step
  /-- A step leaves the condition true for those that are still to come. -/
  stays : ∀ {c : Category} {cs : List Category} {w : World}, AreManaged K (c :: cs) →
    w.tree.Clear (trackedPaths K) → calm (c :: cs) w.tree → calm cs (Run.exec (step c) w).2.tree
  /-- A step on another category changes nothing that is seen. -/
  agreeOn : ∀ {c : Category} {cs : List Category} {w : World}, AreManaged K (c :: cs) →
    w.tree.Clear (trackedPaths K) → calm (c :: cs) w.tree → c.kind ≠ k →
      w.tree.AgreeOn k.Sees (Run.exec (step c) w).2.tree

/-- What a category sees of work on others. -/
theorem IsQuiet.agreeOn_all (h : IsQuiet K k step calm) (hcs : AreManaged K cs)
    (hclear : w.tree.Clear (trackedPaths K)) (hcalm : calm cs w.tree)
    (hne : ∀ d ∈ cs, d.kind ≠ k) :
    w.tree.AgreeOn k.Sees (Run.exec (overCategories step cs) w).2.tree := by
  induction cs generalizing w with
  | nil => exact fun _ _ => rfl
  | cons c cs ih =>
    have hacts := (h.acts c w (hcs.managed c List.mem_cons_self)
      (hcs.kinds c List.mem_cons_self) hclear).2
    rw [exec_overCategories_cons]
    exact (h.agreeOn hcs hclear hcalm (hne c List.mem_cons_self)).trans
      (ih hcs.tail (hacts.changes.clear hclear) (h.stays hcs hclear hcalm)
        fun d hd => hne d (List.mem_cons_of_mem c hd))

/-- The turn of a category as it sees it: before and after its own step, nothing changes. -/
structure QuietTurn (K : List CategoryKind) (step : Category → Run (Nat × Category))
    (c c' : Category) (w w₁ w₂ w' : World) : Prop where
  /-- The category is worked on between the second world and the third. -/
  exec : ∃ n, Run.exec (step c) w₁ = ((n, c'), w₂)
  /-- Nothing stands in the way of files when its turn comes. -/
  clear : w₁.tree.Clear (trackedPaths K)
  /-- Nothing that it sees has been changed before. -/
  before : w.tree.AgreeOn c.kind.Sees w₁.tree
  /-- Nothing that it sees is changed after. -/
  after : w₂.tree.AgreeOn c.kind.Sees w'.tree
  /-- The clock has not gone back before. -/
  clock_before : w.tree.clock ≤ w₁.tree.clock
  /-- The clock does not go back after. -/
  clock_after : w₂.tree.clock ≤ w'.tree.clock

/-- **Work on all categories as one of them sees it.** -/
theorem IsQuiet.exists_turn (h : IsQuiet K k step calm) (hcs : AreManaged K cs)
    (hclear : w.tree.Clear (trackedPaths K)) (hcalm : calm cs w.tree) (hc : c ∈ cs)
    (hkind : c.kind = k) :
    ∃ c' w₁ w₂, QuietTurn K step c c' w w₁ w₂ (Run.exec (overCategories step cs) w).2 ∧
      ∀ d ∈ (Run.exec (overCategories step cs) w).1.2, d.kind = k → d = c' := by
  induction cs generalizing w with
  | nil => exact absurd hc List.not_mem_nil
  | cons d cs ih =>
    obtain ⟨hsucceeds, hacts⟩ := h.acts d w (hcs.managed d List.mem_cons_self)
      (hcs.kinds d List.mem_cons_self) hclear
    have hclear₁ := hacts.changes.clear hclear
    have hcalm₁ := h.stays hcs hclear hcalm
    obtain ⟨hkinds, -⟩ := hcs.tail.overCategories h.acts hclear₁
    rw [exec_overCategories_cons]
    rcases List.mem_cons.1 hc with rfl | hmem
    · have hne : ∀ e ∈ cs, e.kind ≠ k := fun e he => hkind ▸ hcs.kind_ne e he
      refine ⟨_, w, _, ⟨⟨_, rfl⟩, hclear, fun _ _ => rfl,
        hkind ▸ h.agreeOn_all hcs.tail hclear₁ hcalm₁ hne, Nat.le_refl _,
        (overCategories_works h.acts hcs.tail hclear₁).clock⟩, fun e he heq => ?_⟩
      rcases List.mem_cons.1 he with rfl | he
      · rfl
      · have hin := List.mem_map_of_mem (f := Category.kind) he
        rw [hkinds] at hin
        obtain ⟨e', he', heq'⟩ := List.mem_map.1 hin
        exact absurd (heq'.trans heq) (hne e' he')
    · have hne : d.kind ≠ k := hkind ▸ Ne.symm (hcs.kind_ne c hmem)
      obtain ⟨c', w₁, w₂, hturn, hunique⟩ := ih hcs.tail hclear₁ hcalm₁ hmem
      refine ⟨c', w₁, w₂, ⟨hturn.exec, hturn.clear, ?_, hturn.after,
        Nat.le_trans hacts.changes.clock hturn.clock_before, hturn.clock_after⟩, fun e he heq => ?_⟩
      · exact (hkind ▸ h.agreeOn hcs hclear hcalm hne).trans hturn.before
      · rcases List.mem_cons.1 he with rfl | he
        · exact absurd (hsucceeds.kind.symm.trans heq) hne
        · exact hunique e he heq

/-! ## Loading and saving -/

theorem isQuiet_loadCategory (hv : v.preprocessor.IsConfined) (hk : k ∈ K) (force : Bool) :
    IsQuiet K k (Manager.loadCategory v force) fun _ _ => True := by
  refine ⟨loadCategory_acts hv force, fun _ _ _ => trivial, fun {c cs w} hcs hclear _ hne => ?_⟩
  obtain ⟨w₀, w', htree₀, hexec, htree⟩ := exec_loadCategory v force c w
  rw [← htree₀] at hclear ⊢
  have hchanges := (load_spec hv (hcs.managed c List.mem_cons_self)
    (hcs.kinds c List.mem_cons_self) hclear force).2
  rw [hexec]
  rw [← htree] at hchanges
  exact agreeOn_of_extracts hchanges hk hne

/-- A category with what its document holds, if that can be read. -/
def Category.reloaded (project : Project) (t : FileTree) (c : Category) : Category :=
  (Store.read project t c.kind.documentPath).toOption.elim c c.withStore

/-- A current document is read, and nothing is changed. -/
theorem exec_loadCategory_of_isCurrent (hc : c.IsManaged) (hk : c.kind ∈ K)
    (hclear : w.tree.Clear (trackedPaths K))
    (hcurrent : ∃ document, c.kind.IsCurrent w.tree document) :
    ∃ w', Run.exec (Manager.loadCategory v false c) w =
        ((0, c.reloaded v.project w.tree), w') ∧ w'.tree = w.tree := by
  obtain ⟨w₀, w', htree₀, hexec, htree⟩ := exec_loadCategory v false c w
  have hdue : c.extractionDue w₀.tree = false := by
    rw [htree₀]
    exact (extractionDue_eq_false_iff hc hk hclear).2 hcurrent
  rw [exec_load_of_not_due hdue, hc.path, htree₀] at hexec htree
  refine ⟨w', hexec.trans ?_, htree⟩
  rw [Category.reloaded]
  cases Store.read v.project w.tree c.kind.documentPath <;> rfl

theorem isQuiet_persistCategory (project : Project) (hk : k ∈ K) :
    IsQuiet K k (Manager.persistCategory project) fun _ _ => True := by
  refine ⟨persistCategory_acts project, fun _ _ _ => trivial, fun {c cs w} hcs hclear _ hne => ?_⟩
  obtain ⟨n, w', hexec, hsaves⟩ := exists_persistCategory project
    (hcs.managed c List.mem_cons_self) (hcs.kinds c List.mem_cons_self) hclear
  rw [hexec]
  rcases hsaves with ⟨-, htree⟩ | ⟨-, hsaves⟩
  · exact fun p _ => by rw [htree]
  · exact hsaves.agreeOn hk hne

/-! ## Regenerating

Whether a category is due is seen from its own files, so the calm of those that are still to come
does not depend on those that have been worked on. -/

/-- None of the categories that are due disturbs another one. -/
def IsCalm (k : CategoryKind) (cs : List Category) (t : FileTree) : Prop :=
  ∀ d ∈ cs, d.IsDue t → ¬ d.Disturbs k t

/-- What another category sees of one that is worked on where that is due. -/
theorem agreeOn_of_regenerateIfDue (hv : v.write = writeAnnounced v.project) (dryRun : Bool)
    (hc : c.IsManaged) (hk : c.kind ∈ K) (hclear : w.tree.Clear (trackedPaths K))
    (hne : c.kind ≠ k) (hcalm : c.IsDue w.tree → ¬ c.Disturbs k w.tree) :
    w.tree.AgreeOn k.Sees (Run.exec (Manager.regenerateIfDue v dryRun c) w).2.tree := by
  by_cases hrests : c.IsDue w.tree → dryRun = true
  · obtain ⟨n, w', status, detail, hexec, htree, -⟩ :=
      exists_regenerateIfDue_of_rests (v := v) dryRun hrests
    rw [hexec]
    show w.tree.AgreeOn k.Sees w'.tree
    rw [htree]
    exact fun _ _ => rfl
  · obtain ⟨hdue, hdry⟩ := Classical.not_imp.1 hrests
    obtain rfl : dryRun = false := by simpa using hdry
    obtain ⟨r, w', hexec, hregenerates, -⟩ := exists_regenerateIfDue_of_isDue hv hc hk hclear hdue
    rw [hexec]
    exact hregenerates.agreeOn hc hne (hcalm hdue)

/-- A step on a category leaves the files of another one alone. -/
theorem agreeOn_own_of_acts {d : Category} {t t' : FileTree} (hacts : c.Acts K t t')
    (hk : c.kind ∈ K) (hdk : d.kind ∈ K) (hne : d.kind ≠ c.kind) :
    t.AgreeOn (· ∈ d.kind.ownPaths) t' :=
  fun p hp => hacts.changes.frame p fun htouched =>
    not_others_own hdk hp ⟨c.kind, hk, Ne.symm hne, htouched⟩

/-- What is due for the others, and whom they disturb, is not changed by a step on a category. -/
theorem IsCalm.stays (hv : v.write = writeAnnounced v.project) (dryRun : Bool)
    (hcs : AreManaged K (c :: cs)) (hclear : w.tree.Clear (trackedPaths K))
    (hcalm : IsCalm k (c :: cs) w.tree) :
    IsCalm k cs (Run.exec (Manager.regenerateIfDue v dryRun c) w).2.tree := by
  intro d hd hdue hdisturbs
  have hk := hcs.kinds c List.mem_cons_self
  obtain ⟨-, hacts⟩ := regenerateIfDue_acts (K := K) hv dryRun c w
    (hcs.managed c List.mem_cons_self) hk hclear
  have hdk := hcs.kinds d (List.mem_cons_of_mem c hd)
  have hsame := agreeOn_own_of_acts hacts hk hdk (hcs.kind_ne d hd)
  refine hcalm d (List.mem_cons_of_mem c hd) ((Category.IsDue.congr
    (hcs.managed d (List.mem_cons_of_mem c hd)) hdk hclear (hacts.changes.clear hclear)
      hsame).1 hdue) ⟨hdisturbs.1, hdisturbs.2.1, (hsame.hasFile ?_).1 hdisturbs.2.2⟩
  rw [hdisturbs.1]
  exact List.mem_cons_of_mem _ (CategoryKind.paths_subset (k := .pokedex)
    (b := ⟨Pokedex.header⟩) List.mem_cons_self List.mem_cons_self)

theorem isQuiet_regenerateIfDue (hv : v.write = writeAnnounced v.project) (dryRun : Bool) :
    IsQuiet K k (Manager.regenerateIfDue v dryRun) (IsCalm k) :=
  ⟨regenerateIfDue_acts hv dryRun,
    fun hcs hclear hcalm => IsCalm.stays hv dryRun hcs hclear hcalm,
    fun {c _ _} hcs hclear hcalm hne => agreeOn_of_regenerateIfDue hv dryRun
      (hcs.managed c List.mem_cons_self) (hcs.kinds c List.mem_cons_self) hclear hne
      (hcalm c List.mem_cons_self)⟩

end TableSync
