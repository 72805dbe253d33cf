import TableSync.Proofs.Manager.Answer
import TableSync.Proofs.Manager.Spares

/-!
# Which records may be used

The records of a category may be used once they have been extracted, or read from its document.
Until then no operation takes them for the records of the category, whatever becomes of the files.

* `Category.load_loaded` and `Category.openDocument_loaded` say when a category may be used after a
  load, and `Category.persist_stays` and `Category.regenerate_stays` that other work changes nothing
  about it.  All of this holds whatever stands in the way of the files.
* `turns` are the turns of the categories in work on all of them, each with the world in which it
  comes, and `Operation.loads` says that a category has been loaded in its turn.  It is computed
  from the outcomes, so it is no assumption on them.
* `Category.Lacks` says that the records of a category may not be used if it is of a certain kind,
  and `Session.Lacks` says it of all categories.  It is the invariant: `Session.Lacks.run` is one
  operation that does not load the category.
* `ReachedWithout` are the sessions in which a category has never been loaded, and
  `ReachedWithout.lacks` says that its records may not be used in them.
-/

set_option autoImplicit false

namespace TableSync

variable {c : Category} {k : CategoryKind} {s : Session} {w : World}

/-! ## Work on one category

A category can come to be used in two ways, so there is one relation between a category and its
outcome for loads, and one for all other work. -/

/-- Saving a document changes nothing about its store but what is in its file. -/
theorem Store.path_of_save {project : Project} {s s' : Store} {saved : Bool} {w' : World}
    (h : Action.exec (s.save project) w = (.ok (s', saved), w')) : s'.path = s.path := by
  rw [Store.save, Action.exec_look_bind] at h
  cases hdirty : s.isDirty w.tree with
  | false =>
    rw [hdirty] at h
    have heq : (s, false) = (s', saved) := Except.ok.inj (congrArg Prod.fst h)
    rw [(Prod.mk.inj heq).1]
  | true =>
    rw [hdirty] at h
    obtain ⟨s₁, w₁, hforce, h⟩ := Action.exists_of_exec_bind_ok h
    have heq : (s₁, true) = (s', saved) := Except.ok.inj (congrArg Prod.fst h)
    rw [← (Prod.mk.inj heq).1, Store.eq_of_forceSave project hforce]

namespace Category

/-- A category has gone on, and its records may be used if they could be before. -/
structure Stays (c c' : Category) : Prop where
  /-- The category is at its place as before. -/
  succeeds : c.Succeeds c'
  /-- Its records may be used exactly if they could be before. -/
  trusted : c'.trusted = c.trusted

theorem Stays.refl (c : Category) : c.Stays c := ⟨.refl c, rfl⟩

theorem persist_stays (project : Project) (c : Category) :
    Run.Yields (c.persist project) fun out => c.Stays out.2 := by
  refine .bind fun r w w' hsave => ?_
  cases r with
  | error f => exact .pure (.refl c)
  | ok saved => exact .pure ⟨.of_eq rfl (Store.path_of_save hsave), rfl⟩

theorem regenerate_stays (v : Workshop) (c : Category) :
    Run.Yields (c.regenerate v) fun out => c.Stays out.2 := by
  refine .bind fun r w w' hsave => ?_
  cases r with
  | error f => exact .pure (.refl c)
  | ok saved =>
    exact .bind fun r w w' _ => .pure ⟨.of_eq rfl (Store.path_of_save hsave), rfl⟩

/-- A category after it has been loaded in some way, with the outcome: its records may be used only
if they could be before, or if the load has gone through. -/
structure Loaded (goesThrough : Except Failure Outcome → Bool) (c : Category)
    (out : Except Failure Outcome × Category) : Prop where
  /-- The category is at its place as before. -/
  succeeds : c.Succeeds out.2
  /-- Its records may be used only if they could be before, or if the load has gone through. -/
  trusted : out.2.trusted = true → c.trusted = true ∨ goesThrough out.1 = true

variable {goesThrough : Except Failure Outcome → Bool}

theorem keepDocument_loaded (project : Project) (c : Category) (f : Failure) :
    Run.Yields (c.keepDocument project f) (c.Loaded Except.isOk) := by
  refine .bind fun r w w' hload => ?_
  cases r with
  | error e => exact .pure ⟨.refl c, Or.inl⟩
  | ok store =>
    have hread : Action.exec (Store.load project c.store.path) w = (.ok store, w') := hload
    rw [exec_load] at hread
    exact .pure ⟨.of_eq rfl (Store.path_of_read (congrArg Prod.fst hread)), fun _ => Or.inr rfl⟩

theorem saveExtraction_loaded (project : Project) (c : Category) (extraction : Extraction) :
    Run.Yields (c.saveExtraction project extraction) (c.Loaded Except.isOk) := by
  refine .bind fun r w w' hforce => ?_
  cases r with
  | error e => exact .pure ⟨.of_eq rfl rfl, Or.inl⟩
  | ok store =>
    obtain rfl := Store.eq_of_forceSave project hforce
    refine .bind fun r w w' _ => ?_
    cases r with
    | error e => exact .pure ⟨.of_eq rfl rfl, Or.inl⟩
    | ok _ => exact .pure ⟨.of_eq rfl rfl, fun _ => Or.inr rfl⟩

theorem extract_loaded (v : Workshop) (c : Category) :
    Run.Yields (c.extract v) (c.Loaded Except.isOk) := by
  refine .bind fun r w w' _ => ?_
  cases r with
  | error f =>
    refine .bind fun there w w' _ => ?_
    cases there with
    | true => exact keepDocument_loaded v.project c f
    | false => exact .pure ⟨.of_eq rfl rfl, fun h => Bool.noConfusion h⟩
  | ok extraction => exact .bind fun _ _ _ _ => saveExtraction_loaded v.project c extraction

/-- **A load that fails makes no records usable.** -/
theorem load_loaded (v : Workshop) (force : Bool) (c : Category) :
    Run.Yields (c.load v force) (c.Loaded Except.isOk) := by
  intro w
  cases hdue : force || c.extractionDue w.tree with
  | true =>
    rw [exec_load_of_due hdue]
    exact extract_loaded v c w
  | false =>
    obtain ⟨rfl, hdue⟩ := Bool.or_eq_false_iff.1 hdue
    rw [exec_load_of_not_due hdue]
    cases hread : Store.read v.project w.tree c.store.path with
    | error f => exact ⟨.refl c, Or.inl⟩
    | ok store => exact ⟨.of_eq rfl (Store.path_of_read hread), fun _ => Or.inr rfl⟩

/-- Whether a document that was to be read has been found. -/
def wasOpened : Except Failure Outcome → Bool
  | .ok (.done _) => true
  | _ => false

theorem openDocument_loaded (project : Project) (c : Category) :
    Run.Yields (c.openDocument project) (c.Loaded wasOpened) := by
  refine .bind fun r w w' hload => ?_
  cases r with
  | error e => exact .pure ⟨.refl c, Or.inl⟩
  | ok store =>
    have hread : Action.exec (Store.load project c.store.path) w = (.ok store, w') := hload
    rw [exec_load] at hread
    have hpath := Store.path_of_read (congrArg Prod.fst hread)
    refine .bind fun there w w' _ => ?_
    cases there with
    | true => exact .pure ⟨.of_eq rfl hpath, fun _ => Or.inr rfl⟩
    | false => exact .pure ⟨.of_eq rfl hpath, fun h => Bool.noConfusion h⟩

/-! ## A category that is not loaded -/

/-- The category is managed, and its records may not be used if it is of a certain kind. -/
structure Lacks (k : CategoryKind) (c : Category) : Prop where
  /-- The category is at its place. -/
  managed : c.IsManaged
  /-- If it is of the kind, its records may not be used. -/
  untrusted : c.kind = k → c.trusted = false

theorem lacks_ofKind (j : CategoryKind) : (ofKind j).Lacks k := by
  have hkind : (ofKind j).kind = j := j.kind_ofKind
  exact ⟨⟨by rw [hkind]; rfl, by rw [hkind]; rfl⟩, fun _ => rfl⟩

theorem Lacks.of_stays {c' : Category} (h : c.Lacks k) (hstays : c.Stays c') : c'.Lacks k :=
  ⟨hstays.succeeds.managed h.managed, fun hkind =>
    hstays.trusted.trans (h.untrusted (hstays.succeeds.kind.symm.trans hkind))⟩

theorem Lacks.of_loaded {out : Except Failure Outcome × Category} (h : c.Lacks k)
    (hloaded : c.Loaded goesThrough out) (hfails : c.kind = k → goesThrough out.1 = false) :
    out.2.Lacks k := by
  refine ⟨hloaded.succeeds.managed h.managed, fun hkind => ?_⟩
  have hkind : c.kind = k := hloaded.succeeds.kind.symm.trans hkind
  rw [← Bool.not_eq_true]
  intro htrusted
  rcases hloaded.trusted htrusted with htrusted | hthrough
  · rw [h.untrusted hkind] at htrusted
    cases htrusted
  · rw [hfails hkind] at hthrough
    cases hthrough

end Category

/-! ## Turns

What a category finds in its turn depends on those before it.  A turn has the world with it, so that
what is said of a step in a world can be said of every turn. -/

/-- The turns of categories: each with the world in which its turn comes. -/
def turns (step : Category → Run (Nat × Category)) :
    List Category → World → List (Category × World)
  | [], _ => []
  | c :: rest, w => (c, w) :: turns step rest (Run.exec (step c) w).2

variable {step : Category → Run (Nat × Category)} {cs : List Category}

theorem overCategories_eq_map_turns (step : Category → Run (Nat × Category)) (cs : List Category)
    (w : World) : (Run.exec (overCategories step cs) w).1.2 =
      (turns step cs w).map fun turn => (Run.exec (step turn.1) turn.2).1.2 := by
  induction cs generalizing w with
  | nil => rfl
  | cons c rest ih =>
    rw [exec_overCategories_cons, turns, List.map_cons, ih]

theorem mem_of_mem_turns {turn : Category × World} (h : turn ∈ turns step cs w) : turn.1 ∈ cs := by
  induction cs generalizing w with
  | nil => exact absurd h List.not_mem_nil
  | cons c rest ih =>
    rcases List.mem_cons.1 h with rfl | h
    · exact List.mem_cons_self
    · exact List.mem_cons_of_mem c (ih h)

/-- What each step keeps to in its turn, work on all categories keeps to. -/
theorem lacks_overCategories (hcs : ∀ c ∈ cs, c.Lacks k)
    (hstep : ∀ turn ∈ turns step cs w, turn.1.Lacks k →
      (Run.exec (step turn.1) turn.2).1.2.Lacks k) :
    ∀ c ∈ (Run.exec (overCategories step cs) w).1.2, c.Lacks k := by
  rw [overCategories_eq_map_turns, List.forall_mem_map]
  exact fun turn hturn => hstep turn hturn (hcs turn.1 (mem_of_mem_turns hturn))

/-! ## Operations -/

/-- How the extraction of a category ends in its turn. -/
def loadOutcome (v : Workshop) (force : Bool) (turn : Category × World) : Except Failure Outcome :=
  (Run.exec (do
    say .stage s!"{Phase.extract.verb} {turn.1.id}"
    turn.1.load v force) turn.2).1.1

/-- How the reading of a document ends in its turn. -/
def openOutcome (project : Project) (turn : Category × World) : Except Failure Outcome :=
  (Run.exec (turn.1.openDocument project) turn.2).1.1

/-- Whether an operation loads a category: extracts it, or reads a document that is there. -/
def Operation.loads (k : CategoryKind) (s : Session) : Operation → Bool
  | .loadAll force =>
    (turns (Manager.loadCategory s.manager.workshop force) s.manager.categories s.world).any
      fun turn => turn.1.kind = k && (loadOutcome s.manager.workshop force turn).isOk
  | .openDocuments =>
    (turns (Manager.openCategory s.manager.project) s.manager.categories s.world).any
      fun turn => turn.1.kind = k && Category.wasOpened (openOutcome s.manager.project turn)
  | _ => false

/-! ### Steps on categories -/

theorem loadCategory_lacks {v : Workshop} {force : Bool} (h : c.Lacks k)
    (hfails : c.kind = k → (loadOutcome v force (c, w)).isOk = false) :
    (Run.exec (Manager.loadCategory v force c) w).1.2.Lacks k := by
  have hload := Category.load_loaded v force c
    (Run.exec (say .stage s!"{Phase.extract.verb} {c.id}") w).2
  exact h.of_loaded hload hfails

theorem openCategory_lacks {project : Project} (h : c.Lacks k)
    (hfails : c.kind = k → Category.wasOpened (openOutcome project (c, w)) = false) :
    (Run.exec (Manager.openCategory project c) w).1.2.Lacks k :=
  h.of_loaded (Category.openDocument_loaded project c w) hfails

theorem persistCategory_stays (project : Project) (c : Category) :
    Run.Yields (Manager.persistCategory project c) fun out => c.Stays out.2 := by
  rw [Manager.persistCategory]
  cases htrusted : c.trusted with
  | false => exact .pure (.refl c)
  | true =>
    refine .bind fun out w w' hpersist => ?_
    have hstays := Category.persist_stays project c w
    rw [hpersist] at hstays
    obtain ⟨r, c'⟩ := out
    cases r with
    | error f => exact .bind fun _ _ _ _ => .pure hstays
    | ok saved => cases saved <;> exact .bind fun _ _ _ _ => .pure hstays

theorem regenerateIfDue_stays (v : Workshop) (dryRun : Bool) (c : Category) :
    Run.Yields (Manager.regenerateIfDue v dryRun c) fun out => c.Stays out.2 := by
  rw [Manager.regenerateIfDue]
  cases htrusted : c.trusted with
  | false => exact .bind fun _ _ _ _ => .pure (.refl c)
  | true =>
    refine .bind fun due w w' _ => ?_
    cases due with
    | false => exact .bind fun _ _ _ _ => .pure (.refl c)
    | true =>
      cases dryRun with
      | true => exact .bind fun _ _ _ _ => .bind fun _ _ _ _ => .pure (.refl c)
      | false =>
        refine .bind fun _ _ _ _ => .bind fun out w w' hregenerate => ?_
        have hstays := Category.regenerate_stays v c w
        rw [hregenerate] at hstays
        exact .bind fun _ _ _ _ => .pure hstays

/-! ### Sessions -/

/-- The records of a category may not be used in a session. -/
def Session.Lacks (k : CategoryKind) (s : Session) : Prop :=
  ∀ c ∈ s.manager.categories, c.Lacks k

theorem Session.lacks_ofKinds (project : Project) (constants : ConstantTable)
    (preprocessor : Preprocessor) (K : List CategoryKind) (w : World) :
    Session.Lacks k ⟨Manager.ofKinds project constants preprocessor K, w⟩ :=
  List.forall_mem_map.2 fun j _ => Category.lacks_ofKind j

/-- A category may be replaced by what it has become. -/
theorem Session.Lacks.update {c' : Category} (h : s.Lacks k) (hc : c ∈ s.manager.categories)
    (hstays : c.Stays c') (w : World) : Session.Lacks k ⟨s.manager.update c', w⟩ := by
  intro d hd
  rcases Manager.mem_of_mem_replaceCategory hd with rfl | hd
  · exact (h c hc).of_stays hstays
  · exact h d hd

theorem Session.Lacks.run_of_isEdit (h : s.Lacks k) {op : Operation} (hop : op.isEdit = true) :
    (op.run s).Lacks k := by
  obtain ⟨kind, refusal, edit, -, hedit⟩ := Operation.exists_edit hop
  have hrun : op.run s = (Operation.edited kind refusal edit s).1 := congrArg Prod.fst (hedit s)
  rw [hrun]
  cases hloaded : s.manager.loaded? kind with
  | none =>
    rw [Operation.edited_of_none hloaded]
    exact h
  | some c =>
    cases hout : edit c with
    | error f =>
      rw [Operation.edited_of_error hloaded hout]
      exact h
    | ok out =>
      have hstays : c.Stays (c.extracted out.2) := ⟨.of_eq rfl rfl, rfl⟩
      rw [Operation.edited_of_ok hloaded hout]
      exact h.update (Manager.loaded?_spec hloaded).1 hstays s.world

theorem Session.Lacks.forAll (h : s.Lacks k) {step : Category → Run (Nat × Category)}
    (hstep : ∀ c, Run.Yields (step c) fun out => c.Stays out.2) :
    Session.Lacks k ⟨(Run.exec (s.manager.forAll step) s.world).1.2,
      (Run.exec (s.manager.forAll step) s.world).2⟩ :=
  lacks_overCategories h fun turn _ hlacks => hlacks.of_stays (hstep turn.1 turn.2)

/-- **An operation that does not load a category makes its records not usable.** -/
theorem Session.Lacks.run (h : s.Lacks k) {op : Operation} (hop : op.loads k s = false) :
    (op.run s).Lacks k := by
  cases op with
  | start constants preprocessor => exact lacks_ofKinds s.manager.project constants preprocessor _ _
  | loadAll force =>
    refine lacks_overCategories h fun turn hturn hlacks => loadCategory_lacks hlacks fun hkind => ?_
    -- No turn of this run loads `k`: where the turn is that of `k`, loading it fails.
    have hfails := List.any_eq_false.1 hop turn hturn
    simpa [hkind] using hfails
  | openDocuments =>
    refine lacks_overCategories h fun turn hturn hlacks => openCategory_lacks hlacks fun hkind => ?_
    have hfails := List.any_eq_false.1 hop turn hturn
    simpa [hkind] using hfails
  | persistAll => exact h.forAll (persistCategory_stays s.manager.project)
  | regenerateAll dryRun => exact h.forAll (regenerateIfDue_stays s.manager.workshop dryRun)
  | restoreAll => exact h
  -- The operations on one category change that category only, and none of them makes it loaded.
  | save kind =>
    cases hloaded : s.manager.loaded? kind with
    | none =>
      rw [(Operation.save_of_none hloaded).1]
      exact h
    | some c =>
      rw [(Operation.save_of_loaded hloaded).1]
      exact h.update (Manager.loaded?_spec hloaded).1
        (Category.persist_stays s.manager.project c s.world) _
  | regenerate kind =>
    cases hfind : s.manager.categories.find? fun c => c.kind = kind with
    | none =>
      rw [(Operation.regenerate_of_none hfind).1]
      exact h
    | some c =>
      cases htrusted : c.trusted with
      | false =>
        rw [(Operation.regenerate_of_untrusted hfind htrusted).1]
        exact h
      | true =>
        rw [(Operation.regenerate_of_trusted hfind htrusted).1]
        exact h.update (Manager.find?_kind_spec hfind).1
          (Category.regenerate_stays s.manager.workshop c s.world) _
  | set kind path v => exact h.run_of_isEdit rfl
  | setSpeciesInfo species key v form? => exact h.run_of_isEdit rfl
  | setStarterField slot key v => exact h.run_of_isEdit rfl

/-- The sessions in which a category has never been loaded: they start before anything has been
read, and go on by operations that do not load it; in between, files may be changed by others. -/
inductive ReachedWithout (k : CategoryKind) : Session → Prop
  | start (project : Project) (constants : ConstantTable) (preprocessor : Preprocessor)
      (K : List CategoryKind) (w : World) :
      ReachedWithout k ⟨Manager.ofKinds project constants preprocessor K, w⟩
  | run {s : Session} (h : ReachedWithout k s) (op : Operation) (hop : op.loads k s = false) :
      ReachedWithout k (op.run s)
  | files {s : Session} (h : ReachedWithout k s) (tree : FileTree) :
      ReachedWithout k { s with world := { s.world with tree } }

/-- **The records of a category that has never been loaded may not be used.** -/
theorem ReachedWithout.lacks (h : ReachedWithout k s) : s.Lacks k := by
  induction h with
  | start project constants preprocessor K w =>
    exact Session.lacks_ofKinds project constants preprocessor K w
  | run h op hop ih => exact ih.run hop
  | files h tree ih => exact ih

end TableSync
