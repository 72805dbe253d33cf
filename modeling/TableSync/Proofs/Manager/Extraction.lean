import TableSync.Proofs.Manager.Build

/-!
# Extraction keeps to its files

Extracting or reading a document changes no file but the document and what the preprocessor writes.
That is all that the other categories need to know of it; what is in the document is said elsewhere.

* `Preprocessor.IsConfined` says that the preprocessor writes below `processed` only.  It is the one
  thing that is assumed of a program that this library does not contain, and it is asked for no more
  sources than the categories have preprocessed.
* `Category.Succeeds` ties a category to its outcome, which is of the same kind.
* `within_fetchAll` and `within_extraction` say that fetching sources changes preprocessed files
  only, whether or not it goes through.
* `saveExtraction_spec` and `extract_spec` go on to the document, which is written and given the
  time of the newest input.
* `load_spec` and `openDocument_spec` say what loading and opening a document change.
* `exec_load_of_due` and `exec_load_of_not_due` are the two ways of a load: it extracts where that
  is due, and reads the document where it is not.
-/

set_option autoImplicit false

namespace TableSync

/-- Whether a path is that of a preprocessed file. -/
def IsProcessed (p : Path) : Prop := Project.processedDir <+: p

/-- For the sources of the categories, the preprocessor writes only below `processed`, and the time
does not go back. -/
structure Preprocessor.IsConfined (preprocessor : Preprocessor) : Prop where
  /-- What is not below `processed` is as it was. -/
  node : ∀ (k : CategoryKind) (rel : String) (includes : List String),
    .preprocess rel includes ∈ (CategoryDef.ofKind k).fetch → ∀ (w : World) (p : Path),
      ¬ IsProcessed p → (Action.exec (preprocessor.runner
        (preprocessor.config.commandLine rel includes) Project.sourceDir) w).2.tree.node? p =
          w.tree.node? p
  /-- The clock does not go back. -/
  clock : ∀ (k : CategoryKind) (rel : String) (includes : List String),
    .preprocess rel includes ∈ (CategoryDef.ofKind k).fetch → ∀ w : World,
      w.tree.clock ≤ (Action.exec (preprocessor.runner
        (preprocessor.config.commandLine rel includes) Project.sourceDir) w).2.tree.clock

/-- A category with its outcome, where the category is as it was but for its records and whether
they may be used. -/
structure Category.Succeeds (c c' : Category) : Prop where
  /-- The kind is the same. -/
  kind : c'.kind = c.kind
  /-- The definition and the path of the document are still those of the kind. -/
  managed : c.IsManaged → c'.IsManaged

theorem Category.Succeeds.refl (c : Category) : c.Succeeds c := ⟨rfl, fun h => h⟩

theorem Category.Succeeds.of_eq {c c' : Category} (hdefinition : c'.definition = c.definition)
    (hpath : c'.store.path = c.store.path) : c.Succeeds c' := by
  have hkind : c'.kind = c.kind := by rw [Category.kind, Category.kind, hdefinition]
  refine ⟨hkind, fun h => ⟨?_, ?_⟩⟩
  · rw [hdefinition, hkind, h.definition]
  · rw [hpath, hkind, h.path]

variable {K : List CategoryKind} {touched : Path → Prop} {preprocessor : Preprocessor}
  {project : Project} {c : Category} {w : World}

/-! ## Fetching sources -/

theorem exec_readSource (project : Project) (p : Path) (w : World) :
    Action.exec (readSource project p) w = (sourceText project w.tree p, w) := by
  rw [readSource, Action.exec_get_bind, Action.exec_ofResult]

theorem within_sayAll {ps : List Path} (level : Level) (texts : List String) :
    Action.Within ps touched (sayAll level texts) := by
  induction texts with
  | nil => exact Action.within_of_tree fun _ => rfl
  | cons text rest ih => exact (Action.within_of_tree fun _ => rfl).bind fun _ => ih

/-- The preprocessor changes no tracked file. -/
theorem within_preprocess (h : preprocessor.IsConfined) {k : CategoryKind} {rel : String}
    {includes : List String} (hstep : .preprocess rel includes ∈ (CategoryDef.ofKind k).fetch) :
    Action.Within (trackedPaths K) IsProcessed
      (preprocessor.preprocess project rel includes) := by
  have hparent : ∀ r ∈ trackedPaths K, ¬ r <+: (Project.processedPath rel).dropLast := by
    exact fun r hr hstart =>
      not_on_way_to_processed hr _ (hstart.trans (List.dropLast_prefix _))
  have hrun : Action.Within (trackedPaths K) IsProcessed (preprocessor.runner
      (preprocessor.config.commandLine rel includes) Project.sourceDir) := by
    intro w hclear
    have hnode := h.node k rel includes hstep w
    refine ⟨fun _ p hp => ⟨?_, fun q hq => ?_⟩, h.clock k rel includes hstep w, fun q hq => ?_⟩
    · rw [FileTree.isDirectory, hnode p (not_under_processedDir hp)]
      exact (hclear p hp).place
    · have hq' : ¬ IsProcessed q := fun hprocessed =>
        not_under_processedDir hp (hprocessed.trans (hq.trans (List.dropLast_prefix p)))
      rw [FileTree.isFile, hnode q hq']
      exact (hclear p hp).way q hq
    · rw [FileTree.file?, FileTree.file?, hnode q hq]
  refine (Action.within_ensureParent project hparent).bind fun _ => ?_
  refine (Action.within_of_tree fun _ => rfl).bind fun _ => ?_
  refine hrun.bind fun result => (within_sayAll _ _).bind fun _ => ?_
  refine Action.within_of_tree fun w => ?_
  cases result.success with
  | false => rfl
  | true =>
    show (Action.exec (look _ >>= _) w).2.tree = w.tree
    rw [Action.exec_look_bind]
    cases w.tree.contains (Project.processedPath rel) <;> rfl

/-- Fetching sources changes preprocessed files only. -/
theorem within_fetchAll (h : preprocessor.IsConfined) {k : CategoryKind} {steps : List FetchStep}
    (hsteps : ∀ step ∈ steps, step ∈ (CategoryDef.ofKind k).fetch) (texts : String → Text) :
    Action.Within (trackedPaths K) IsProcessed
      (CategoryDef.fetchAll project preprocessor steps texts) := by
  have hread : ∀ p, Action.Within (trackedPaths K) IsProcessed (readSource project p) :=
    fun p => Action.within_of_tree fun w => by rw [exec_readSource]
  induction steps generalizing texts with
  | nil => exact Action.within_of_tree fun _ => rfl
  | cons step rest ih =>
    have hrest := ih fun s hs => hsteps s (List.mem_cons_of_mem step hs)
    cases step with
    | read rel => exact (hread _).bind fun text => hrest _
    | preprocess rel includes =>
      exact (within_preprocess h (hsteps _ List.mem_cons_self)).bind fun _ => hrest _
    | readProcessed rel => exact (hread _).bind fun text => hrest _

theorem within_extraction (h : preprocessor.IsConfined) (k : CategoryKind) :
    Action.Within (trackedPaths K) IsProcessed
      ((CategoryDef.ofKind k).extraction project preprocessor) :=
  (within_fetchAll h (fun _ hs => hs) _).bind fun _ => Action.within_of_tree fun _ => rfl

/-! ## Loading documents

Each piece of work ends in some outcome, also where a step of it fails; what is said of it is said
of that outcome. -/

/-- The files that the extraction of a category changes. -/
def CategoryKind.Extracts (k : CategoryKind) (p : Path) : Prop :=
  p = k.documentPath ∨ IsProcessed p

theorem keepDocument_spec (project : Project) (c : Category) (f : Failure) (w : World) :
    c.Succeeds (Run.exec (c.keepDocument project f) w).1.2 ∧
      (Run.exec (c.keepDocument project f) w).2 = w := by
  rw [Category.keepDocument, Run.exec_bind, Run.exec_attempt, exec_load]
  cases hread : Store.read project w.tree c.store.path with
  | error e => exact ⟨.refl c, rfl⟩
  | ok store => exact ⟨.of_eq rfl (Store.path_of_read hread), rfl⟩

/-- Reading a document changes nothing. -/
theorem openDocument_spec (project : Project) (c : Category) (w : World) :
    c.Succeeds (Run.exec (c.openDocument project) w).1.2 ∧
      (Run.exec (c.openDocument project) w).2 = w := by
  rw [Category.openDocument, Run.exec_bind, Run.exec_attempt, exec_load]
  cases hread : Store.read project w.tree c.store.path with
  | error e => exact ⟨.refl c, rfl⟩
  | ok store =>
    have hopen : c.Succeeds { c with store, trusted := true } ∧
        c.Succeeds { c with store, trusted := false } :=
      ⟨.of_eq rfl (Store.path_of_read hread), .of_eq rfl (Store.path_of_read hread)⟩
    cases hcontains : w.tree.contains store.path with
    | true =>
      simp only [Run.exec_bind, Run.exec_look, hcontains]
      exact ⟨hopen.1, rfl⟩
    | false =>
      simp only [Run.exec_bind, Run.exec_look, hcontains]
      exact ⟨hopen.2, rfl⟩

/-- A category with extracted records. -/
def Category.extracted (c : Category) (records : Record) : Category :=
  { c with store := { c.store with records } }

/-- The document of extracted records is given the time of the newest input. -/
theorem exists_stampDocument (project : Project) (hc : c.IsManaged) (hk : c.kind ∈ K) {f : File}
    (hfile : w.tree.file? c.kind.documentPath = some f) (hclear : w.tree.Clear (trackedPaths K)) :
    ∃ w', Action.exec (c.stampDocument project) w = (.ok (), w') ∧
      Effect (trackedPaths K) (· = c.kind.documentPath) w w' := by
  rw [Category.stampDocument]
  cases hnewest : c.newestInput? w.tree with
  | none =>
    refine ⟨w, ?_, .refl _ _ w⟩
    rw [Action.exec_look_bind, hnewest]
    rfl
  | some newest =>
    obtain ⟨w', hstamp, heffect, -, -⟩ := exists_stampFile project (apart_trackedPaths K)
      (mem_trackedPaths_own hk List.mem_cons_self) hclear hfile newest
    refine ⟨w', ?_, heffect⟩
    rw [Action.exec_look_bind, hnewest, ← hstamp, ← hc.path]

/-- Extracted records are saved, and their document is given the time of the newest input. -/
theorem saveExtraction_spec (project : Project) (hc : c.IsManaged) (hk : c.kind ∈ K)
    (extraction : Extraction) (hclear : w.tree.Clear (trackedPaths K)) :
    c.Succeeds (Run.exec (c.saveExtraction project extraction) w).1.2 ∧
      w.tree.Changes (trackedPaths K) (· = c.kind.documentPath)
        (Run.exec (c.saveExtraction project extraction) w).2.tree := by
  have hc' : (c.extracted extraction.records).IsManaged := ⟨hc.definition, hc.path⟩
  obtain ⟨w₁, hforce, heffect, time, -, -, hfile⟩ := exists_forceSave project hc' hk hclear
  obtain ⟨w₂, hstamp, heffect'⟩ := exists_stampDocument project hc'.saved hk hfile
    (heffect.clear hclear)
  have hexec : Run.exec (c.saveExtraction project extraction) w =
      ((.ok (.done (some s!"{extraction.records.size} records")),
        { (c.extracted extraction.records).saved with trusted := true }), w₂) := by
    show Run.exec (attempt ((c.extracted extraction.records).store.forceSave project) >>= _) w = _
    rw [Run.exec_bind_of_eq ((Run.exec_attempt _ _).trans hforce)]
    exact Run.exec_bind_of_eq ((Run.exec_attempt _ _).trans hstamp) _
  rw [hexec]
  exact ⟨.of_eq rfl rfl, heffect.changes.trans heffect'.changes⟩

/-- **An extraction changes only the document** and what the preprocessor writes. -/
theorem extract_spec {v : Workshop} (hv : v.preprocessor.IsConfined) (hc : c.IsManaged)
    (hk : c.kind ∈ K) (hclear : w.tree.Clear (trackedPaths K)) :
    c.Succeeds (Run.exec (c.extract v) w).1.2 ∧
      w.tree.Changes (trackedPaths K) c.kind.Extracts (Run.exec (c.extract v) w).2.tree := by
  have hextraction : Action.Within (trackedPaths K) c.kind.Extracts
      (c.definition.extraction v.project v.preprocessor) := by
    rw [hc.definition]
    exact (within_extraction hv c.kind).mono fun _ hp => Or.inr hp
  have hfirst := hextraction w hclear
  rw [Category.extract, Run.exec_bind, Run.exec_attempt]
  cases hexec : Action.exec (c.definition.extraction v.project v.preprocessor) w with
  | mk r w₁ =>
    rw [hexec] at hfirst
    cases r with
    | error f =>
      have hkeep := keepDocument_spec v.project c f w₁
      cases hcontains : w₁.tree.contains c.store.path with
      | true =>
        simp only [Run.exec_bind, Run.exec_look, hcontains]
        refine ⟨hkeep.1, ?_⟩
        show w.tree.Changes _ _ (Run.exec (c.keepDocument v.project f) w₁).2.tree
        rw [hkeep.2]
        exact hfirst
      | false =>
        simp only [Run.exec_bind, Run.exec_look, hcontains]
        exact ⟨.of_eq rfl rfl, hfirst⟩
    | ok extraction =>
      have htold : Action.Within (trackedPaths K) c.kind.Extracts
          (Category.tellReport c.id extraction.report) :=
        (Action.within_of_tree fun _ => rfl).bind fun _ => within_sayAll _ _
      have hsecond := hfirst.trans (htold w₁ (hfirst.clear hclear))
      obtain ⟨hsucceeds, hlast⟩ := saveExtraction_spec v.project hc hk extraction
        (hsecond.clear hclear)
      exact ⟨hsucceeds, hsecond.trans (hlast.mono fun _ hp => Or.inl hp)⟩

/-- A load extracts where that is due, or by force. -/
theorem exec_load_of_due {v : Workshop} {force : Bool}
    (hdue : (force || c.extractionDue w.tree) = true) :
    Run.exec (c.load v force) w = Run.exec (c.extract v) w := by
  cases force with
  | true => rfl
  | false =>
    rw [Bool.false_or] at hdue
    simp only [Category.load, Run.exec_bind, Run.exec_look, hdue]
    rfl

/-- A category whose document has been read. -/
def Category.withStore (c : Category) (store : Store) : Category := { c with store, trusted := true }

/-- A load reads the document where no extraction is due. -/
theorem exec_load_of_not_due {v : Workshop} (hdue : c.extractionDue w.tree = false) :
    Run.exec (c.load v false) w = (match Store.read v.project w.tree c.store.path with
      | .error f => (.error f, c)
      | .ok store => (.ok (.unchanged "document up to date"), c.withStore store), w) := by
  have hread : Run.exec (attempt (Store.load v.project c.store.path)) w =
      (Store.read v.project w.tree c.store.path, w) := by
    rw [Run.exec_attempt, exec_load]
  simp only [Category.load, Run.exec_bind, Run.exec_look, hdue, Bool.or_self, Bool.false_eq_true,
    if_false, hread]
  cases Store.read v.project w.tree c.store.path <;> rfl

/-- **Loading a category changes only its document** and what the preprocessor writes. -/
theorem load_spec {v : Workshop} (hv : v.preprocessor.IsConfined) (hc : c.IsManaged)
    (hk : c.kind ∈ K) (hclear : w.tree.Clear (trackedPaths K)) (force : Bool) :
    c.Succeeds (Run.exec (c.load v force) w).1.2 ∧
      w.tree.Changes (trackedPaths K) c.kind.Extracts (Run.exec (c.load v force) w).2.tree := by
  cases hdue : force || c.extractionDue w.tree with
  | true =>
    rw [exec_load_of_due hdue]
    exact extract_spec hv hc hk hclear
  | false =>
    obtain ⟨rfl, hdue⟩ := Bool.or_eq_false_iff.1 hdue
    rw [exec_load_of_not_due hdue]
    refine ⟨?_, .refl _ _ _⟩
    cases hread : Store.read v.project w.tree c.store.path with
    | error f => exact .refl c
    | ok store => exact .of_eq rfl (Store.path_of_read hread)

end TableSync
