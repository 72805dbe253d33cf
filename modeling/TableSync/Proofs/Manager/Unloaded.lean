import TableSync.Proofs.Manager.Absent
import TableSync.Proofs.Manager.Fetch

/-!
# Extractions that fail, and categories that are not loaded

An extraction that fails leaves the document as it is.  If there is one, its records are used; if
there is none, the category is passed over until it is loaded.

* `exists_exec_extraction_of_fails` says that an extraction whose sources cannot be fetched keeps
  what is in the place of the document.
* `exec_load_of_document` and `exec_load_of_no_document` say what a load does whose extraction
  fails.  Both are said of the whole load, with the outcome and with the records after it.
* `failedExtraction_unloaded` puts together what becomes of the document, and of the files of a
  category that has not been loaded: that part is `ReachedWithout.lacks`, `Operation.run_of_target`
  and `Session.IsWithout.runAll`.

Two things could go wrong with a failed extraction, and both are excluded.  It could take the
document with it, which is why the tree is said to keep it; and the empty records of a category that
was never loaded could be written over its files, which is why the category is followed through
everything that is done later.
-/

set_option autoImplicit false

namespace TableSync

/-! ## A load whose extraction fails -/

variable {c : Category} {project : Project} {v : Workshop} {force : Bool} {w : World}

/-- An extraction that fails keeps what is in the place of the document. -/
theorem exists_exec_extraction_of_fails (hv : v.preprocessor.IsConfined) (hc : c.IsManaged)
    (hfails : FetchFails v.project v.preprocessor c.definition.fetch w) :
    ∃ e w₁, Action.exec (c.definition.extraction v.project v.preprocessor) w = (.error e, w₁) ∧
      w₁.tree.node? c.store.path = w.tree.node? c.store.path := by
  obtain ⟨e, herror⟩ := extraction_fails_iff.2 hfails
  have hkeeps : Action.Keeps c.store.path
      (c.definition.extraction v.project v.preprocessor) := by
    rw [hc.definition, hc.path]
    exact keeps_extraction hv (mem_trackedPaths_own c.kind.mem_all List.mem_cons_self)
  exact ⟨e, _, Prod.ext herror rfl, hkeeps w⟩

/-- **A document that is there is kept when its extraction fails**, and its records are used. -/
theorem exec_load_of_document (hv : v.preprocessor.IsConfined) (hc : c.IsManaged)
    (hfails : FetchFails v.project v.preprocessor c.definition.fetch w) {f : File} {text : Text}
    {records : Record} (hnode : w.tree.node? c.store.path = some (.file f))
    (htext : f.content = .text text) (hparse : Record.parse? text = some records) :
    ∃ outcome w', Run.exec (c.load v force) w =
        ((.ok outcome, c.withStore ⟨c.store.path, records, some records⟩), w') ∧
      w'.tree.node? c.store.path = some (.file f) := by
  cases hdue : force || c.extractionDue w.tree with
  | false =>
    obtain ⟨rfl, hdue⟩ := Bool.or_eq_false_iff.1 hdue
    rw [exec_load_of_not_due hdue, Store.read_of_document hnode htext hparse]
    exact ⟨_, w, rfl, hnode⟩
  | true =>
    obtain ⟨e, w₁, hexec, hsame⟩ := exists_exec_extraction_of_fails hv hc hfails
    rw [hnode] at hsame
    have hcontains : w₁.tree.contains c.store.path = true := by
      rw [FileTree.contains, hsame]
      rfl
    have hread : Action.exec (Store.load v.project c.store.path) w₁ =
        (.ok ⟨c.store.path, records, some records⟩, w₁) := by
      rw [exec_load, Store.read_of_document hsame htext hparse]
    rw [exec_load_of_due hdue, exec_extract_of_kept hexec hcontains, Category.keepDocument,
      Run.exec_bind_of_eq ((Run.exec_attempt _ _).trans hread)]
    exact ⟨_, w₁, rfl, hsame⟩

/-- **Where there is no document, none is made when the extraction fails.** -/
theorem exec_load_of_no_document (hv : v.preprocessor.IsConfined) (hc : c.IsManaged)
    (hfails : FetchFails v.project v.preprocessor c.definition.fetch w)
    (hnode : w.tree.node? c.store.path = none) :
    ∃ e w', Run.exec (c.load v force) w = ((.error e, { c with trusted := false }), w') ∧
      w'.tree.node? c.store.path = none := by
  have hdue : (force || c.extractionDue w.tree) = true := by
    have htime : c.documentTime? w.tree = none := by
      rw [Category.documentTime?, FileTree.time?, hnode, Option.map_none]
    rw [Category.extractionDue, htime]
    exact Bool.or_true force
  obtain ⟨e, w₁, hexec, hsame⟩ := exists_exec_extraction_of_fails hv hc hfails
  rw [hnode] at hsame
  have hcontains : w₁.tree.contains c.store.path = false := by
    rw [FileTree.contains, hsame]
    rfl
  exact ⟨e, w₁, (exec_load_of_due hdue).trans (exec_extract_of_missing hexec hcontains), hsame⟩

/-! ## Both together -/

/-- **A failed extraction damages no document, and a category that is not loaded is never written.**
An extraction fails exactly if its sources cannot be fetched.  A document is then kept and its
records are used; where there is none, none is made, and the category may not be used.  As long as a
category has not been loaded, what is aimed at it fails and changes nothing, and all work on records
leaves its files as they are and does the same with the others as if it were not enabled. -/
theorem failedExtraction_unloaded :
    (∀ (project : Project) (preprocessor : Preprocessor) (d : CategoryDef) (w : World),
      (∃ f, (Action.exec (d.extraction project preprocessor) w).1 = .error f) ↔
        FetchFails project preprocessor d.fetch w) ∧
    (∀ (v : Workshop) (force : Bool) (c : Category) (w : World), v.preprocessor.IsConfined →
      c.IsManaged → FetchFails v.project v.preprocessor c.definition.fetch w →
      (∀ f text records, w.tree.node? c.store.path = some (.file f) → f.content = .text text →
        Record.parse? text = some records → ∃ outcome w', Run.exec (c.load v force) w =
            ((.ok outcome, c.withStore ⟨c.store.path, records, some records⟩), w') ∧
          w'.tree.node? c.store.path = some (.file f)) ∧
      (w.tree.node? c.store.path = none → ∃ e w', Run.exec (c.load v force) w =
          ((.error e, { c with trusted := false }), w') ∧
        w'.tree.node? c.store.path = none)) ∧
    ∀ (k : CategoryKind) (s : Session), ReachedWithout k s →
      (∀ c ∈ s.manager.categories, c.kind = k → c.trusted = false) ∧
      (∀ op : Operation, op.target? = some k → op.run s = s ∧ ∃ f, op.answer s = .failed f) ∧
      (∀ op : Operation, op.isWork = true → op.target? ≠ some k →
        op.answer (s.without k) = op.answer s) ∧
      ∀ ops : List Operation, (∀ op ∈ ops, op.isWork = true) →
        Session.Follows k s (s.without k) (Operation.runAll s ops)
          (Operation.runAll (s.without k) ops) := by
  refine ⟨fun _ _ _ _ => extraction_fails_iff, fun v force c w hv hc hfails =>
    ⟨fun f text records hnode htext hparse => exec_load_of_document hv hc hfails hnode htext hparse,
      exec_load_of_no_document hv hc hfails⟩, fun k s hs => ?_⟩
  have hlacks := hs.lacks
  refine ⟨fun c hc => (hlacks c hc).untrusted, fun op => Operation.run_of_target hlacks,
    fun op hop => (Operation.follows hop (s.isWithout_without k) hlacks).1,
    fun ops hops => (s.isWithout_without k).runAll hlacks hops⟩

/-! ### Starters without one of their sources, beside abilities -/

namespace Starters

/-- The array of starters and the header with abilities, without the function that gives the
starters. -/
def lackingTree (documents : List (Path × Node)) : FileTree where
  nodes := [(["source"], .directory 0), (["source", "src"], .directory 0),
    (["source", "src", "starter_choose.c"], .file ⟨.text sampleArray.toList, 0⟩),
    (["source", "include"], .directory 0), (["source", "include", "constants"], .directory 0),
    (["source", "include", "constants", "abilities.h"],
      .file ⟨.text "#define ABILITY_STENCH 1\n".toList, 0⟩)] ++ documents
  clock := 1

/-- A session over starters and abilities. -/
def lackingSession (documents : List (Path × Node)) : Session where
  manager := Manager.ofKinds ⟨"/project"⟩ [] samplePreprocessor [.starters, .abilities]
  world := ⟨lackingTree documents, []⟩

/-- A document without records. -/
def emptyDocument : List (Path × Node) :=
  [(["data"], .directory 0), (["data", "starters.json"], .file ⟨.text "\x7b\x7d".toList, 0⟩)]

theorem fetchFails_lackingSession (documents : List (Path × Node))
    (hmissing : ∃ e, (lackingTree documents).readText (Project.sourcePath givingFile) = .error e)
    (harray : ∃ text, (lackingTree documents).readText (Project.sourcePath arrayFile) = .ok text) :
    FetchFails ⟨"/project"⟩ samplePreprocessor (CategoryDef.ofKind .starters).fetch
      (lackingSession documents).world := by
  obtain ⟨text, harray⟩ := harray
  refine Or.inr ⟨?_, Or.inl hmissing⟩
  rintro ⟨e, he⟩
  cases he.symm.trans harray

/-- The extraction of starters fails, with a document and without one; the abilities are loaded, and
saved and built without the starters. -/
theorem failedExtraction_unloaded_starters :
    (∃ outcome w' records, Record.parse? "\x7b\x7d".toList = some records ∧
      Run.exec
        ((Category.ofKind .starters).load (lackingSession emptyDocument).manager.workshop true)
        (lackingSession emptyDocument).world =
          ((.ok outcome, (Category.ofKind .starters).withStore
            ⟨CategoryKind.starters.documentPath, records, some records⟩), w')) ∧
    (∃ e w', Run.exec ((Category.ofKind .starters).load (lackingSession []).manager.workshop false)
        (lackingSession []).world =
          ((.error e, { Category.ofKind .starters with trusted := false }), w')) ∧
    ∃ s, ReachedWithout .starters s ∧ s = (Operation.loadAll false).run (lackingSession []) ∧
      ((s.manager.loaded? .abilities).isSome = true) ∧
      (∃ f, (Operation.save .starters).answer s = .failed f) ∧
      Session.Follows .starters s (s.without .starters)
        (Operation.runAll s [.set .abilities ["ABILITY_STENCH"] (.int 2), .persistAll,
          .regenerateAll false])
        (Operation.runAll (s.without .starters) [.set .abilities ["ABILITY_STENCH"] (.int 2),
          .persistAll, .regenerateAll false]) := by
  obtain ⟨-, hload, hunloaded⟩ := failedExtraction_unloaded
  have hmanaged : (Category.ofKind .starters).IsManaged := ⟨rfl, rfl⟩
  have hreached : ReachedWithout .starters ((Operation.loadAll false).run (lackingSession [])) :=
    .run (.start _ _ _ _ _) _ (by decide +kernel)
  obtain ⟨-, hfails, -, hfollows⟩ := hunloaded .starters _ hreached
  refine ⟨?_, ?_, _, hreached, rfl, by decide +kernel, (hfails (.save .starters) rfl).2,
    hfollows _ (by decide)⟩
  · have hparse : (Record.parse? "\x7b\x7d".toList).isSome = true := by decide +kernel
    obtain ⟨records, hparse⟩ := Option.isSome_iff_exists.1 hparse
    obtain ⟨outcome, w', hexec, -⟩ := (hload (lackingSession emptyDocument).manager.workshop true
      (Category.ofKind .starters) (lackingSession emptyDocument).world
      samplePreprocessor_isConfined hmanaged
      (fetchFails_lackingSession emptyDocument ⟨.notFound, by decide +kernel⟩
        ⟨sampleArray.toList, by decide +kernel⟩)).1 _ _ records rfl rfl hparse
    exact ⟨outcome, w', records, hparse, hexec⟩
  · obtain ⟨e, w', hexec, -⟩ := (hload (lackingSession []).manager.workshop false
      (Category.ofKind .starters) (lackingSession []).world samplePreprocessor_isConfined hmanaged
      (fetchFails_lackingSession [] ⟨.notFound, by decide +kernel⟩
        ⟨sampleArray.toList, by decide +kernel⟩)).2 (by decide +kernel)
    exact ⟨e, w', hexec⟩

end Starters

end TableSync
