import TableSync.Proofs.Manager.Current
import TableSync.Proofs.Manager.Fetch
import TableSync.Proofs.Manager.Operation

/-!
# What is due after an extraction

An extraction gives the document the time of its newest input.  A build is due if the document is
newer than any one of the files that are written from it, and of these some are inputs and some are
not.  So right after an extraction a build is due exactly if one of these files is older than one of
the inputs, though nothing has been edited.

* `Category.lt_newestInput_iff` says that what is older than the newest input is what is older than
  some input, so that the newest one need not be named.
* `exists_of_exec_extract` takes an extraction apart that goes through: its sources have been
  fetched, and its records saved.
* `Category.IsStamped` is what becomes of a category and its files then, and
  `exists_isStamped_of_extract` says that it is what becomes of them; that there is an input at all
  follows from one that has been read (`CategoryKind.exists_read_input`).
* `CategoryDef.IsBehind` says that a written file is older than an input, and `due_of_extract` what
  is due after an extraction.  `extract_makes_due` has starters of which one source has been touched
  and the other has not.
-/

set_option autoImplicit false

namespace TableSync

variable {c c' : Category} {v : Workshop} {w w' : World} {t t' : FileTree} {time newest : Nat}

/-! ## Times -/

theorem FileTree.time?_of_setTime {p : Path} (hp : p ≠ []) (h : t.setTime p time = .ok t') :
    t'.time? p = some time := by
  obtain ⟨name, rest, rfl⟩ := List.exists_cons_of_ne_nil hp
  rw [setTime] at h
  split at h
  · next f _ =>
    have hnode := lookup_putNode (name :: rest) (name :: rest) (.file ⟨f.content, time⟩) t.nodes
    rw [if_pos rfl] at hnode
    rw [← Except.ok.inj h]
    exact congrArg (Option.map Node.time) hnode
  · cases h
  · cases h

/-- A file that has been stamped has the time of the stamp. -/
theorem time?_of_exec_stampFile {project : Project} {p : Path} (hp : p ≠ [])
    (h : Action.exec (stampFile project p time) w = (.ok (), w')) :
    w'.tree.time? p = some time := by
  rw [stampFile, Action.exec_inContext, Action.change, Action.exec_get_bind] at h
  cases hset : w.tree.setTime p time with
  | ok t =>
    rw [hset] at h
    obtain rfl : { w with tree := t } = w' := congrArg Prod.snd h
    exact FileTree.time?_of_setTime hp hset
  | error e =>
    rw [hset] at h
    cases h

theorem Category.exists_newestInput {rel : String} (hrel : rel ∈ c.definition.inputs)
    (htime : t.time? (Project.sourcePath rel) = some time) :
    ∃ newest, c.newestInput? t = some newest := by
  have hmem : time ∈ c.inputTimes t := List.mem_filterMap.2 ⟨rel, hrel, htime⟩
  cases hmax : c.newestInput? t with
  | some newest => exact ⟨newest, rfl⟩
  | none =>
    rw [Category.inputTimes, List.max?_eq_none_iff.1 hmax] at hmem
    exact absurd hmem List.not_mem_nil

/-- Older than the newest input is what is older than some input. -/
theorem Category.lt_newestInput_iff (h : c.newestInput? t = some newest) :
    time < newest ↔ ∃ rel ∈ c.definition.inputs, ∃ input,
      t.time? (Project.sourcePath rel) = some input ∧ time < input := by
  obtain ⟨hmem, hle⟩ := List.max?_eq_some_iff.1 h
  constructor
  · intro hlt
    obtain ⟨rel, hrel, hnewest⟩ := List.mem_filterMap.1 hmem
    exact ⟨rel, hrel, newest, hnewest, hlt⟩
  · rintro ⟨rel, hrel, input, hinput, hlt⟩
    exact Nat.lt_of_lt_of_le hlt (hle input (List.mem_filterMap.2 ⟨rel, hrel, hinput⟩))

/-! ## An extraction that goes through -/

/-- Extracted records that have been saved have been given the time of the newest input. -/
theorem exists_of_exec_saveExtraction {project : Project} {extraction : Extraction}
    {outcome : Outcome}
    (h : Run.exec (c.saveExtraction project extraction) w = ((.ok outcome, c'), w')) :
    let e := c.extracted extraction.records
    ∃ w₁, Action.exec (e.store.forceSave project) w = (.ok e.saved.store, w₁) ∧
      Action.exec (e.saved.stampDocument project) w₁ = (.ok (), w') ∧
      c' = { e.saved with trusted := true } := by
  intro e
  change Run.exec (attempt (e.store.forceSave project) >>= _) w = _ at h
  cases hforce : Action.exec (e.store.forceSave project) w with
  | mk r w₁ =>
    rw [Run.exec_bind_of_eq ((Run.exec_attempt _ _).trans hforce)] at h
    cases r with
    | error f => cases h
    | ok store =>
      obtain rfl : store = e.saved.store := Store.eq_of_forceSave project hforce
      change Run.exec (attempt (e.saved.stampDocument project) >>= _) w₁ = _ at h
      cases hstamp : Action.exec (e.saved.stampDocument project) w₁ with
      | mk r w₂ =>
        rw [Run.exec_bind_of_eq ((Run.exec_attempt _ _).trans hstamp)] at h
        cases r with
        | error f => cases h
        | ok stamped =>
          cases h
          exact ⟨w₁, rfl, hstamp, rfl⟩

/-- A document that is kept has not been extracted. -/
theorem exec_keepDocument_ne_done {project : Project} {why : Failure} {detail? : Option String} :
    (Run.exec (c.keepDocument project why) w).1.1 ≠ .ok (.done detail?) := by
  rw [Category.keepDocument, Run.exec_bind, Run.exec_attempt, exec_load]
  cases Store.read project w.tree c.store.path with
  | error f => exact fun h => by cases h
  | ok store => exact fun h => by cases h

/-- An extraction that is told as done has fetched its sources and saved its records. -/
theorem exists_of_exec_extract {detail? : Option String}
    (h : Run.exec (c.extract v) w = ((.ok (.done detail?), c'), w')) :
    ∃ extraction w₁ es, Action.exec (c.definition.extraction v.project v.preprocessor) w =
        (.ok extraction, w₁) ∧
      Run.exec (c.saveExtraction v.project extraction) { w₁ with events := w₁.events ++ es } =
        ((.ok (.done detail?), c'), w') := by
  cases hexec : Action.exec (c.definition.extraction v.project v.preprocessor) w with
  | mk r w₁ =>
    cases r with
    | ok extraction =>
      obtain ⟨es, hsave⟩ := exec_extract_of_ok hexec
      exact ⟨extraction, w₁, es, rfl, hsave.symm.trans h⟩
    | error f =>
      exfalso
      cases hcontains : w₁.tree.contains c.store.path with
      | false =>
        rw [exec_extract_of_missing hexec hcontains] at h
        cases h
      | true =>
        rw [exec_extract_of_kept hexec hcontains] at h
        exact exec_keepDocument_ne_done (congrArg (fun r => r.1.1) h)

/-! ## What is kept -/

section

variable (project : Project) {p : Path}

/-- A document is not on the way to other tracked files. -/
theorem Category.IsManaged.avoids_document (hc : c.IsManaged)
    (hp : p ∈ trackedPaths CategoryKind.all) (hne : p ≠ c.kind.documentPath) :
    Avoids (· = p) c.store.path := by
  rintro q rfl
  rw [hc.path]
  exact not_prefix_of_tracked hp (mem_trackedPaths_own c.kind.mem_all List.mem_cons_self) hne

theorem keeps_forceSave (hc : c.IsManaged) (hp : p ∈ trackedPaths CategoryKind.all)
    (hne : p ≠ c.kind.documentPath) : Action.Keeps p (c.store.forceSave project) := by
  have hspares : Action.Spares (· = p) (fun _ => False) (c.store.forceSave project) :=
    spares_forceSave project (hc.avoids_document hp hne)
  exact hspares.keeps rfl

theorem keeps_stampDocument (hc : c.IsManaged) (hp : p ∈ trackedPaths CategoryKind.all)
    (hne : p ≠ c.kind.documentPath) : Action.Keeps p (c.stampDocument project) := by
  have hspares : Action.Spares (· = p) (fun _ => False) (c.stampDocument project) := by
    refine .bind (.look _) fun newest => ?_
    cases newest with
    | none => exact .pure ()
    | some newest => exact spares_stampFile project (hc.avoids_document hp hne)
  exact hspares.keeps rfl

end

/-- Two trees have the same at all tracked paths but that of a document. -/
def CategoryKind.KeepsOthers (k : CategoryKind) (t t' : FileTree) : Prop :=
  ∀ p ∈ trackedPaths CategoryKind.all, p ≠ k.documentPath → t'.node? p = t.node? p

theorem CategoryKind.KeepsOthers.trans {k : CategoryKind} {t'' : FileTree}
    (h : k.KeepsOthers t t') (h' : k.KeepsOthers t' t'') : k.KeepsOthers t t'' :=
  fun p hp hne => (h' p hp hne).trans (h p hp hne)

/-- The newest input is seen from the inputs, none of which is the document. -/
theorem Category.IsManaged.newestInput?_eq (hc : c.IsManaged) (h : c.kind.KeepsOthers t t') :
    c.newestInput? t' = c.newestInput? t := by
  refine congrArg List.max? (List.filterMap_congr fun rel hrel => ?_)
  rw [hc.definition] at hrel
  have hinput : Project.sourcePath rel ∈ c.kind.inputPaths := List.mem_map_of_mem hrel
  have hne : Project.sourcePath rel ≠ c.kind.documentPath := fun heq =>
    c.kind.documentPath_notMem_inputPaths (heq ▸ hinput)
  rw [FileTree.time?, FileTree.time?, h _ (mem_trackedPaths_input c.kind.mem_all hinput) hne]

/-! ## What becomes of a category -/

/-- The records are saved, the document has the time of the newest input, and no other file has
been changed. -/
structure Category.IsStamped (c c' : Category) (t t' : FileTree) (newest : Nat) : Prop where
  /-- The definition is the same. -/
  definition : c'.definition = c.definition
  /-- The records are those that the store remembers. -/
  saved : c'.store.saved? = some c'.store.records
  /-- Some input is there, and this is the time of the newest one. -/
  input : c.newestInput? t = some newest
  /-- The document has this time. -/
  document : c'.documentTime? t' = some newest
  /-- All other tracked files are as they were. -/
  kept : c.kind.KeepsOthers t t'

/-- Extracted records are saved, and their document is given the time of the newest input. -/
theorem isStamped_of_exec_saveExtraction {project : Project} {extraction : Extraction}
    {outcome : Outcome} (hc : c.IsManaged) (hnewest : c.newestInput? w.tree = some newest)
    (h : Run.exec (c.saveExtraction project extraction) w = ((.ok outcome, c'), w')) :
    c.IsStamped c' w.tree w'.tree newest := by
  obtain ⟨w₁, hforce, hstamp, rfl⟩ := exists_of_exec_saveExtraction h
  have hextracted : (c.extracted extraction.records).IsManaged := ⟨hc.definition, hc.path⟩
  have hfirst : c.kind.KeepsOthers w.tree w₁.tree := by
    intro p hp hne
    have hkeeps := keeps_forceSave project hextracted hp hne w
    rw [hforce] at hkeeps
    exact hkeeps
  have hsecond : c.kind.KeepsOthers w₁.tree w'.tree := by
    intro p hp hne
    have hkeeps := keeps_stampDocument project hextracted.saved hp hne w₁
    rw [hstamp] at hkeeps
    exact hkeeps
  refine ⟨rfl, rfl, hnewest, ?_, hfirst.trans hsecond⟩
  -- the inputs are looked at after the document has been written, which is none of them
  have hsame : (c.extracted extraction.records).saved.newestInput? w₁.tree = some newest :=
    (hc.newestInput?_eq hfirst).trans hnewest
  rw [Category.stampDocument, Action.exec_look_bind, hsame] at hstamp
  refine time?_of_exec_stampFile ?_ hstamp
  show c.store.path ≠ []
  rw [hc.path]
  exact List.cons_ne_nil _ _

/-- A category from which files are written reads one of its inputs as it is. -/
theorem CategoryKind.exists_read_input {k : CategoryKind}
    (h : (CategoryDef.ofKind k).generator?.isSome = true) :
    ∃ rel ∈ (CategoryDef.ofKind k).inputs, .read rel ∈ (CategoryDef.ofKind k).fetch := by
  cases k with
  | species => exact ⟨Species.dexHeader, by simp [CategoryDef.ofKind, CategoryDef.species],
      by simp [CategoryDef.ofKind, CategoryDef.species]⟩
  | starters => exact ⟨Starters.arrayFile, by simp [CategoryDef.ofKind, CategoryDef.starters],
      by simp [CategoryDef.ofKind, CategoryDef.starters]⟩
  | abilities | items | constants | moves | pokedex => cases h

/-- **An extraction that goes through gives the document the time of the newest input.** -/
theorem exists_isStamped_of_extract (hv : v.preprocessor.IsConfined) (hc : c.IsManaged)
    (hgenerator : c.definition.generator?.isSome = true) {detail? : Option String}
    (h : Run.exec (c.extract v) w = ((.ok (.done detail?), c'), w')) :
    ∃ newest, c.IsStamped c' w.tree w'.tree newest := by
  obtain ⟨extraction, w₁, es, hexec, hsave⟩ := exists_of_exec_extract h
  have hfetched : c.kind.KeepsOthers w.tree w₁.tree := by
    intro p hp _
    have hkeeps : Action.Keeps p (c.definition.extraction v.project v.preprocessor) := by
      rw [hc.definition]
      exact keeps_extraction hv hp
    have hnode := hkeeps w
    rw [hexec] at hnode
    exact hnode
  -- one of the inputs has been read, so that there is a newest one
  obtain ⟨newest, hnewest⟩ : ∃ newest, c.newestInput? w.tree = some newest := by
    rw [hc.definition] at hgenerator hexec
    obtain ⟨rel, hrel, hread⟩ := CategoryKind.exists_read_input hgenerator
    obtain ⟨time, htime⟩ := exists_time_of_fetched hv
      (mem_trackedPaths_input c.kind.mem_all (List.mem_map_of_mem hrel)) hread hexec
    rw [← hc.definition] at hrel
    exact c.exists_newestInput hrel htime
  have hstamped := isStamped_of_exec_saveExtraction (w := { w₁ with events := w₁.events ++ es }) hc
    ((hc.newestInput?_eq hfetched).trans hnewest) hsave
  exact ⟨newest, hstamped.definition, hstamped.saved, hnewest, hstamped.document,
    hfetched.trans hstamped.kept⟩

/-! ## What is due

The work of the extraction does not matter here any more: what is due is computed from the times in
a tree, of which one is known and all others are as they were. -/

/-- Of the files that are written, one that is there is older than an input. -/
def CategoryDef.IsBehind (d : CategoryDef) (t : FileTree) : Prop :=
  ∃ p ∈ d.writtenPaths, ∃ written, t.time? p = some written ∧
    ∃ rel ∈ d.inputs, ∃ input, t.time? (Project.sourcePath rel) = some input ∧ written < input

namespace Category.IsStamped

variable (h : c.IsStamped c' t t' newest)

include h

theorem node?_managed {p : Path} (hp : p ∈ c.kind.managedPaths) : t'.node? p = t.node? p := by
  refine h.kept p (mem_trackedPaths_own c.kind.mem_all (List.mem_cons_of_mem _ hp)) ?_
  rintro rfl
  exact c.kind.documentPath_notMem hp

theorem isDirty_eq : c'.store.isDirty t' = false := by
  refine Store.isDirty_eq_false_iff.2 ⟨h.saved, ?_⟩
  obtain ⟨node, hnode, -⟩ := Option.map_eq_some_iff.1 h.document
  rw [FileTree.contains, hnode]
  rfl

theorem filesComplete_eq (hc : c.IsManaged) : c'.filesComplete t' = c.filesComplete t := by
  rw [filesComplete, h.definition]
  exact hc.filesComplete_congr fun p hp => h.node?_managed hp

theorem backupsComplete_eq (hc : c.IsManaged) : c'.backupsComplete t' = c.backupsComplete t := by
  rw [Bool.eq_iff_iff, backupsComplete, backupsComplete, h.definition, List.all_eq_true,
    List.all_eq_true]
  refine forall₂_congr fun b hb => ?_
  rw [hc.definition] at hb
  rw [FileTree.contains, FileTree.contains,
    h.node?_managed (CategoryKind.backup_mem hb)]

/-- A build seems to be pending exactly if a written file is older than an input. -/
theorem pending_iff (hc : c.IsManaged) (hgenerator : c.definition.generator?.isSome = true) :
    c'.pending t' = true ↔ c.definition.IsBehind t := by
  obtain ⟨generator, hgenerator⟩ := Option.isSome_iff_exists.1 hgenerator
  have htime : ∀ p ∈ c.definition.writtenPaths, t'.time? p = t.time? p := by
    intro p hp
    rw [hc.definition] at hp
    have hmanaged := CategoryKind.outputPaths_subset (CategoryKind.mem_outputPaths_iff.2 hp)
    exact congrArg (Option.map Node.time) (h.node?_managed hmanaged)
  rw [pending, h.definition, hgenerator, h.document]
  simp only [List.any_eq_true, List.mem_filterMap, decide_eq_true_eq]
  constructor
  · rintro ⟨written, ⟨p, hp, hwritten⟩, hlt⟩
    rw [htime p hp] at hwritten
    exact ⟨p, hp, written, hwritten, (c.lt_newestInput_iff h.input).1 hlt⟩
  · rintro ⟨p, hp, written, hwritten, holder⟩
    rw [← htime p hp] at hwritten
    exact ⟨written, ⟨p, hp, hwritten⟩, (c.lt_newestInput_iff h.input).2 holder⟩

theorem regenerationDue_iff (hc : c.IsManaged)
    (hgenerator : c.definition.generator?.isSome = true) :
    c'.regenerationDue t' = true ↔ c.filesComplete t = false ∨ c.definition.IsBehind t := by
  rw [regenerationDue, h.isDirty_eq, Bool.false_or, Bool.or_eq_true, h.pending_iff hc hgenerator,
    h.filesComplete_eq hc, Bool.not_eq_true']

theorem extractionDue_iff (hc : c.IsManaged) :
    c'.extractionDue t' = true ↔ c.backupsComplete t = false := by
  have hnewest : c'.newestInput? t' = some newest := by
    rw [newestInput?, h.definition]
    exact (hc.newestInput?_eq h.kept).trans h.input
  rw [extractionDue, h.document, hnewest, h.backupsComplete_eq hc]
  simp

end Category.IsStamped

/-- **What is due right after an extraction.**  The document has the time of the newest input.  A
build seems to be pending exactly if one of the files that are written is older than one of the
inputs; besides, files have to be written that are missing.  Another extraction is due exactly if a
backup is missing. -/
theorem due_of_extract (hv : v.preprocessor.IsConfined) (hc : c.IsManaged)
    (hgenerator : c.definition.generator?.isSome = true) {detail? : Option String}
    (h : Run.exec (c.extract v) w = ((.ok (.done detail?), c'), w')) :
    (∃ newest, c.newestInput? w.tree = some newest ∧ c'.documentTime? w'.tree = some newest) ∧
    (c'.pending w'.tree = true ↔ c.definition.IsBehind w.tree) ∧
    (c'.regenerationDue w'.tree = true ↔
      c.filesComplete w.tree = false ∨ c.definition.IsBehind w.tree) ∧
    (c'.extractionDue w'.tree = true ↔ c.backupsComplete w.tree = false) := by
  obtain ⟨newest, hstamped⟩ := exists_isStamped_of_extract hv hc hgenerator h
  exact ⟨⟨newest, hstamped.input, hstamped.document⟩, hstamped.pending_iff hc hgenerator,
    hstamped.regenerationDue_iff hc hgenerator, hstamped.extractionDue_iff hc⟩

/-! ### Starters of which one source is changed by hand -/

namespace Starters

/-- The sources of starters with their backups and a document, where the file with the array has a
time of its own. -/
def touchedTree (arrayTime : Nat) : FileTree where
  nodes := [(["source"], .directory 0), (["source", "src"], .directory 0), (["data"], .directory 0),
    (["source", "src", "starter_choose.c"], .file ⟨.text sampleArray.toList, arrayTime⟩),
    (["source", "src", "starter_choose.c.bak"], .file ⟨.text sampleArray.toList, 0⟩),
    (["source", "src", "battle_setup.c"], .file ⟨.text sampleCalling.toList, 0⟩),
    (["source", "src", "battle_setup.c.bak"], .file ⟨.text sampleCalling.toList, 0⟩),
    (["data", "starters.json"], .file ⟨.text (sampleRecords 5).document, 0⟩)]
  clock := 2

/-- The extraction of starters from these sources. -/
def touchedExtraction (arrayTime : Nat) : (Except Failure Outcome × Category) × World :=
  Run.exec ((Category.ofKind .starters).extract
    (Manager.ofKinds ⟨"/project"⟩ [] samplePreprocessor [.starters]).workshop)
      ⟨touchedTree arrayTime, []⟩

/-- The outcome of a step that is told as done. -/
def doneDetail? : Except Failure Outcome → Option (Option String)
  | .ok (.done detail?) => some detail?
  | _ => none

theorem eq_of_doneDetail? {outcome : Except Failure Outcome} {detail? : Option String}
    (h : doneDetail? outcome = some detail?) : outcome = .ok (.done detail?) := by
  cases outcome with
  | error f => cases h
  | ok o =>
    cases o with
    | done d => rw [Option.some.inj h]
    | unchanged | skipped | dryRun => cases h

/-- Nothing is pending after an extraction as long as no source has been touched. -/
theorem due_of_extract_untouched :
    doneDetail? (touchedExtraction 0).1.1 = some (some "1 records") ∧
    (touchedExtraction 0).1.2.regenerationDue (touchedExtraction 0).2.tree = false := by
  have hdone : doneDetail? (touchedExtraction 0).1.1 = some (some "1 records") := by
    decide +kernel
  have hexec : touchedExtraction 0 = ((.ok (.done (some "1 records")), (touchedExtraction 0).1.2),
      (touchedExtraction 0).2) :=
    Prod.ext (Prod.ext (eq_of_doneDetail? hdone) rfl) rfl
  obtain ⟨-, -, hregeneration, -⟩ :=
    due_of_extract samplePreprocessor_isConfined ⟨rfl, rfl⟩ rfl hexec
  refine ⟨hdone, ?_⟩
  rw [← Bool.not_eq_true, hregeneration]
  rintro (hfiles | ⟨p, -, written, -, rel, hrel, input, hinput, hlt⟩)
  · exact absurd hfiles (by decide +kernel)
  · have htimes : ∀ rel ∈ (Category.ofKind .starters).definition.inputs,
        (touchedTree 0).time? (Project.sourcePath rel) = some 0 := by
      decide +kernel
    obtain rfl : 0 = input := Option.some.inj ((htimes rel hrel).symm.trans hinput)
    exact absurd hlt (Nat.not_lt_zero written)

/-- **An extraction alone makes a build due** where one source is newer than the others: no file is
missing and none seems to be pending before. -/
theorem extract_makes_due :
    (Category.ofKind .starters).IsManaged ∧
    (Category.ofKind .starters).filesComplete (touchedTree 1) = true ∧
    (Category.ofKind .starters).pending (touchedTree 1) = false ∧
    doneDetail? (touchedExtraction 1).1.1 = some (some "1 records") ∧
    (touchedExtraction 1).1.2.pending (touchedExtraction 1).2.tree = true ∧
    (touchedExtraction 1).1.2.regenerationDue (touchedExtraction 1).2.tree = true := by
  refine ⟨⟨rfl, rfl⟩, ?_⟩
  decide +kernel

end Starters

end TableSync
