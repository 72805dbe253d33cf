import TableSync.Proofs.Manager.Turns

/-!
# What is due, seen from the files

Whether a category is due is decided from the times of its files and of its inputs.  The program
computes it by looking at one file after the other; here it is said of all of them at once, by
properties that are handed on from tree to tree.

* `CategoryKind.IsCurrent` says that a document need not be extracted, and `Category.IsBuilt` that
  its files need not be written; `extractionDue_eq_false_iff` and `regenerationDue_eq_false_iff` tie
  them to what is computed.
* `Category.inputTimes` are the times of the inputs that are there, of which the newest one counts.
* `CategoryKind.Sees` are the files on which both depend: those of the category, and its inputs.
* `FileTree.AgreeOn` says that two trees have the same files at some paths, and
  `CategoryKind.IsCurrent.congr`, `Category.IsBuilt.congr` and `Category.IsDue.congr` that what is
  due is the same as long as these are.
* `regenerationDue_congr` says the same of trees in which something stands in the way of the files:
  it is seen from what is at the paths, whatever that is.
-/

set_option autoImplicit false

namespace TableSync

variable {K : List CategoryKind} {k : CategoryKind} {c : Category} {t t' : FileTree}

/-! ## Extraction

A missing backup means that the files have never been built, and then a document counts as edited if
it is newer than all inputs.  That is why `CategoryKind.IsCurrent` has two ways to be fulfilled. -/

/-- A document is not older than any input, and newer than all of them if a backup is missing. -/
structure CategoryKind.IsCurrent (k : CategoryKind) (t : FileTree) (document : File) : Prop where
  /-- The document is there. -/
  here : t.file? k.documentPath = some document
  /-- No input is newer than the document. -/
  inputs : ∀ p ∈ k.inputPaths, ∀ f, t.file? p = some f → f.time ≤ document.time
  /-- All backups are there, or the document is newer than all inputs, of which there is one. -/
  edited : (∀ b ∈ (CategoryDef.ofKind k).bindings, t.HasFile b.backup) ∨
    (∃ p ∈ k.inputPaths, t.HasFile p) ∧
      ∀ p ∈ k.inputPaths, ∀ f, t.file? p = some f → f.time < document.time

/-- The times of the inputs that are there. -/
def Category.inputTimes (c : Category) (t : FileTree) : List Nat :=
  c.definition.inputs.filterMap fun rel => t.time? (Project.sourcePath rel)

theorem Category.IsManaged.mem_inputTimes (hc : c.IsManaged) (hk : c.kind ∈ K)
    (hclear : t.Clear (trackedPaths K)) {time : Nat} :
    time ∈ c.inputTimes t ↔ ∃ p ∈ c.kind.inputPaths, ∃ f, t.file? p = some f ∧ f.time = time := by
  have htime : ∀ p ∈ c.kind.inputPaths, t.time? p = (t.file? p).map File.time := fun p hp =>
    (hclear p (mem_trackedPaths_input hk hp)).time?_eq
  rw [Category.inputTimes, List.mem_filterMap, hc.definition]
  constructor
  · rintro ⟨rel, hrel, h⟩
    have hp : Project.sourcePath rel ∈ c.kind.inputPaths := List.mem_map_of_mem hrel
    rw [htime _ hp] at h
    obtain ⟨f, hf, rfl⟩ := Option.map_eq_some_iff.1 h
    exact ⟨_, hp, f, hf, rfl⟩
  · rintro ⟨p, hp, f, hf, rfl⟩
    obtain ⟨rel, hrel, rfl⟩ := List.mem_map.1 hp
    refine ⟨rel, hrel, ?_⟩
    rw [htime _ hp, hf]
    rfl

theorem Category.IsManaged.backupsComplete_iff (hc : c.IsManaged) (hk : c.kind ∈ K)
    (hclear : t.Clear (trackedPaths K)) :
    c.backupsComplete t = true ↔
      ∀ b ∈ (CategoryDef.ofKind c.kind).bindings, t.HasFile b.backup := by
  rw [Category.backupsComplete, List.all_eq_true, hc.definition]
  refine forall₂_congr fun b hb => ?_
  rw [← hc.definition] at hb
  rw [(hclear _ (hc.bindings_mem hk b hb).2).contains_eq]
  rfl

theorem Category.IsManaged.documentTime?_eq (hc : c.IsManaged) (hk : c.kind ∈ K)
    (hclear : t.Clear (trackedPaths K)) :
    c.documentTime? t = (t.file? c.kind.documentPath).map File.time := by
  rw [Category.documentTime?, hc.path]
  exact (hclear _ (mem_trackedPaths_own hk List.mem_cons_self)).time?_eq

theorem Category.IsManaged.newestInput?_eq_none_iff (hc : c.IsManaged) (hk : c.kind ∈ K)
    (hclear : t.Clear (trackedPaths K)) :
    c.newestInput? t = none ↔ ∀ p ∈ c.kind.inputPaths, ¬ t.HasFile p := by
  have hmem : ∀ time, time ∈ c.inputTimes t ↔ _ := fun _ => hc.mem_inputTimes hk hclear
  show (c.inputTimes t).max? = none ↔ _
  rw [List.max?_eq_none_iff, List.eq_nil_iff_forall_not_mem]
  constructor
  · intro h p hp hfile
    obtain ⟨f, hf⟩ := Option.isSome_iff_exists.1 hfile
    exact h f.time ((hmem _).2 ⟨p, hp, f, hf, rfl⟩)
  · intro h time htime
    obtain ⟨p, hp, f, hf, -⟩ := (hmem _).1 htime
    exact h p hp (Option.isSome_of_eq_some hf)

theorem Category.IsManaged.newestInput?_eq_some_iff (hc : c.IsManaged) (hk : c.kind ∈ K)
    (hclear : t.Clear (trackedPaths K)) {newest : Nat} :
    c.newestInput? t = some newest ↔
      (∃ p ∈ c.kind.inputPaths, ∃ f, t.file? p = some f ∧ f.time = newest) ∧
        ∀ p ∈ c.kind.inputPaths, ∀ f, t.file? p = some f → f.time ≤ newest := by
  have hmem : ∀ time, time ∈ c.inputTimes t ↔ _ := fun _ => hc.mem_inputTimes hk hclear
  show (c.inputTimes t).max? = some newest ↔ _
  rw [List.max?_eq_some_iff, hmem]
  refine and_congr_right fun _ => ⟨fun h p hp f hf => h _ ((hmem _).2 ⟨p, hp, f, hf, rfl⟩), ?_⟩
  rintro h time htime
  obtain ⟨p, hp, f, hf, rfl⟩ := (hmem _).1 htime
  exact h p hp f hf

/-- **No extraction is due if and only if the document is current.** -/
theorem extractionDue_eq_false_iff (hc : c.IsManaged) (hk : c.kind ∈ K)
    (hclear : t.Clear (trackedPaths K)) :
    c.extractionDue t = false ↔ ∃ document, c.kind.IsCurrent t document := by
  have hbackups := hc.backupsComplete_iff hk hclear
  cases hdocument : t.file? c.kind.documentPath with
  | none =>
    rw [Category.extractionDue, hc.documentTime?_eq hk hclear, hdocument]
    refine ⟨fun h => Bool.noConfusion h, ?_⟩
    rintro ⟨document, hcurrent⟩
    exact absurd (hdocument.symm.trans hcurrent.here) (by simp)
  | some document =>
    -- The document is determined by its path, so the witness can be named.
    have hcurrent : (∃ d, c.kind.IsCurrent t d) ↔ c.kind.IsCurrent t document := by
      refine ⟨?_, fun h => ⟨_, h⟩⟩
      rintro ⟨d, hd⟩
      obtain rfl : document = d := Option.some.inj (hdocument.symm.trans hd.here)
      exact hd
    rw [hcurrent, Category.extractionDue, hc.documentTime?_eq hk hclear, hdocument]
    simp only [Option.map_some]
    cases hnewest : c.newestInput? t with
    | none =>
      -- Without an input the times say nothing: only complete backups make the document current.
      have hnone := (hc.newestInput?_eq_none_iff hk hclear).1 hnewest
      simp only [Bool.not_eq_false']
      rw [hbackups]
      refine ⟨fun h => ⟨hdocument, fun p hp f hf => ?_, Or.inl h⟩, fun h => ?_⟩
      · exact absurd (Option.isSome_of_eq_some hf) (hnone p hp)
      · refine h.edited.resolve_right ?_
        rintro ⟨⟨p, hp, hfile⟩, -⟩
        exact hnone p hp hfile
    | some newest =>
      obtain ⟨⟨p, hp, f, hf, rfl⟩, hall⟩ := (hc.newestInput?_eq_some_iff hk hclear).1 hnewest
      -- The newest input is a bound for all of them, and one of them reaches it.
      simp only [Bool.or_eq_false_iff, decide_eq_false_iff_not, Nat.not_lt, Bool.and_eq_false_iff,
        Bool.not_eq_false', decide_eq_true_eq]
      rw [hbackups]
      refine ⟨fun h => ⟨hdocument, fun q hq g hg => ?_, h.2.imp_right fun hlt => ?_⟩,
        fun h => ⟨h.inputs p hp f hf, h.edited.imp_right fun hlt => hlt.2 p hp f hf⟩⟩
      · exact Nat.le_trans (hall q hq g hg) h.1
      · exact ⟨⟨p, hp, Option.isSome_of_eq_some hf⟩,
          fun q hq g hg => Nat.lt_of_le_of_lt (hall q hq g hg) hlt⟩

/-! ## Regeneration -/

/-- The document is saved, all files are there, and none of those that are written is older than
the document. -/
structure Category.IsBuilt (c : Category) (t : FileTree) : Prop where
  /-- The records are those that the store remembers. -/
  saved : c.store.saved? = some c.store.records
  /-- The document is there. -/
  document : t.HasFile c.kind.documentPath
  /-- Every bound file is there, and so is its backup. -/
  bound : ∀ b ∈ c.definition.bindings, t.HasFile b.file ∧ t.HasFile b.backup
  /-- Every generated file is there. -/
  generated : ∀ g ∈ c.definition.generated, t.HasFile g.path
  /-- If the category writes files, none of them is older than the document. -/
  written : c.definition.generator? ≠ none → ∀ document, t.file? c.kind.documentPath = some document →
    ∀ p ∈ c.definition.writtenPaths, ∀ f, t.file? p = some f → document.time ≤ f.time

theorem Category.IsManaged.pending_eq_false_iff (hc : c.IsManaged) (hk : c.kind ∈ K)
    (hclear : t.Clear (trackedPaths K)) :
    c.pending t = false ↔ (c.definition.generator? ≠ none → ∀ document,
      t.file? c.kind.documentPath = some document →
        ∀ p ∈ c.definition.writtenPaths, ∀ f, t.file? p = some f → document.time ≤ f.time) := by
  have hwritten : ∀ p ∈ c.definition.writtenPaths, t.time? p = (t.file? p).map File.time :=
    fun p hp => (hclear p (mem_managed hk (hc.written_subset hp))).time?_eq
  rw [Category.pending]
  cases c.definition.generator? with
  | none => simp
  | some generator =>
    rw [hc.documentTime?_eq hk hclear]
    cases t.file? c.kind.documentPath with
    | none => simp
    | some document =>
      simp only [Option.map_some, List.any_eq_false, decide_eq_true_eq, Nat.not_lt,
        List.mem_filterMap]
      constructor
      · rintro h - d hd p hp f hf
        obtain rfl := Option.some.inj hd
        refine h f.time ⟨p, hp, ?_⟩
        rw [hwritten p hp, hf]
        rfl
      · rintro h time ⟨p, hp, htime⟩
        rw [hwritten p hp] at htime
        obtain ⟨f, hf, rfl⟩ := Option.map_eq_some_iff.1 htime
        exact h (Option.some_ne_none _) document rfl p hp f hf

theorem Category.IsManaged.filesComplete_iff (hc : c.IsManaged) (hk : c.kind ∈ K)
    (hclear : t.Clear (trackedPaths K)) :
    c.filesComplete t = true ↔
      (∀ b ∈ c.definition.bindings, t.HasFile b.file ∧ t.HasFile b.backup) ∧
        ∀ g ∈ c.definition.generated, t.HasFile g.path := by
  rw [Category.filesComplete, Bool.and_eq_true, List.all_eq_true, List.all_eq_true]
  refine and_congr (forall₂_congr fun b hb => ?_) (forall₂_congr fun g hg => ?_)
  · obtain ⟨hfile, hbackup⟩ := hc.bindings_mem hk b hb
    rw [Bool.and_eq_true, (hclear _ hfile).contains_eq, (hclear _ hbackup).contains_eq]
    rfl
  · rw [(hclear _ (hc.generated_mem hk g hg)).contains_eq]
    rfl

/-- **No regeneration is due if and only if the category is built.** -/
theorem regenerationDue_eq_false_iff (hc : c.IsManaged) (hk : c.kind ∈ K)
    (hclear : t.Clear (trackedPaths K)) : c.regenerationDue t = false ↔ c.IsBuilt t := by
  have hdocument : t.contains c.store.path = true ↔ t.HasFile c.kind.documentPath := by
    rw [hc.path, (hclear _ (mem_trackedPaths_own hk List.mem_cons_self)).contains_eq]
    rfl
  rw [Category.regenerationDue, Bool.or_eq_false_iff, Bool.or_eq_false_iff,
    Store.isDirty_eq_false_iff, Bool.not_eq_false', hc.filesComplete_iff hk hclear,
    hc.pending_eq_false_iff hk hclear, hdocument]
  exact ⟨fun ⟨⟨⟨hsaved, hdoc⟩, hbound, hgenerated⟩, hwritten⟩ =>
      ⟨hsaved, hdoc, hbound, hgenerated, hwritten⟩,
    fun h => ⟨⟨⟨h.saved, h.document⟩, h.bound, h.generated⟩, h.written⟩⟩

/-! ## What is seen -/

/-- The files on which depends what is due for a category. -/
def CategoryKind.Sees (k : CategoryKind) (p : Path) : Prop := p ∈ k.ownPaths ∨ p ∈ k.inputPaths

/-- Two trees have the same files at some paths. -/
def FileTree.AgreeOn (seen : Path → Prop) (t t' : FileTree) : Prop :=
  ∀ p, seen p → t'.file? p = t.file? p

theorem FileTree.AgreeOn.trans {seen : Path → Prop} {t'' : FileTree} (h : t.AgreeOn seen t')
    (h' : t'.AgreeOn seen t'') : t.AgreeOn seen t'' :=
  fun p hp => (h' p hp).trans (h p hp)

theorem FileTree.AgreeOn.symm {seen : Path → Prop} (h : t.AgreeOn seen t') : t'.AgreeOn seen t :=
  fun p hp => (h p hp).symm

theorem FileTree.AgreeOn.hasFile {seen : Path → Prop} (h : t.AgreeOn seen t') {p : Path}
    (hp : seen p) : t'.HasFile p ↔ t.HasFile p := by
  rw [FileTree.HasFile, FileTree.HasFile, h p hp]

/-- A document that is current may be written again, as long as inputs and backups stay. -/
theorem CategoryKind.IsCurrent.later {document later : File} (h : k.IsCurrent t document)
    (hinputs : ∀ p ∈ k.inputPaths, t'.file? p = t.file? p)
    (hbackups : ∀ b ∈ (CategoryDef.ofKind k).bindings, t.HasFile b.backup → t'.HasFile b.backup)
    (hlater : t'.file? k.documentPath = some later) (hle : document.time ≤ later.time) :
    k.IsCurrent t' later := by
  refine ⟨hlater, fun p hp f hf => ?_, ?_⟩
  · rw [hinputs p hp] at hf
    exact Nat.le_trans (h.inputs p hp f hf) hle
  · refine h.edited.imp (fun hall b hb => hbackups b hb (hall b hb))
      fun ⟨⟨p, hp, hfile⟩, hlt⟩ => ⟨⟨p, hp, ?_⟩, fun q hq f hf => ?_⟩
    · rw [FileTree.HasFile, hinputs p hp]
      exact hfile
    · rw [hinputs q hq] at hf
      exact Nat.lt_of_lt_of_le (hlt q hq f hf) hle

theorem CategoryKind.backup_mem_ownPaths {b : Binding}
    (hb : b ∈ (CategoryDef.ofKind k).bindings) : b.backup ∈ k.ownPaths :=
  List.mem_cons_of_mem _ (backup_mem hb)

theorem CategoryKind.IsCurrent.congr {document : File} (h : k.IsCurrent t document)
    (hsame : t.AgreeOn k.Sees t') : k.IsCurrent t' document :=
  h.later (fun p hp => hsame p (Or.inr hp))
    (fun _ hb hfile => (hsame.hasFile (Or.inl (backup_mem_ownPaths hb))).2 hfile)
    ((hsame _ (Or.inl List.mem_cons_self)).trans h.here) (Nat.le_refl _)

/-- Whether a category is built is seen from its own files. -/
theorem Category.IsBuilt.congr (hc : c.IsManaged) (h : c.IsBuilt t)
    (hsame : t.AgreeOn (· ∈ c.kind.ownPaths) t') : c.IsBuilt t' := by
  have hmanaged : ∀ p ∈ c.kind.managedPaths, t'.file? p = t.file? p := fun p hp =>
    hsame p (List.mem_cons_of_mem _ hp)
  have hhas : ∀ p ∈ c.kind.managedPaths, t.HasFile p → t'.HasFile p := by
    intro p hp hfile
    rw [FileTree.HasFile, hmanaged p hp]
    exact hfile
  have hdocument := hsame c.kind.documentPath List.mem_cons_self
  refine ⟨h.saved, (hsame.hasFile List.mem_cons_self).2 h.document, fun b hb => ?_,
    fun g hg => ?_, fun hgenerator document hdoc p hp f hf => ?_⟩
  · obtain ⟨hfile, hbackup⟩ := h.bound b hb
    have hb' := hb
    rw [hc.definition] at hb'
    exact ⟨hhas _ (CategoryKind.file_mem hb') hfile,
      hhas _ (hc.backup_mem hb) hbackup⟩
  · have hg' := hg
    rw [hc.definition] at hg'
    exact hhas _ (CategoryKind.generated_mem hg') (h.generated g hg)
  · rw [hdocument] at hdoc
    rw [hmanaged p (hc.written_subset hp)] at hf
    exact h.written hgenerator document hdoc p hp f hf

/-! ### Seen from what is at the paths, whatever that is -/

namespace Category.IsManaged

theorem filesComplete_congr (hc : c.IsManaged)
    (h : ∀ p ∈ c.kind.managedPaths, t'.node? p = t.node? p) :
    c.filesComplete t' = c.filesComplete t := by
  have hcontains : ∀ p ∈ c.kind.managedPaths, t'.contains p = t.contains p := fun p hp =>
    congrArg Option.isSome (h p hp)
  rw [Bool.eq_iff_iff, filesComplete, filesComplete, Bool.and_eq_true, Bool.and_eq_true,
    List.all_eq_true, List.all_eq_true, List.all_eq_true, List.all_eq_true, hc.definition]
  refine and_congr (forall₂_congr fun b hb => ?_) (forall₂_congr fun g hg => ?_)
  · have hpaths := fun p hp => hcontains p (CategoryKind.paths_subset hb hp)
    rw [hpaths _ b.file_mem_paths, hpaths _ b.backup_mem_paths]
  · rw [hcontains _ (CategoryKind.generated_mem hg)]

theorem pending_congr (hc : c.IsManaged) (h : ∀ p ∈ c.kind.ownPaths, t'.node? p = t.node? p) :
    c.pending t' = c.pending t := by
  have htime : ∀ p ∈ c.kind.ownPaths, t'.time? p = t.time? p := fun p hp =>
    congrArg (Option.map Node.time) (h p hp)
  have hdocument : c.documentTime? t' = c.documentTime? t := by
    rw [documentTime?, documentTime?, hc.path]
    exact htime _ List.mem_cons_self
  have hwritten : c.definition.writtenPaths.filterMap t'.time? =
      c.definition.writtenPaths.filterMap t.time? :=
    List.filterMap_congr fun p hp => htime p (List.mem_cons_of_mem _ (hc.written_subset hp))
  rw [pending, pending, hdocument, hwritten]

/-- What is at the paths of a category decides whether its files are to be written. -/
theorem regenerationDue_congr (hc : c.IsManaged)
    (h : ∀ p ∈ c.kind.ownPaths, t'.node? p = t.node? p) :
    c.regenerationDue t' = c.regenerationDue t := by
  have hdocument : t'.contains c.store.path = t.contains c.store.path := by
    rw [hc.path]
    exact congrArg Option.isSome (h _ List.mem_cons_self)
  rw [regenerationDue, regenerationDue, Store.isDirty, Store.isDirty, hdocument,
    hc.filesComplete_congr fun p hp => h p (List.mem_cons_of_mem _ hp), hc.pending_congr h]

end Category.IsManaged

/-- Whether the files of a category are to be written is seen from its own files. -/
theorem Category.IsDue.congr (hc : c.IsManaged) (hk : c.kind ∈ K)
    (hclear : t.Clear (trackedPaths K)) (hclear' : t'.Clear (trackedPaths K))
    (hsame : t.AgreeOn (· ∈ c.kind.ownPaths) t') : c.IsDue t' ↔ c.IsDue t := by
  rw [Category.IsDue, Category.IsDue]
  refine and_congr_right fun _ => ?_
  rw [← Bool.not_eq_false, ← Bool.not_eq_false, regenerationDue_eq_false_iff hc hk hclear,
    regenerationDue_eq_false_iff hc hk hclear']
  exact not_congr ⟨fun h => h.congr hc hsame.symm, fun h => h.congr hc hsame⟩

end TableSync
