import TableSync.Proofs.Manager.Due

/-!
# How work leaves the times

A document that is current stays so until files that it is read from are put back, or given a new
time by the build of another category.  Times are compared and never taken apart: what counts is
whether the document or an input was written later.

* `CategoryKind.IsSettled` says that a document is current and has been written before now.  The
  second part is what makes it last: whatever is written from now on is not older.
* `Category.Regenerates.isSettled_of_ok` and `Category.Regenerates.isSettled_iff` say when a
  document is current after a regeneration of its own category.  After a build that goes through it
  is, as the document gets the time of the files; after one that fails, only if nothing was put back
  (`Category.FailsLoudly`).
* `Category.Disturbs` is the one case in which another category matters: the dex and species share a
  header, which the build of the dex gives a new time.
* `Category.Regenerates.agreeOn` says that there is no other one: what a category sees is as it was
  after the work on any other.
-/

set_option autoImplicit false

namespace TableSync

variable {K : List CategoryKind} {k : CategoryKind} {c : Category} {t t' : FileTree}
  {v : Workshop} {r : Except Failure Unit}

/-- A document is current, and its time is past. -/
def CategoryKind.IsSettled (k : CategoryKind) (t : FileTree) : Prop :=
  ∃ document, k.IsCurrent t document ∧ document.time < t.clock

theorem CategoryKind.IsSettled.exists_isCurrent (h : k.IsSettled t) :
    ∃ document, k.IsCurrent t document := by
  obtain ⟨document, hcurrent, -⟩ := h
  exact ⟨document, hcurrent⟩

theorem CategoryKind.IsSettled.congr (h : k.IsSettled t) (hsame : t.AgreeOn k.Sees t')
    (hclock : t.clock ≤ t'.clock) : k.IsSettled t' := by
  obtain ⟨document, hcurrent, hpast⟩ := h
  exact ⟨document, hcurrent.congr hsame, Nat.lt_of_lt_of_le hpast hclock⟩

/-! ## The own category -/

/-- An input that belongs to its category is a bound file. -/
theorem CategoryKind.exists_binding {p : Path} (hinput : p ∈ k.inputPaths)
    (hown : p ∈ k.ownPaths) : ∃ b ∈ (CategoryDef.ofKind k).bindings, b.file = p := by
  have hall : ∀ k ∈ all, ∀ p ∈ k.inputPaths, p ∈ k.ownPaths →
      p ∈ (CategoryDef.ofKind k).bindings.map Binding.file := by
    simp only [ownPaths_eq, inputPaths_eq]
    decide +kernel
  exact List.mem_map.1 (hall k k.mem_all p hinput hown)

theorem CategoryKind.mem_writtenPaths {p : Path} (hinput : p ∈ k.inputPaths)
    (hown : p ∈ k.ownPaths) : p ∈ (CategoryDef.ofKind k).writtenPaths := by
  obtain ⟨b, hb, rfl⟩ := exists_binding hinput hown
  exact List.mem_append_left _ (List.mem_map_of_mem hb)

theorem CategoryKind.documentPath_notMem_inputPaths (k : CategoryKind) :
    k.documentPath ∉ k.inputPaths := by
  intro hinput
  have hwritten := mem_writtenPaths hinput List.mem_cons_self
  exact k.documentPath_notMem (outputPaths_subset (mem_outputPaths_iff.2 hwritten))

/-- The content of the document once it has been saved. -/
def Category.savedContent? (c : Category) (t : FileTree) : Option Content :=
  if c.store.isDirty t then some (.text c.store.records.document)
  else t.content? c.kind.documentPath

/-- A document that has been saved is that from before, or has been written now. -/
theorem Category.Saves.exists_document (h : c.Saves K t t') : ∃ document,
    t'.file? c.kind.documentPath = some document ∧ c.savedContent? t = some document.content ∧
      (t' = t ∨ t.clock ≤ document.time ∧ document.time < t'.clock) := by
  rw [Category.savedContent?]
  cases hdirty : c.store.isDirty t with
  | true =>
    obtain ⟨time, hle, hlt, hfile⟩ := h.written hdirty
    exact ⟨_, hfile, rfl, Or.inr ⟨hle, hlt⟩⟩
  | false =>
    obtain ⟨document, hfile⟩ := Option.isSome_iff_exists.1 h.document
    have hsame := h.kept hdirty
    refine ⟨document, hfile, ?_, Or.inl hsame⟩
    rw [hsame] at hfile
    show t.content? c.kind.documentPath = _
    rw [FileTree.content?, hfile]
    rfl

/-- **A document stays current when it is saved.** -/
theorem Category.Saves.isSettled (h : c.Saves K t t') (hsettled : c.kind.IsSettled t) :
    c.kind.IsSettled t' := by
  obtain ⟨document, hcurrent, hpast⟩ := hsettled
  obtain ⟨later, hfile, -, hsame | ⟨hle, hlt⟩⟩ := h.exists_document
  · rw [hsame]
    exact ⟨document, hcurrent, hpast⟩
  · refine ⟨later, hcurrent.later (fun p hp => h.changes.frame p ?_) (fun b hb hbackup => ?_)
      hfile (Nat.le_of_lt (Nat.lt_of_lt_of_le hpast hle)), hlt⟩
    · exact fun heq => c.kind.documentPath_notMem_inputPaths (heq ▸ hp)
    · refine (h.changes.hasFile fun heq => c.kind.documentPath_notMem ?_).2 hbackup
      rw [← heq]
      exact CategoryKind.backup_mem hb

/-- Whatever its outcome, a regeneration leaves the saved document. -/
theorem Category.Regenerates.content?_document (h : c.Regenerates K v r t t') :
    t'.content? c.kind.documentPath = c.savedContent? t := by
  obtain ⟨t₁, hsaves, -, hresult⟩ := h
  obtain ⟨document, hfile, hcontent, -⟩ := hsaves.exists_document
  have hsaved : t₁.content? c.kind.documentPath = c.savedContent? t := by
    rw [hcontent, FileTree.content?, hfile]
    rfl
  rcases hresult with ⟨outs, -, -, hbuilt⟩ | ⟨-, -, -, hdocument⟩
  · rw [hbuilt.document, hsaved]
  · rw [FileTree.content?, hdocument, ← FileTree.content?, hsaved]

/-- **After a build the document is current**, if the clock has not been set back. -/
theorem Category.Regenerates.isSettled_of_ok (h : c.Regenerates K v (.ok ()) t t')
    (hc : c.IsManaged) (htimes : ∀ p ∈ c.kind.inputPaths, p ∉ c.kind.ownPaths →
      ∀ f, t.file? p = some f → f.time ≤ t.clock) : c.kind.IsSettled t' := by
  have hchanges := h.changes
  obtain ⟨t₁, hsaves, -, ⟨outs, -, -, hbuilt⟩ | ⟨⟨e, he⟩, -⟩⟩ := h
  · obtain ⟨time, hle, hlt, -, hstamped⟩ := hbuilt.stamped
    obtain ⟨saved, hsaved, -⟩ := hsaves.exists_document
    have hcontent := hbuilt.document
    rw [FileTree.content?, FileTree.content?, hsaved] at hcontent
    obtain ⟨document, hfile, -⟩ := Option.map_eq_some_iff.1 hcontent
    have htime : document.time = time := hstamped _ List.mem_cons_self document hfile
    refine ⟨document, ⟨hfile, fun p hp f hf => ?_, Or.inl fun b hb => ?_⟩, ?_⟩
    · rw [htime]
      by_cases hown : p ∈ c.kind.ownPaths
      · have hwritten := CategoryKind.mem_writtenPaths hp hown
        rw [← hc.definition] at hwritten
        exact Nat.le_of_eq (hstamped p (List.mem_cons_of_mem _ hwritten) f hf)
      · rw [hchanges.frame p hown] at hf
        exact Nat.le_trans (htimes p hp hown f hf) (Nat.le_trans hsaves.changes.clock hle)
    · rw [← hc.definition] at hb
      exact (hbuilt.backups b hb).1
    · rw [htime]
      exact hlt
  · cases he

theorem FileTree.hasFile_iff_content? {p : Path} : t.HasFile p ↔ (t.content? p).isSome = true := by
  rw [FileTree.HasFile, FileTree.content?, Option.isSome_map]

/-- A bound file that is there is still there after a build. -/
theorem Category.Built.hasFile {outs : List (String × Text)} (h : c.Built outs t t') {b : Binding}
    (hb : b ∈ c.definition.bindings) (hfile : t.HasFile b.file) : t'.HasFile b.file := by
  rw [FileTree.hasFile_iff_content?]
  by_cases hmem : b.file ∈ outs.map fun o => Project.sourcePath o.1
  · obtain ⟨o, ho, heq⟩ := List.mem_map.1 hmem
    rw [← heq, h.written o ho]
    rfl
  · rw [h.kept _ (List.mem_append_left _ (List.mem_map_of_mem hb)) hmem]
    exact FileTree.hasFile_iff_content?.1 hfile

/-- **After a build the category is built**, if the bound files were there. -/
theorem Category.Regenerates.isBuilt (h : c.Regenerates K v (.ok ()) t t') (hc : c.IsManaged)
    (hfiles : ∀ b ∈ c.definition.bindings, t.HasFile b.file) : c.saved.IsBuilt t' := by
  obtain ⟨t₁, hsaves, -, ⟨outs, -, hbuilds, hbuilt⟩ | ⟨⟨e, he⟩, -⟩⟩ := h
  · obtain ⟨time, -, -, -, hstamped⟩ := hbuilt.stamped
    refine ⟨rfl, ?_, fun b hb => ⟨hbuilt.hasFile hb ?_, (hbuilt.backups b hb).1⟩, fun g hg => ?_,
      fun _ document hdocument p hp f hf => ?_⟩
    · show t'.HasFile c.kind.documentPath
      rw [FileTree.hasFile_iff_content?, hbuilt.document, ← FileTree.hasFile_iff_content?]
      exact hsaves.document
    · have hb' := hb
      rw [Category.saved, hc.definition] at hb'
      exact (hsaves.changes.hasFile fun heq => c.kind.documentPath_notMem
        (heq ▸ CategoryKind.file_mem hb')).2 (hfiles b hb)
    · -- a category with generated files has a generator, which writes them all
      have hg' : g ∈ (CategoryDef.ofKind c.kind).generated := by
        rw [← hc.definition]
        exact hg
      have hmem : g.path ∈ outs.map fun o => Project.sourcePath o.1 := by
        rw [hbuilds.map_paths hc, hc.definition, if_pos (CategoryDef.generator?_isSome hg')]
        exact List.mem_append_left _ (List.mem_map_of_mem hg')
      obtain ⟨o, ho, heq⟩ := List.mem_map.1 hmem
      rw [FileTree.hasFile_iff_content?, ← heq]
      exact congrArg Option.isSome (hbuilt.written o ho)
    · refine Nat.le_of_eq ?_
      rw [hstamped _ List.mem_cons_self document hdocument,
        hstamped p (List.mem_cons_of_mem _ hp) f hf]
  · cases he

/-- A build gives the bound files that are there a new time, later than all before it if something
had to be saved or backed up. -/
theorem Category.Regenerates.exists_stamped (h : c.Regenerates K v (.ok ()) t t')
    (hc : c.IsManaged) {b : Binding} (hb : b ∈ c.definition.bindings) (hfile : t.HasFile b.file) :
    ∃ f, t'.file? b.file = some f ∧ t.clock ≤ f.time ∧
      (c.store.isDirty t = true ∨ (∃ b ∈ c.definition.bindings, ¬ t.HasFile b.backup) →
        t.clock < f.time) := by
  obtain ⟨t₁, hsaves, -, ⟨outs, -, hbuilds, hbuilt⟩ | ⟨⟨e, he⟩, -⟩⟩ := h
  · obtain ⟨time, hle, -, hlater, hstamped⟩ := hbuilt.stamped
    have hsame : ∀ b ∈ c.definition.bindings, ∀ p ∈ b.paths, t₁.HasFile p ↔ t.HasFile p := by
      intro b hb p hp
      rw [hc.definition] at hb
      exact hsaves.changes.hasFile fun heq =>
        c.kind.documentPath_notMem (heq ▸ CategoryKind.paths_subset hb hp)
    have hfile' := hbuilt.hasFile hb ((hsame b hb _ b.file_mem_paths).2 hfile)
    obtain ⟨f, hf⟩ := Option.isSome_iff_exists.1 hfile'
    have htime := hstamped b.file
      (List.mem_cons_of_mem _ (List.mem_append_left _ (List.mem_map_of_mem hb))) f hf
    refine ⟨f, hf, ?_, ?_⟩
    · rw [htime]
      exact Nat.le_trans hsaves.changes.clock hle
    · rw [htime]
      rintro (hdirty | ⟨b', hb', hnone⟩)
      · obtain ⟨saved, hle', hlt', -⟩ := hsaves.written hdirty
        exact Nat.lt_of_le_of_lt hle' (Nat.lt_of_lt_of_le hlt' hle)
      · exact Nat.lt_of_le_of_lt hsaves.changes.clock
          (hlater ⟨b', hb', fun h => hnone ((hsame b' hb' _ b'.backup_mem_paths).1 h)⟩)
  · cases he

/-- Whether a build of a category fails and leaves its sources newer than its document. -/
def Category.FailsLoudly (v : Workshop) (c : Category) (t : FileTree) : Prop :=
  (∀ outs, ¬ c.Builds v t outs) ∧ c.LeavesBackup t

theorem Category.LeavesBackup.congr (hc : c.IsManaged) (h : c.LeavesBackup t)
    (hsame : t.AgreeOn (· ∈ c.kind.managedPaths) t') : c.LeavesBackup t' := by
  have hpaths : ∀ b ∈ c.definition.bindings, ∀ p ∈ b.paths, p ∈ c.kind.managedPaths := by
    rw [hc.definition]
    exact fun b hb p hp => CategoryKind.paths_subset hb hp
  refine h.imp (fun ⟨b, hb, hfile⟩ => ⟨b, hb, ?_⟩) fun ⟨b, hb, hfile⟩ => ⟨b, hb, ?_⟩
  · exact (hsame.hasFile (hpaths b hb _ b.backup_mem_paths)).2 hfile
  · exact (hsame.hasFile (hpaths b (List.mem_of_head? hb) _ b.file_mem_paths)).2 hfile

theorem Category.Saves.agreeOn_managed (h : c.Saves K t t') :
    t.AgreeOn (· ∈ c.kind.managedPaths) t' :=
  fun _ hp => h.changes.frame _ fun heq => c.kind.documentPath_notMem (heq ▸ hp)

/-- A build that fails loudly leaves an input that is newer than the document. -/
theorem Category.Regenerates.not_isCurrent (h : c.Regenerates K v r t t') (hc : c.IsManaged)
    (hpast : ∀ d, t.file? c.kind.documentPath = some d → d.time < t.clock)
    (hfails : c.FailsLoudly v t) (document : File) : ¬ c.kind.IsCurrent t' document := by
  intro hcurrent
  obtain ⟨t₁, hsaves, -, ⟨outs, -, hbuilds, -⟩ | ⟨-, -, hfailed, hdocument⟩⟩ := h
  · exact hfails.1 outs hbuilds
  · have hleaves := hfails.2.congr hc hsaves.agreeOn_managed
    obtain ⟨b, hb, f, hf, hle⟩ := hfailed.putBack hleaves
    rw [hc.definition] at hb
    have hinput := hcurrent.inputs b.file (CategoryKind.file_mem_inputPaths hb) f hf
    have hlt : document.time < t₁.clock := by
      have hhere := hcurrent.here
      rw [hdocument] at hhere
      obtain ⟨saved, hfile, -, hsame | ⟨-, hlt⟩⟩ := hsaves.exists_document
      · rw [hsame] at hhere ⊢
        exact hpast document hhere
      · obtain rfl : saved = document := Option.some.inj (hfile.symm.trans hhere)
        exact hlt
    exact Nat.lt_irrefl _ (Nat.lt_of_lt_of_le hlt (Nat.le_trans hle hinput))

/-- A build that fails with nothing to put back leaves the document current. -/
theorem Category.Regenerates.isSettled_of_not_leavesBackup (h : c.Regenerates K v r t t')
    (hc : c.IsManaged) (hsettled : c.kind.IsSettled t) (hnot : ∀ outs, ¬ c.Builds v t outs)
    (hquiet : ¬ c.LeavesBackup t) : c.kind.IsSettled t' := by
  obtain ⟨t₁, hsaves, hchanges, ⟨outs, -, hbuilds, -⟩ | ⟨-, -, hfailed, hdocument⟩⟩ := h
  · exact absurd hbuilds (hnot outs)
  · have hquiet₁ : ¬ c.LeavesBackup t₁ := fun hleaves =>
      hquiet (hleaves.congr hc hsaves.agreeOn_managed.symm)
    obtain ⟨document, hcurrent, hpast⟩ := hsaves.isSettled hsettled
    refine ⟨document, hcurrent.later (fun p hp => ?_) (fun b hb hbackup => ?_)
      (hdocument.trans hcurrent.here) (Nat.le_refl _), Nat.lt_of_lt_of_le hpast hchanges.clock⟩
    · by_cases hown : p ∈ c.kind.ownPaths
      · -- a bound file; a generated one is no input
        obtain ⟨b, hb, rfl⟩ := CategoryKind.exists_binding hp hown
        rw [← hc.definition] at hb
        exact hfailed.kept hquiet₁ b hb
      · exact hchanges.frame p hown
    · rw [← hc.definition] at hb
      exact absurd (Or.inl ⟨b, hb, hbackup⟩) hquiet₁

/-- **After a regeneration the document is current unless the build failed loudly.** -/
theorem Category.Regenerates.isSettled_iff (h : c.Regenerates K v r t t') (hc : c.IsManaged)
    (hsettled : c.kind.IsSettled t) : c.kind.IsSettled t' ↔ ¬ c.FailsLoudly v t := by
  obtain ⟨document, hcurrent, hpast⟩ := hsettled
  have hdocument : ∀ d, t.file? c.kind.documentPath = some d → d.time < t.clock := by
    intro d hd
    obtain rfl : document = d := Option.some.inj (hcurrent.here.symm.trans hd)
    exact hpast
  constructor
  · rintro ⟨d, hd, -⟩ hfails
    exact h.not_isCurrent hc hdocument hfails d hd
  · intro hquiet
    by_cases hbuilds : ∃ outs, c.Builds v t outs
    · obtain ⟨outs, hbuilds⟩ := hbuilds
      have hok : r = .ok () := by
        obtain ⟨-, -, -, ⟨-, hok, -⟩ | ⟨-, hnot, -⟩⟩ := h
        · exact hok
        · exact absurd hbuilds (hnot outs)
      subst hok
      exact h.isSettled_of_ok hc fun p hp _ f hf =>
        Nat.le_trans (hcurrent.inputs p hp f hf) (Nat.le_of_lt hpast)
    · have hnot : ∀ outs, ¬ c.Builds v t outs := fun outs hb => hbuilds ⟨outs, hb⟩
      exact h.isSettled_of_not_leavesBackup hc ⟨document, hcurrent, hpast⟩ hnot
        fun hleaves => hquiet ⟨hnot, hleaves⟩

/-! ## The other categories

The header is bound to the dex and read for species.  A regeneration of the dex writes nothing into
it, so it goes through wherever the header is, and all that is left of it is the new time. -/

/-- Whether a build of a category gives an input of another one a new time: the dex and species
share a header. -/
def Category.Disturbs (c : Category) (k : CategoryKind) (t : FileTree) : Prop :=
  c.kind = .pokedex ∧ k = .species ∧ t.HasFile (Project.sourcePath Pokedex.header)

/-- The one bound file of the dex. -/
theorem Category.IsManaged.bindings_pokedex (hc : c.IsManaged) (hkind : c.kind = .pokedex) :
    c.definition.bindings = [⟨Pokedex.header⟩] := by
  rw [hc.definition, hkind]
  rfl

/-- Nothing is written for the dex, so that its build fails only if there is neither the header nor
a backup of it. -/
theorem Category.builds_pokedex (hc : c.IsManaged) (hkind : c.kind = .pokedex)
    (hpristine : (Binding.pristine? t ⟨Pokedex.header⟩).isSome = true) : c.Builds v t [] := by
  refine ⟨fun b hb => ?_, ?_⟩
  · rw [hc.bindings_pokedex hkind] at hb
    rw [List.mem_singleton.1 hb]
    exact hpristine
  · rw [hc.definition, hkind]
    rfl

/-- A header that is not there is not made by a regeneration of the dex. -/
theorem Category.Regenerates.header_stays_missing (h : c.Regenerates K v r t t')
    (hc : c.IsManaged) (hkind : c.kind = .pokedex)
    (hnone : t.file? (Project.sourcePath Pokedex.header) = none) :
    t'.file? (Project.sourcePath Pokedex.header) = none := by
  have hmem : (⟨Pokedex.header⟩ : Binding) ∈ c.definition.bindings := by
    rw [hc.bindings_pokedex hkind]
    exact List.mem_cons_self
  have hmanaged : Project.sourcePath Pokedex.header ∈ c.kind.managedPaths := by
    have hmem' := hmem
    rw [hc.definition] at hmem'
    exact CategoryKind.paths_subset hmem' (by simp [Binding.paths, Binding.file])
  obtain ⟨t₁, hsaves, -, hresult⟩ := h
  have hsame := hsaves.agreeOn_managed
  suffices hmissing : t'.content? (Project.sourcePath Pokedex.header) = none from
    Option.map_eq_none_iff.1 hmissing
  rcases hresult with ⟨outs, -, hbuilds, hbuilt⟩ | ⟨-, hnot, hfailed, -⟩
  · have hpaths : outs.map (fun o => Project.sourcePath o.1) = [] := by
      rw [hbuilds.map_paths hc, hc.definition, hkind]
      rfl
    have hwritten : Project.sourcePath Pokedex.header ∈ c.definition.writtenPaths :=
      List.mem_append_left _ (List.mem_map_of_mem hmem)
    rw [hbuilt.kept _ hwritten (by rw [hpaths]; exact List.not_mem_nil), FileTree.content?,
      hsame _ hmanaged, hnone]
    rfl
  · have hpristine : (⟨Pokedex.header⟩ : Binding).pristine? t = none := by
      by_contra hsome
      exact hnot [] (Category.builds_pokedex hc hkind (Option.isSome_iff_ne_none.2 hsome))
    have hput := (hfailed.backups _ hmem).2
    rw [hc.definition] at hmem
    refine hput.trans (Eq.trans ?_ hpristine)
    exact Binding.pristine?_congr fun p hp => hsame p (CategoryKind.paths_subset hmem hp)

/-- A header that is there makes the build of the dex go through. -/
theorem Category.Regenerates.eq_ok_of_disturbs (h : c.Regenerates K v r t t') (hc : c.IsManaged)
    (hdisturbs : c.Disturbs k t) : r = .ok () := by
  obtain ⟨hkind, -, hheader⟩ := hdisturbs
  obtain ⟨-, -, -, ⟨-, hok, -⟩ | ⟨-, hnot, -⟩⟩ := h
  · exact hok
  · exact absurd (Category.builds_pokedex hc hkind
      (Binding.isSome_pristine?_iff.2 (Or.inr hheader))) (hnot [])

/-- A category that is disturbed is left with an input that is newer than its document. -/
theorem Category.Regenerates.not_isCurrent_of_disturbs (h : c.Regenerates K v r t t')
    (hc : c.IsManaged) (hdisturbs : c.Disturbs k t)
    (hpast : ∀ d, t.file? k.documentPath = some d → d.time < t.clock) (document : File) :
    ¬ k.IsCurrent t' document := by
  intro hcurrent
  obtain rfl := h.eq_ok_of_disturbs hc hdisturbs
  have hframe := h.changes.frame k.documentPath
  obtain ⟨hkind, rfl, hheader⟩ := hdisturbs
  have hmem : (⟨Pokedex.header⟩ : Binding) ∈ c.definition.bindings := by
    rw [hc.bindings_pokedex hkind]
    exact List.mem_cons_self
  obtain ⟨f, hf, hle, -⟩ := h.exists_stamped hc hmem hheader
  have hinput : Project.sourcePath Pokedex.header ∈ CategoryKind.species.inputPaths := by
    exact List.mem_map_of_mem List.mem_cons_self
  have hdocument := hcurrent.here
  rw [hframe fun hown => ?_] at hdocument
  · exact Nat.lt_irrefl _ (Nat.lt_of_lt_of_le (hpast document hdocument)
      (Nat.le_trans hle (hcurrent.inputs _ hinput f hf)))
  · have heq := CategoryKind.eq_of_mem_ownPaths hown List.mem_cons_self
    rw [hkind] at heq
    cases heq

/-- **What another category sees of a regeneration**, unless it is disturbed by it: nothing. -/
theorem Category.Regenerates.agreeOn (h : c.Regenerates K v r t t') (hc : c.IsManaged)
    (hne : c.kind ≠ k) (hcalm : ¬ c.Disturbs k t) : t.AgreeOn k.Sees t' := by
  rintro p (hown | hinput)
  · exact h.changes.frame p fun hmem => hne (CategoryKind.eq_of_mem_ownPaths hmem hown)
  · by_cases hmem : p ∈ c.kind.ownPaths
    · rcases CategoryKind.owner_of_input hinput hmem with heq | ⟨hspecies, hpokedex, rfl⟩
      · exact absurd heq hne
      · have hnone : t.file? (Project.sourcePath Pokedex.header) = none := by
          rw [← Option.not_isSome_iff_eq_none]
          exact fun hfile => hcalm ⟨hpokedex, hspecies, hfile⟩
        rw [hnone, h.header_stays_missing hc hpokedex hnone]
    · exact h.changes.frame p hmem

/-- What another category sees of the work on documents: nothing. -/
theorem agreeOn_of_extracts (h : t.Changes (trackedPaths K) c.kind.Extracts t') (hk : k ∈ K)
    (hne : c.kind ≠ k) : t.AgreeOn k.Sees t' := by
  refine fun p hp => h.frame p ?_
  have htracked : p ∈ trackedPaths K :=
    hp.elim (mem_trackedPaths_own hk) (mem_trackedPaths_input hk)
  rintro (rfl | hprocessed)
  · rcases hp with hown | hinput
    · exact hne (CategoryKind.eq_of_mem_ownPaths List.mem_cons_self hown)
    · rcases CategoryKind.owner_of_input hinput List.mem_cons_self with heq | ⟨-, -, heq⟩
      · exact hne heq
      · exact absurd (Option.some.inj (congrArg List.head? heq)) (by decide +revert)
  · exact not_under_processedDir htracked hprocessed

/-- What another category sees of a document that is saved: nothing. -/
theorem Category.Saves.agreeOn (h : c.Saves K t t') (hk : k ∈ K) (hne : c.kind ≠ k) :
    t.AgreeOn k.Sees t' :=
  agreeOn_of_extracts (h.changes.mono fun _ hp => Or.inl hp) hk hne

end TableSync
