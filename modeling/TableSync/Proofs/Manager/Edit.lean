import TableSync.Proofs.Manager.Operation
import TableSync.Proofs.Manager.Quiet

/-!
# Whether saved edits are kept

A load reads a document back as long as it is current.  So an edit that has been saved is kept until
an operation makes the document look older than its sources.

* `CategoryKind.Holds` says that a document is current, and holds certain records.
* `Operation.Endangers` are the operations after which a document may be extracted again: loads by
  force, restorations, a build of the category itself that fails with something to put back, and a
  build of the dex for species, which share a header.
* `Session.unsaved?` and `Operation.saved?` say which records an operation saves in a document, if
  it saves any; `Operation.lastSaved` goes over a run with them.
* `Operation.run_holds` says that all operations that do not endanger a document keep it current,
  and what they save in it.  There is one lemma for each kind of operation that writes.
* `Operation.runAll_keeps_edit` says the same of whole runs, up to the load of a new manager.  It is
  an induction on the operations, with the session and the records general.
* `Operation.regenerate_isSettled_iff` says that a regeneration that endangers a document does so.
-/

set_option autoImplicit false

namespace TableSync

variable {K : List CategoryKind} {k : CategoryKind} {c : Category} {t t' : FileTree}
  {v : Workshop} {r : Except Failure Unit} {R : Record} {s : Session} {w : World}

/-- A document is current, and holds certain records. -/
structure CategoryKind.Holds (k : CategoryKind) (t : FileTree) (R : Record) : Prop where
  /-- The document is current, and its time is past. -/
  isSettled : k.IsSettled t
  /-- It holds the records. -/
  content : t.content? k.documentPath = some (.text R.document)

theorem CategoryKind.Holds.congr (h : k.Holds t R) (hsame : t.AgreeOn k.Sees t')
    (hclock : t.clock ≤ t'.clock) : k.Holds t' R := by
  refine ⟨h.isSettled.congr hsame hclock, ?_⟩
  rw [FileTree.content?, hsame _ (Or.inl List.mem_cons_self)]
  exact h.content

/-- A document that has been written now, with some input and all inputs before it. -/
structure CategoryKind.IsEdited (k : CategoryKind) (t : FileTree) (R : Record) (time : Nat) :
    Prop where
  /-- The document holds the records, and has the time given. -/
  document : t.file? k.documentPath = some ⟨.text R.document, time⟩
  /-- The time is past. -/
  past : time < t.clock
  /-- Some input is there. -/
  input : ∃ p ∈ k.inputPaths, t.HasFile p
  /-- All inputs are older than the document. -/
  newest : ∀ p ∈ k.inputPaths, ∀ f, t.file? p = some f → f.time < time

theorem CategoryKind.IsEdited.holds {time : Nat} (h : k.IsEdited t R time) : k.Holds t R := by
  refine ⟨⟨_, ⟨h.document, fun p hp f hf => Nat.le_of_lt (h.newest p hp f hf),
    Or.inr ⟨h.input, h.newest⟩⟩, h.past⟩, ?_⟩
  rw [FileTree.content?, h.document]
  rfl

/-! ## One category -/

/-- The records of a category that are not in its document. -/
def Category.unsaved? (c : Category) (t : FileTree) : Option Record :=
  if c.store.isDirty t then some c.store.records else none

theorem Category.savedContent?_eq (h : t.content? c.kind.documentPath = some (.text R.document)) :
    c.savedContent? t = some (.text ((c.unsaved? t).getD R).document) := by
  rw [savedContent?, unsaved?, h]
  split <;> rfl

theorem Category.Saves.holds (h : c.Saves K t t') (hholds : c.kind.Holds t R) :
    c.kind.Holds t' ((c.unsaved? t).getD R) := by
  refine ⟨h.isSettled hholds.isSettled, ?_⟩
  obtain ⟨document, hfile, hcontent, -⟩ := h.exists_document
  rw [← Category.savedContent?_eq hholds.content, hcontent, FileTree.content?, hfile]
  rfl

theorem Category.Regenerates.holds (h : c.Regenerates K v r t t') (hc : c.IsManaged)
    (hquiet : ¬ c.FailsLoudly v t) (hholds : c.kind.Holds t R) :
    c.kind.Holds t' ((c.unsaved? t).getD R) := by
  refine ⟨(h.isSettled_iff hc hholds.isSettled).2 hquiet, ?_⟩
  rw [h.content?_document, Category.savedContent?_eq hholds.content]

/-- Reading a document that holds certain records. -/
theorem Store.read_of_content? {project : Project} (hk : k ∈ K) (hclear : t.Clear (trackedPaths K))
    (hcontent : t.content? k.documentPath = some (.text R.document))
    (hparse : Record.parse? R.document = some R) :
    Store.read project t k.documentPath = .ok ⟨k.documentPath, R, some R⟩ := by
  have hadmits := hclear _ (mem_trackedPaths_own hk List.mem_cons_self)
  rw [Store.read, hadmits.readText_eq, hcontent]
  simp only [hparse]

/-! ## What is kept from operation to operation

What an operation saves, and whether it endangers a document, is said of the session before it, so
both can be computed along a run without looking at what the operations do to the files. -/

/-- The records of a kind that are not in its document. -/
def Session.unsaved? (s : Session) (k : CategoryKind) : Option Record :=
  (s.manager.loaded? k).bind fun c => c.unsaved? s.tree

/-- The records that an operation saves in the document of a kind. -/
def Operation.saved? (k : CategoryKind) (s : Session) : Operation → Option Record
  | persistAll => s.unsaved? k
  | save kind | regenerate kind => if kind = k then s.unsaved? kind else none
  | regenerateAll dryRun => if dryRun then none else s.unsaved? k
  | _ => none

/-- Whether a build of one category makes the document of a kind look older than its inputs. -/
def Category.Endangers (v : Workshop) (c : Category) (k : CategoryKind) (t : FileTree) : Prop :=
  c.kind = k ∧ c.FailsLoudly v t ∨ c.Disturbs k t

/-- Whether the document of a kind may be extracted again after an operation. -/
def Operation.Endangers (k : CategoryKind) (s : Session) : Operation → Prop
  | loadAll force => force = true
  | restoreAll => True
  | regenerate kind => ∃ c ∈ s.manager.categories, c.kind = kind ∧ c.trusted = true ∧
      c.Endangers s.manager.workshop k s.tree
  | regenerateAll dryRun => dryRun = false ∧ ∃ c ∈ s.manager.categories, c.IsDue s.tree ∧
      c.Endangers s.manager.workshop k s.tree
  | _ => False

theorem Session.IsOver.unsaved?_eq (hs : s.IsOver K) (hK : K.Nodup)
    (hc : c ∈ s.manager.categories) :
    s.unsaved? c.kind = if c.trusted = true then c.unsaved? s.tree else none := by
  rw [Session.unsaved?, hs.loaded?_eq hK hc]
  split <;> rfl

/-- Whether a category is dirty is seen from its document. -/
theorem Category.unsaved?_congr (hc : c.IsManaged) (hk : c.kind ∈ K)
    (hclear : t.Clear (trackedPaths K)) (hclear' : t'.Clear (trackedPaths K))
    (hsame : t.AgreeOn c.kind.Sees t') : c.unsaved? t' = c.unsaved? t := by
  have hdoc : c.kind.documentPath ∈ trackedPaths K := mem_trackedPaths_own hk List.mem_cons_self
  rw [unsaved?, unsaved?, Store.isDirty, Store.isDirty, hc.path, (hclear _ hdoc).contains_eq,
    (hclear' _ hdoc).contains_eq, hsame _ (Or.inl List.mem_cons_self)]

/-- Whether a build fails loudly is seen from the bound files. -/
theorem Category.FailsLoudly.congr (hc : c.IsManaged) (h : c.FailsLoudly v t)
    (hsame : t.AgreeOn c.kind.Sees t') : c.FailsLoudly v t' := by
  have hmanaged : t.AgreeOn (· ∈ c.kind.managedPaths) t' := fun p hp =>
    hsame p (Or.inl (List.mem_cons_of_mem _ hp))
  refine ⟨fun outs hbuilds => h.1 outs (hbuilds.congr hc.definition fun b hb => ?_),
    h.2.congr hc hmanaged⟩
  rw [hc.definition] at hb
  exact (Binding.pristine?_congr fun p hp =>
    hmanaged p (CategoryKind.paths_subset hb hp)).symm

/-- The sessions after operations that do not touch the files. -/
theorem Session.edit_tree (s : Session) (e : Result Manager) : (s.edit e).tree = s.tree := by
  cases e <;> rfl

/-! ## The operations -/

theorem Session.IsOver.loadAll_holds (hs : s.IsOver K) (hK : K.Nodup)
    (hclear : s.tree.Clear (trackedPaths K)) (hk : k ∈ K) (hholds : k.Holds s.tree R) :
    k.Holds ((Operation.loadAll false).run s).tree R := by
  obtain ⟨c, hc, rfl⟩ := hs.exists_category hk
  have hquiet := isQuiet_loadCategory (v := s.manager.workshop) hs.confined hk false
  obtain ⟨c', w₁, w₂, hturn, -⟩ := hquiet.exists_turn (hs.areManaged hK) hclear trivial hc rfl
  have hholds₁ := hholds.congr hturn.before hturn.clock_before
  obtain ⟨n, hexec⟩ := hturn.exec
  obtain ⟨w', hexec', htree⟩ := exec_loadCategory_of_isCurrent (v := s.manager.workshop)
    (hs.managed c hc) hk hturn.clear hholds₁.isSettled.exists_isCurrent
  obtain rfl : w' = w₂ := (Prod.mk.inj (hexec'.symm.trans hexec)).2
  rw [← htree] at hholds₁
  exact hholds₁.congr hturn.after hturn.clock_after

theorem Session.IsOver.persistAll_holds (hs : s.IsOver K) (hK : K.Nodup)
    (hclear : s.tree.Clear (trackedPaths K)) (hk : k ∈ K) (hholds : k.Holds s.tree R) :
    k.Holds (Operation.persistAll.run s).tree ((s.unsaved? k).getD R) := by
  obtain ⟨c, hc, rfl⟩ := hs.exists_category hk
  have hm := hs.managed c hc
  have hquiet := isQuiet_persistCategory s.manager.project hk
  obtain ⟨c', w₁, w₂, hturn, -⟩ := hquiet.exists_turn (hs.areManaged hK) hclear trivial hc rfl
  have hholds₁ := hholds.congr hturn.before hturn.clock_before
  obtain ⟨n, hexec⟩ := hturn.exec
  obtain ⟨m, w', hexec', hsaves⟩ := exists_persistCategory s.manager.project hm hk hturn.clear
  obtain rfl : w' = w₂ := (Prod.mk.inj (hexec'.symm.trans hexec)).2
  refine CategoryKind.Holds.congr ?_ hturn.after hturn.clock_after
  rw [hs.unsaved?_eq hK hc, ← Category.unsaved?_congr hm hk hclear hturn.clear hturn.before]
  rcases hsaves with ⟨htrusted, htree⟩ | ⟨htrusted, hsaves⟩
  · rw [if_neg (by simp [htrusted]), htree]
    exact hholds₁
  · rw [if_pos htrusted]
    exact hsaves.holds hholds₁

theorem Session.IsOver.save_holds (hs : s.IsOver K)
    (hclear : s.tree.Clear (trackedPaths K)) (hk : k ∈ K) (kind : CategoryKind)
    (hholds : k.Holds s.tree R) :
    k.Holds ((Operation.save kind).run s).tree (((Operation.save kind).saved? k s).getD R) := by
  rw [Operation.saved?, Session.unsaved?]
  rcases hs.run_save hclear kind with ⟨hloaded, hrun⟩ | ⟨c, w', hloaded, hsaves, hrun⟩
  · rw [hrun, hloaded, Option.bind_none, ite_self]
    exact hholds
  · rw [hrun, hloaded]
    show k.Holds w'.tree _
    obtain ⟨-, rfl, -⟩ := Manager.loaded?_spec hloaded
    split
    · next heq => exact heq ▸ hsaves.holds (heq ▸ hholds)
    · next hne => exact hholds.congr (hsaves.agreeOn hk hne) hsaves.changes.clock

theorem Session.IsOver.regenerate_holds (hs : s.IsOver K) (hK : K.Nodup)
    (hclear : s.tree.Clear (trackedPaths K)) (kind : CategoryKind)
    (hsafe : ¬ (Operation.regenerate kind).Endangers k s) (hholds : k.Holds s.tree R) :
    k.Holds ((Operation.regenerate kind).run s).tree
      (((Operation.regenerate kind).saved? k s).getD R) := by
  rw [Operation.saved?, Session.unsaved?]
  rcases hs.run_regenerate hK hclear kind with
    ⟨hloaded, hrun⟩ | ⟨c, r, w', hloaded, hregenerates, hrun⟩
  · rw [hrun, hloaded, Option.bind_none, ite_self]
    exact hholds
  · rw [hrun, hloaded]
    show k.Holds w'.tree _
    obtain ⟨hmem, rfl, htrusted⟩ := Manager.loaded?_spec hloaded
    have hm := hs.managed c hmem
    have hquiet : ¬ c.Endangers s.manager.workshop k s.tree := fun h =>
      hsafe ⟨c, hmem, rfl, htrusted, h⟩
    split
    · next heq =>
      subst heq
      exact hregenerates.holds hm (fun h => hquiet (Or.inl ⟨rfl, h⟩)) hholds
    · next hne =>
      exact hholds.congr (hregenerates.agreeOn hm hne fun h => hquiet (Or.inr h))
        hregenerates.changes.clock

theorem Session.IsOver.regenerateAll_holds (hs : s.IsOver K) (hK : K.Nodup)
    (hclear : s.tree.Clear (trackedPaths K)) (hk : k ∈ K)
    (hsafe : ¬ (Operation.regenerateAll false).Endangers k s) (hholds : k.Holds s.tree R) :
    k.Holds ((Operation.regenerateAll false).run s).tree ((s.unsaved? k).getD R) := by
  obtain ⟨c, hc, rfl⟩ := hs.exists_category hk
  have hm := hs.managed c hc
  have hsafe' : ∀ d ∈ s.manager.categories, d.IsDue s.tree →
      ¬ d.Endangers s.manager.workshop c.kind s.tree := fun d hd hdue h =>
    hsafe ⟨rfl, d, hd, hdue, h⟩
  have hwrite : s.manager.workshop.write = writeAnnounced s.manager.workshop.project := rfl
  -- No other due category endangers the edit, so its own turn finds it as it was.
  obtain ⟨c', w₁, w₂, hturn, -⟩ := (isQuiet_regenerateIfDue hwrite false).exists_turn
    (hs.areManaged hK) hclear (fun d hd hdue h => hsafe' d hd hdue (Or.inr h)) hc rfl
  have hholds₁ := hholds.congr hturn.before hturn.clock_before
  obtain ⟨n, hexec⟩ := hturn.exec
  refine CategoryKind.Holds.congr ?_ hturn.after hturn.clock_after
  rw [hs.unsaved?_eq hK hc, ← Category.unsaved?_congr hm hk hclear hturn.clear hturn.before]
  by_cases hdue : c.IsDue w₁.tree
  · obtain ⟨r, w', hexec', hregenerates, -⟩ := exists_regenerateIfDue_of_isDue hwrite hm hk
      hturn.clear hdue
    obtain rfl : w' = w₂ := (Prod.mk.inj (hexec'.symm.trans hexec)).2
    rw [if_pos hdue.1]
    -- Its own turn saves first; a failing build is what `hsafe` excludes.
    refine hregenerates.holds hm (fun hfails => ?_) hholds₁
    refine hsafe' c hc ((Category.IsDue.congr hm hk hclear hturn.clear fun p hp =>
      hturn.before p (Or.inl hp)).1 hdue) (Or.inl ⟨rfl, ?_⟩)
    exact hfails.congr hm hturn.before.symm
  · obtain ⟨m, w', status, detail, hexec', htree, -⟩ :=
      exists_regenerateIfDue_of_rests (v := s.manager.workshop) false fun h => absurd h hdue
    obtain rfl : w' = w₂ := (Prod.mk.inj (hexec'.symm.trans hexec)).2
    -- A category that rests has nothing unsaved, or is not trusted.
    have hnone : (if c.trusted = true then c.unsaved? w₁.tree else none) = none := by
      split
      · next htrusted =>
        have hclean : c.store.isDirty w₁.tree = false := by
          by_contra hdirty
          refine hdue ⟨htrusted, ?_⟩
          rw [Category.regenerationDue, eq_true_of_ne_false hdirty]
          rfl
        rw [Category.unsaved?, hclean]
        rfl
      · rfl
    rw [hnone, htree]
    exact hholds₁

/-- **An operation that does not endanger a document keeps it**, with what it saves in it. -/
theorem Operation.run_holds (hs : s.IsOver K) (hK : K.Nodup) (hclear : s.tree.Clear (trackedPaths K))
    (hk : k ∈ K) (op : Operation) (hsafe : ¬ op.Endangers k s) (hholds : k.Holds s.tree R) :
    k.Holds (op.run s).tree ((op.saved? k s).getD R) := by
  cases op with
  | start constants preprocessor => exact hholds
  | set kind path v => exact (s.edit_tree _).symm ▸ hholds
  | setSpeciesInfo species key v form => exact (s.edit_tree _).symm ▸ hholds
  | setStarterField slot key v => exact (s.edit_tree _).symm ▸ hholds
  | restoreAll => exact absurd trivial hsafe
  | openDocuments =>
    have hrests : (Run.exec (overCategories (Manager.openCategory s.manager.project)
        s.manager.categories) s.world).2.tree = s.world.tree :=
      overCategories_tree fun c w => by
        obtain ⟨w', hexec, htree⟩ := @exec_openCategory s.manager.project c w
        rw [hexec, htree]
    exact (show (openDocuments.run s).tree = s.tree from hrests) ▸ hholds
  | loadAll force =>
    obtain rfl : force = false := by simpa [Endangers] using hsafe
    exact hs.loadAll_holds hK hclear hk hholds
  | persistAll => exact hs.persistAll_holds hK hclear hk hholds
  | save kind => exact hs.save_holds hclear hk kind hholds
  | regenerate kind => exact hs.regenerate_holds hK hclear kind hsafe hholds
  | regenerateAll dryRun =>
    cases dryRun with
    | false => exact hs.regenerateAll_holds hK hclear hk hsafe hholds
    | true =>
      have hrests : (Run.exec (overCategories (Manager.regenerateIfDue s.manager.workshop true)
          s.manager.categories) s.world).2.tree = s.world.tree :=
        overCategories_tree fun c w => by
          obtain ⟨n, w', status, detail, hexec, htree, -⟩ := exists_regenerateIfDue_of_rests
            (v := s.manager.workshop) (c := c) (w := w) true fun _ => rfl
          rw [hexec, htree]
      exact (show ((regenerateAll true).run s).tree = s.tree from hrests) ▸ hholds

/-! ## Runs -/

/-- No operation of a run endangers the document of a kind. -/
def Operation.IsSafeRun (k : CategoryKind) : Session → List Operation → Prop
  | _, [] => True
  | s, op :: ops => ¬ op.Endangers k s ∧ IsSafeRun k (op.run s) ops

/-- The records last saved in the document of a kind, which held certain ones at the start. -/
def Operation.lastSaved (k : CategoryKind) : Session → List Operation → Record → Record
  | _, [], R => R
  | s, op :: ops, R => lastSaved k (op.run s) ops ((op.saved? k s).getD R)

/-- **A run that does not endanger a document keeps it**, with what was last saved in it. -/
theorem Operation.runAll_holds (hs : s.IsOver K) (hK : K.Nodup)
    (hclear : s.tree.Clear (trackedPaths K)) (hk : k ∈ K) (ops : List Operation)
    (hops : ∀ op ∈ ops, op.IsConfined) (hsafe : IsSafeRun k s ops) (hholds : k.Holds s.tree R) :
    k.Holds (Operation.runAll s ops).tree (lastSaved k s ops R) := by
  induction ops generalizing s R with
  | nil => exact hholds
  | cons op ops ih =>
    have hrun := Operation.run_spec hs hK hclear op (hops op List.mem_cons_self)
    exact ih hrun.isOver (hrun.works.clear hclear)
      (fun o ho => hops o (List.mem_cons_of_mem op ho)) hsafe.2
      (Operation.run_holds hs hK hclear hk op hsafe.1 hholds)

/-- A load reads the records that a current document holds. -/
theorem Session.IsOver.records?_loadAll (hs : s.IsOver K) (hK : K.Nodup)
    (hclear : s.tree.Clear (trackedPaths K)) (hk : k ∈ K) (hholds : k.Holds s.tree R)
    (hparse : Record.parse? R.document = some R) :
    ((Operation.loadAll false).run s).manager.records? k = some R := by
  obtain ⟨c, hc, rfl⟩ := hs.exists_category hk
  have hover : ((Operation.loadAll false).run s).IsOver K :=
    (hs.forAll hK hclear (loadCategory_acts hs.confined false)).isOver
  have hquiet := isQuiet_loadCategory (v := s.manager.workshop) hs.confined hk false
  obtain ⟨c', w₁, w₂, hturn, hunique⟩ :=
    hquiet.exists_turn (hs.areManaged hK) hclear trivial hc rfl
  have hholds₁ := hholds.congr hturn.before hturn.clock_before
  obtain ⟨n, hexec⟩ := hturn.exec
  obtain ⟨w', hexec', -⟩ := exec_loadCategory_of_isCurrent (v := s.manager.workshop)
    (hs.managed c hc) hk hturn.clear hholds₁.isSettled.exists_isCurrent
  rw [Category.reloaded, Store.read_of_content? hk hturn.clear hholds₁.content hparse] at hexec'
  have hresult : c' = c.withStore ⟨c.kind.documentPath, R, some R⟩ :=
    ((Prod.mk.inj (Prod.mk.inj (hexec'.symm.trans hexec)).1).2).symm
  obtain ⟨d, hd, hkind⟩ := hover.exists_category hk
  have hloaded := hover.loaded?_eq hK hd
  rw [hkind, (hunique d hd hkind).trans hresult] at hloaded
  rw [Manager.records?, hloaded]
  rfl

/-- **A saved edit is kept by the tool**: after it has been saved, and whatever is done that does
not endanger its document, a load of a new manager gives back the records that were saved last. -/
theorem Operation.runAll_keeps_edit (hK : K.Nodup) {s₀ : Session} (hs₀ : s₀.IsOver K)
    (hclear : s₀.tree.Clear (trackedPaths K)) (hk : k ∈ K) {time : Nat}
    (hedited : k.IsEdited s₀.tree R time) (ops : List Operation)
    (hops : ∀ op ∈ ops, op.IsConfined) (hsafe : IsSafeRun k s₀ ops) {last : Record}
    (hlast : last = lastSaved k s₀ ops R) (hparse : Record.parse? last.document = some last)
    (constants : ConstantTable) {preprocessor : Preprocessor}
    (hconfined : preprocessor.IsConfined) :
    ((Operation.loadAll false).run
      ((Operation.runAll s₀ ops).restart constants preprocessor)).manager.records? k =
        some last := by
  have hrun := Operation.runAll_spec hs₀ hK hclear ops hops
  have hholds := Operation.runAll_holds hs₀ hK hclear hk ops hops hsafe hedited.holds
  rw [← hlast] at hholds
  exact (hrun.isOver.restart constants hconfined).isOver.records?_loadAll hK
    (hrun.works.clear hclear) hk hholds hparse

/-- The document of a starter of level 12, newer than the sources. -/
def Starters.sampleDocument : List (Path × Node) :=
  [(["data"], .directory 0),
    (["data", "starters.json"], .file ⟨.text (sampleRecords 12).document, 1⟩)]

/-- A document that is edited twice. -/
theorem Operation.runAll_keeps_edit_starters :
    ((Operation.loadAll false).run ((Operation.runAll
      (Starters.sampleSession Starters.sampleDocument 2)
      [.loadAll false, .setStarterField 0 "level" (.int 20), .persistAll]).restart []
        Starters.samplePreprocessor)).manager.records? .starters =
          some (Starters.sampleRecords 20) :=
  Operation.runAll_keeps_edit (by decide) (Starters.sampleSession_isOver Starters.sampleDocument 2)
    (by decide +kernel) (by decide) (R := Starters.sampleRecords 12)
    ⟨rfl, by decide, ⟨["source", "src", "starter_choose.c"], by decide, rfl⟩, by decide +kernel⟩ _
    (by simp [Operation.IsConfined]) (by simp [Operation.IsSafeRun, Operation.Endangers])
    (by decide +kernel) (by decide +kernel) [] Starters.samplePreprocessor_isConfined

/-! ## What endangers a document -/

/-- **A regeneration keeps a document current if and only if it does not endanger it.** -/
theorem Operation.regenerate_isSettled_iff (hs : s.IsOver K) (hK : K.Nodup)
    (hclear : s.tree.Clear (trackedPaths K)) (hsettled : k.IsSettled s.tree)
    (kind : CategoryKind) :
    k.IsSettled ((Operation.regenerate kind).run s).tree ↔
      ¬ (Operation.regenerate kind).Endangers k s := by
  have hpast : ∀ d, s.tree.file? k.documentPath = some d → d.time < s.tree.clock := by
    obtain ⟨document, hcurrent, hlt⟩ := hsettled
    intro d hd
    obtain rfl : document = d := Option.some.inj (hcurrent.here.symm.trans hd)
    exact hlt
  rcases hs.run_regenerate hK hclear kind with
    ⟨hloaded, hrun⟩ | ⟨c, r, w', hloaded, hregenerates, hrun⟩
  · rw [hrun]
    refine iff_of_true hsettled ?_
    rintro ⟨d, hd, rfl, htrusted, -⟩
    rw [hs.loaded?_eq hK hd, if_pos htrusted] at hloaded
    cases hloaded
  · obtain ⟨hmem, rfl, htrusted⟩ := Manager.loaded?_spec hloaded
    have hm := hs.managed c hmem
    rw [hrun]
    show k.IsSettled w'.tree ↔ _
    constructor
    · rintro ⟨document, hcurrent, -⟩ ⟨d, hd, hkind, -, hendangers⟩
      obtain rfl := (hs.areManaged hK).eq_of_kind_eq hd hmem hkind
      rcases hendangers with ⟨rfl, hfails⟩ | hdisturbs
      · exact hregenerates.not_isCurrent hm hpast hfails document hcurrent
      · exact hregenerates.not_isCurrent_of_disturbs hm hdisturbs hpast document hcurrent
    · intro hsafe
      have hquiet : ¬ c.Endangers s.manager.workshop k s.tree := fun h =>
        hsafe ⟨c, hmem, rfl, htrusted, h⟩
      by_cases heq : c.kind = k
      · subst heq
        exact (hregenerates.isSettled_iff hm hsettled).2 fun h => hquiet (Or.inl ⟨rfl, h⟩)
      · exact hsettled.congr (hregenerates.agreeOn hm heq fun h => hquiet (Or.inr h))
          hregenerates.changes.clock

/-- The level of a starter is lost after a build that fails. -/
theorem Starters.regenerate_loses_edit :
    ((Operation.loadAll false).run ((Operation.runAll (sampleSession sampleDocument 2)
      [.loadAll false, .regenerate .starters]).restart [] samplePreprocessor)).manager.records?
        .starters = some (sampleRecords 5) := by
  decide +kernel

end TableSync
