import TableSync.Preprocess.Inline
import TableSync.Proofs.Manager.Turns

/-!
# Runs of operations

A session is a manager at work on the files of a project.  Operations follow each other in any
order, and a new manager may take the place of the old one at any time, with other constants.

* `Operation.run` is what an operation does, and `Operation.runAll` what a run of operations does.
  An operation that fails leaves a session, too, and the run goes on with it.
* `Session.IsOver` says that the manager of a session is over certain categories, each at its place.
* `Session.Continues` says that a session goes on over the same categories, by steps on them
  (`Works`).  It is what every operation gives, and what follows from steps follows from operations.
* `Session.IsOver.forAll` and `Session.IsOver.act` are work on all categories and on one; the
  operations are taken from them one by one, with what each of them does said in its own lemma
  (`Session.IsOver.run_save`, `Session.IsOver.run_regenerate`).
* `Operation.run_spec` and `Operation.runAll_spec` say that operations are made of steps on these
  categories, the second by induction on the run.

At the end stands a session over starters, which examples in other modules start from.
-/

set_option autoImplicit false

namespace TableSync

/-- A manager at work on the files of a project. -/
structure Session where
  /-- The manager with its categories. -/
  manager : Manager
  /-- The files, and what has been told. -/
  world : World

namespace Session

/-- The files of a session. -/
def tree (s : Session) : FileTree := s.world.tree

/-- The session after an edit, which leaves it as it is if it fails. -/
def edit (s : Session) (r : Result Manager) : Session :=
  match r with
  | .ok manager => { s with manager }
  | .error _ => s

/-- The session with a new manager of the same categories. -/
def restart (s : Session) (constants : ConstantTable) (preprocessor : Preprocessor) : Session :=
  { s with manager :=
      Manager.ofKinds s.manager.project constants preprocessor s.manager.kinds }

end Session

/-- What can be done in a session. -/
inductive Operation
  /-- A new manager takes the place of the old one. -/
  | start (constants : ConstantTable) (preprocessor : Preprocessor)
  | loadAll (force : Bool)
  | openDocuments
  | set (kind : CategoryKind) (path : List String) (v : Value)
  | setSpeciesInfo (species key : String) (v : Value) (form? : Option String)
  | setStarterField (slot : Nat) (key : String) (v : Value)
  | persistAll
  | save (kind : CategoryKind)
  | regenerate (kind : CategoryKind)
  | regenerateAll (dryRun : Bool)
  | restoreAll

namespace Operation

/-- The session after an operation. -/
def run (s : Session) : Operation → Session
  | start constants preprocessor => s.restart constants preprocessor
  | loadAll force =>
    let (manager, world) := Run.exec (s.manager.loadAll force) s.world
    ⟨manager, world⟩
  | openDocuments =>
    let (manager, world) := Run.exec s.manager.openDocuments s.world
    ⟨manager, world⟩
  | set kind path v => s.edit ((s.manager.set kind path v).map Prod.snd)
  | setSpeciesInfo species key v form? => s.edit (s.manager.setSpeciesInfo species key v form?)
  | setStarterField slot key v => s.edit (s.manager.setStarterField slot key v)
  | persistAll =>
    let ((_, manager), world) := Run.exec s.manager.persistAll s.world
    ⟨manager, world⟩
  | save kind =>
    let ((_, manager), world) := Run.exec (s.manager.save kind) s.world
    ⟨manager, world⟩
  | regenerate kind =>
    let ((_, manager), world) := Run.exec (s.manager.regenerate kind) s.world
    ⟨manager, world⟩
  | regenerateAll dryRun =>
    let ((_, manager), world) := Run.exec (s.manager.regenerateAll dryRun) s.world
    ⟨manager, world⟩
  | restoreAll =>
    let (_, world) := Run.exec s.manager.restoreAll s.world
    ⟨s.manager, world⟩

/-- The session after a run of operations. -/
def runAll (s : Session) (ops : List Operation) : Session := ops.foldl run s

/-- Whether a new manager that an operation puts in the place of the old one has a preprocessor that
keeps to its files. -/
def IsConfined : Operation → Prop
  | start _ preprocessor => preprocessor.IsConfined
  | _ => True

end Operation

/-- The manager of a session is over certain categories, each at its place. -/
structure Session.IsOver (K : List CategoryKind) (s : Session) : Prop where
  /-- The categories are of these kinds, in this order. -/
  kinds : s.manager.kinds = K
  /-- Each of them is at its place. -/
  managed : ∀ c ∈ s.manager.categories, c.IsManaged
  /-- The preprocessor writes to its own files only. -/
  confined : s.manager.preprocessor.IsConfined

variable {K : List CategoryKind} {s : Session}

/-! ## Looking up and replacing categories

The program looks for the first category of a kind, and puts another one in the place of every
category of its kind.  Kinds differ, so both are about the one category of that kind. -/

namespace Manager

variable {c : Category} {cs : List Category} {kind : CategoryKind} {m : Manager}

theorem map_kind_replaceCategory (c : Category) (cs : List Category) :
    (replaceCategory c cs).map Category.kind = cs.map Category.kind := by
  induction cs with
  | nil => rfl
  | cons d rest ih =>
    rw [replaceCategory]
    split
    · next heq => rw [List.map_cons, List.map_cons, heq]
    · rw [List.map_cons, List.map_cons, ih]

theorem mem_of_mem_replaceCategory {d : Category} (hd : d ∈ replaceCategory c cs) :
    d = c ∨ d ∈ cs := by
  induction cs with
  | nil => exact absurd hd List.not_mem_nil
  | cons e rest ih =>
    rw [replaceCategory] at hd
    split at hd
    · rcases List.mem_cons.1 hd with hd | hd
      · exact Or.inl hd
      · exact Or.inr (List.mem_cons_of_mem e hd)
    · rcases List.mem_cons.1 hd with rfl | hd
      · exact Or.inr List.mem_cons_self
      · exact (ih hd).imp_right (List.mem_cons_of_mem e)

/-- The category of a kind is the one that has been put there. -/
theorem eq_of_mem_replaceCategory {d : Category} (hdistinct : (cs.map Category.kind).Nodup)
    (hd : d ∈ replaceCategory c cs) (hkind : d.kind = c.kind) : d = c := by
  induction cs with
  | nil => exact absurd hd List.not_mem_nil
  | cons e rest ih =>
    obtain ⟨hnotMem, hrest⟩ := List.nodup_cons.1 hdistinct
    rw [replaceCategory] at hd
    split at hd
    · next heq =>
      rcases List.mem_cons.1 hd with hd | hd
      · exact hd
      · refine absurd ?_ hnotMem
        rw [heq, ← hkind]
        exact List.mem_map_of_mem hd
    · next hne =>
      rcases List.mem_cons.1 hd with rfl | hd
      · exact absurd hkind hne
      · exact ih hrest hd

theorem loaded?_spec (h : m.loaded? kind = some c) :
    c ∈ m.categories ∧ c.kind = kind ∧ c.trusted = true := by
  have hfound := List.find?_some h
  simp only [Bool.and_eq_true, decide_eq_true_eq] at hfound
  exact ⟨List.mem_of_find?_eq_some h, hfound⟩

theorem find?_kind_spec (h : m.categories.find? (fun c => c.kind = kind) = some c) :
    c ∈ m.categories ∧ c.kind = kind :=
  ⟨List.mem_of_find?_eq_some h, by simpa using List.find?_some h⟩

theorem exec_forAll (m : Manager) (step : Category → Run (Nat × Category)) (w : World) :
    Run.exec (m.forAll step) w =
      (((Run.exec (overCategories step m.categories) w).1.1,
        { m with categories := (Run.exec (overCategories step m.categories) w).1.2 }),
        (Run.exec (overCategories step m.categories) w).2) := rfl

end Manager

/-! ## What operations are made of

What a step of a program does is known from the modules before.  What is new here is that the
manager is kept together with it: the category that has been worked on takes its place again. -/

theorem Session.IsOver.areManaged (h : s.IsOver K) (hK : K.Nodup) :
    AreManaged K s.manager.categories := by
  refine ⟨h.managed, fun c hc => ?_, ?_⟩
  · rw [← h.kinds]
    exact List.mem_map_of_mem hc
  · have hkinds : s.manager.categories.map Category.kind = K := h.kinds
    rw [hkinds]
    exact hK

theorem Session.IsOver.kind_mem (h : s.IsOver K) {c : Category} (hc : c ∈ s.manager.categories) :
    c.kind ∈ K := by
  rw [← h.kinds]
  exact List.mem_map_of_mem hc

theorem Session.IsOver.exists_category (h : s.IsOver K) {k : CategoryKind} (hk : k ∈ K) :
    ∃ c ∈ s.manager.categories, c.kind = k := by
  rw [← h.kinds] at hk
  exact List.mem_map.1 hk

/-- A category is found by its kind. -/
theorem AreManaged.find?_eq {cs : List Category} (h : AreManaged K cs) {c : Category} (hc : c ∈ cs)
    {p : Category → Bool} (hp : p c = true) (honly : ∀ d ∈ cs, p d = true → d.kind = c.kind) :
    cs.find? p = some c := by
  cases hfind : cs.find? p with
  | none => exact absurd hp (List.find?_eq_none.1 hfind c hc)
  | some d =>
    have hd := List.mem_of_find?_eq_some hfind
    rw [h.eq_of_kind_eq hd hc (honly d hd (List.find?_some hfind))]

/-- The category of a kind is loaded if and only if its records may be used. -/
theorem Session.IsOver.loaded?_eq (h : s.IsOver K) (hK : K.Nodup) {c : Category}
    (hc : c ∈ s.manager.categories) :
    s.manager.loaded? c.kind = if c.trusted = true then some c else none := by
  split
  · next htrusted =>
    refine (h.areManaged hK).find?_eq hc (by simp [htrusted]) fun d _ hd => ?_
    simp only [Bool.and_eq_true, decide_eq_true_eq] at hd
    exact hd.1
  · next htrusted =>
    rw [Manager.loaded?, List.find?_eq_none]
    intro d hd hfound
    simp only [Bool.and_eq_true, decide_eq_true_eq] at hfound
    rw [(h.areManaged hK).eq_of_kind_eq hd hc hfound.1] at hfound
    exact htrusted hfound.2

/-- A category may be replaced by one in its place. -/
theorem Session.IsOver.update (h : s.IsOver K) {c : Category} (hc : c.IsManaged) (w : World) :
    Session.IsOver K ⟨s.manager.update c, w⟩ := by
  refine ⟨?_, fun d hd => ?_, h.confined⟩
  · rw [← h.kinds]
    exact Manager.map_kind_replaceCategory c s.manager.categories
  · rcases Manager.mem_of_mem_replaceCategory hd with rfl | hd
    · exact hc
    · exact h.managed d hd

/-- A session goes on over the same categories, by steps on them. -/
structure Session.Continues (K : List CategoryKind) (s s' : Session) : Prop where
  /-- The manager is over the same categories. -/
  isOver : s'.IsOver K
  /-- The project is the same. -/
  project : s'.manager.project = s.manager.project
  /-- The files have been changed by steps on these categories. -/
  works : Works K s.tree s'.tree

theorem Session.IsOver.continues_self (h : s.IsOver K) : s.Continues K s := ⟨h, rfl, .refl _⟩

/-- Work on all categories. -/
theorem Session.IsOver.forAll (h : s.IsOver K) (hK : K.Nodup)
    (hclear : s.tree.Clear (trackedPaths K)) {step : Category → Run (Nat × Category)}
    (hstep : StepActs K step) :
    s.Continues K ⟨(Run.exec (s.manager.forAll step) s.world).1.2,
      (Run.exec (s.manager.forAll step) s.world).2⟩ := by
  obtain ⟨hkinds, hmanaged⟩ := (h.areManaged hK).overCategories hstep hclear
  exact ⟨⟨hkinds.trans h.kinds, hmanaged, h.confined⟩, rfl,
    overCategories_works hstep (h.areManaged hK) hclear⟩

/-- One step on one category. -/
theorem Session.IsOver.act (h : s.IsOver K) {c c' : Category} {w' : World}
    (hmem : c ∈ s.manager.categories) (hclear : s.tree.Clear (trackedPaths K))
    (hsucceeds : c.Succeeds c') (hacts : c.Acts K s.tree w'.tree) :
    s.Continues K ⟨s.manager.update c', w'⟩ := by
  have hc := h.managed c hmem
  exact ⟨h.update (hsucceeds.managed hc) w', rfl,
    .step c hc (h.kind_mem hmem) hclear hacts (.refl _)⟩

/-- Records may be edited. -/
theorem Session.IsOver.withRecords (h : s.IsOver K) {c : Category}
    (hmem : c ∈ s.manager.categories) (records : Record) :
    s.Continues K { s with manager := s.manager.withRecords c records } := by
  have hc : (c.extracted records).IsManaged :=
    ⟨(h.managed c hmem).definition, (h.managed c hmem).path⟩
  exact ⟨h.update hc s.world, rfl, .refl _⟩

/-- An edit that goes through. -/
theorem Session.IsOver.edit (h : s.IsOver K) {r : Result Manager}
    (hok : ∀ m, r = .ok m → s.Continues K { s with manager := m }) :
    s.Continues K (s.edit r) := by
  cases r with
  | error f => exact h.continues_self
  | ok m => exact hok m rfl

theorem Session.IsOver.set (h : s.IsOver K) (kind : CategoryKind) (path : List String)
    (v : Value) : s.Continues K ((Operation.set kind path v).run s) := by
  refine h.edit fun m hm => ?_
  rw [Manager.set] at hm
  cases hloaded : s.manager.loaded? kind with
  | none =>
    rw [hloaded] at hm
    cases hm
  | some c =>
    simp only [hloaded] at hm
    cases hblocked : Manager.blockedAt? c.store.records path with
    | some start =>
      rw [hblocked] at hm
      cases hm
    | none =>
      rw [hblocked] at hm
      rw [← Except.ok.inj hm]
      exact h.withRecords (Manager.loaded?_spec hloaded).1 _

theorem Session.IsOver.setSpeciesInfo (h : s.IsOver K) (species key : String) (v : Value)
    (form? : Option String) :
    s.Continues K ((Operation.setSpeciesInfo species key v form?).run s) := by
  refine h.edit fun m hm => ?_
  rw [Manager.setSpeciesInfo] at hm
  cases hloaded : s.manager.loaded? .species with
  | none =>
    rw [hloaded] at hm
    cases hm
  | some c =>
    simp only [hloaded] at hm
    cases hset : Species.setInfo? c.store.records species form? key v with
    | none =>
      rw [hset] at hm
      cases hm
    | some records =>
      rw [hset] at hm
      rw [← Except.ok.inj hm]
      exact h.withRecords (Manager.loaded?_spec hloaded).1 _

theorem Session.IsOver.setStarterField (h : s.IsOver K) (slot : Nat) (key : String) (v : Value) :
    s.Continues K ((Operation.setStarterField slot key v).run s) := by
  refine h.edit fun m hm => ?_
  rw [Manager.setStarterField] at hm
  split at hm
  · cases hm
  · cases hloaded : s.manager.loaded? .starters with
    | none =>
      rw [hloaded] at hm
      cases hm
    | some c =>
      simp only [hloaded] at hm
      cases hset : c.store.records.modifyRecord? (Starters.slotKey slot)
          fun r => r.insert key v with
      | none =>
        rw [hset] at hm
        cases hm
      | some records =>
        rw [hset] at hm
        rw [← Except.ok.inj hm]
        exact h.withRecords (Manager.loaded?_spec hloaded).1 _

theorem Session.IsOver.restart (h : s.IsOver K) (constants : ConstantTable)
    {preprocessor : Preprocessor} (hconfined : preprocessor.IsConfined) :
    s.Continues K (s.restart constants preprocessor) := by
  refine ⟨⟨?_, fun c hc => ?_, hconfined⟩, rfl, .refl _⟩
  · rw [← h.kinds]
    show (s.manager.kinds.map Category.ofKind).map Category.kind = s.manager.kinds
    rw [List.map_map]
    exact (List.map_congr_left fun k _ => CategoryKind.kind_ofKind k).trans (List.map_id _)
  · obtain ⟨k, -, rfl⟩ := List.mem_map.1 hc
    have hkind : (Category.ofKind k).kind = k := CategoryKind.kind_ofKind k
    refine ⟨?_, ?_⟩
    · rw [hkind]
      rfl
    · rw [hkind]
      rfl

theorem Manager.exec_save (m : Manager) (kind : CategoryKind) (w : World) :
    Run.exec (m.save kind) w = match m.loaded? kind with
      | none => ((.error (notLoaded kind), m), w)
      | some c => (((Run.exec (c.persist m.project) w).1.1,
          m.update (Run.exec (c.persist m.project) w).1.2),
          (Run.exec (c.persist m.project) w).2) := by
  rw [save]
  cases m.loaded? kind <;> rfl

/-- What saving a document does. -/
theorem Session.IsOver.run_save (h : s.IsOver K) (hclear : s.tree.Clear (trackedPaths K))
    (kind : CategoryKind) :
    s.manager.loaded? kind = none ∧ (Operation.save kind).run s = s ∨
      ∃ c w', s.manager.loaded? kind = some c ∧ c.Saves K s.tree w'.tree ∧
        (Operation.save kind).run s = ⟨s.manager.update c.saved, w'⟩ := by
  rw [Operation.run, Manager.exec_save]
  cases hloaded : s.manager.loaded? kind with
  | none => exact Or.inl ⟨rfl, rfl⟩
  | some c =>
    obtain ⟨hmem, -, -⟩ := Manager.loaded?_spec hloaded
    obtain ⟨w', hpersist, hsaves⟩ := exists_persist s.manager.project (h.managed c hmem)
      (h.kind_mem hmem) hclear
    exact Or.inr ⟨c, w', rfl, hsaves, by simp only [hpersist]⟩

/-- A document is saved. -/
theorem Session.IsOver.save (h : s.IsOver K) (hclear : s.tree.Clear (trackedPaths K))
    (kind : CategoryKind) : s.Continues K ((Operation.save kind).run s) := by
  rcases h.run_save hclear kind with ⟨-, hrun⟩ | ⟨c, w', hloaded, hsaves, hrun⟩
  · rw [hrun]
    exact h.continues_self
  · rw [hrun]
    exact h.act (Manager.loaded?_spec hloaded).1 hclear c.saved_succeeds (.saves hsaves)

theorem Manager.exec_regenerate (m : Manager) (kind : CategoryKind) (w : World) :
    Run.exec (m.regenerate kind) w =
      match m.categories.find? fun c => c.kind = kind with
      | none => ((.error (.ofText s!"category '{kind.id}' is not enabled"), m), w)
      | some c =>
        if c.trusted then (((Run.exec (c.regenerate m.workshop) w).1.1,
          m.update (Run.exec (c.regenerate m.workshop) w).1.2),
          (Run.exec (c.regenerate m.workshop) w).2)
        else ((.error (.ofText s!"category '{kind.id}' has no trusted records"), m), w) := by
  rw [regenerate]
  cases m.categories.find? fun c => c.kind = kind with
  | none => rfl
  | some c =>
    show Run.exec (if !c.trusted then _ else _) w = if c.trusted then _ else _
    cases c.trusted <;> rfl

/-- What regenerating a category does. -/
theorem Session.IsOver.run_regenerate (h : s.IsOver K) (hK : K.Nodup)
    (hclear : s.tree.Clear (trackedPaths K)) (kind : CategoryKind) :
    s.manager.loaded? kind = none ∧ (Operation.regenerate kind).run s = s ∨
      ∃ c r w', s.manager.loaded? kind = some c ∧
        c.Regenerates K s.manager.workshop r s.tree w'.tree ∧
        (Operation.regenerate kind).run s = ⟨s.manager.update c.saved, w'⟩ := by
  rw [Operation.run, Manager.exec_regenerate]
  cases hfind : s.manager.categories.find? fun c => c.kind = kind with
  | none =>
    refine Or.inl ⟨?_, rfl⟩
    rw [Manager.loaded?, List.find?_eq_none]
    intro d hd hfound
    simp only [Bool.and_eq_true, decide_eq_true_eq] at hfound
    exact List.find?_eq_none.1 hfind d hd (by simpa using hfound.1)
  | some c =>
    obtain ⟨hmem, rfl⟩ := Manager.find?_kind_spec hfind
    rw [h.loaded?_eq hK hmem]
    cases htrusted : c.trusted with
    | false => exact Or.inl ⟨rfl, by simp [htrusted]⟩
    | true =>
      obtain ⟨r, w', hexec, hregenerates, -⟩ := exists_regenerate (v := s.manager.workshop) rfl
        (h.managed c hmem) (h.kind_mem hmem) hclear
      exact Or.inr ⟨c, r, w', rfl, hregenerates, by simp [htrusted, hexec]⟩

/-- The files of a category are written. -/
theorem Session.IsOver.regenerate (h : s.IsOver K) (hK : K.Nodup)
    (hclear : s.tree.Clear (trackedPaths K)) (kind : CategoryKind) :
    s.Continues K ((Operation.regenerate kind).run s) := by
  rcases h.run_regenerate hK hclear kind with ⟨-, hrun⟩ | ⟨c, r, w', hloaded, hregenerates, hrun⟩
  · rw [hrun]
    exact h.continues_self
  · rw [hrun]
    exact h.act (Manager.loaded?_spec hloaded).1 hclear c.saved_succeeds
      (.regenerates _ r hregenerates)

/-- **An operation is made of steps on categories.** -/
theorem Operation.run_spec (hs : s.IsOver K) (hK : K.Nodup)
    (hclear : s.tree.Clear (trackedPaths K)) (op : Operation) (hop : op.IsConfined) :
    s.Continues K (op.run s) := by
  cases op with
  | start constants preprocessor => exact hs.restart constants hop
  | loadAll force => exact hs.forAll hK hclear (loadCategory_acts hs.confined force)
  | openDocuments => exact hs.forAll hK hclear (openCategory_acts s.manager.project)
  | set kind path v => exact hs.set kind path v
  | setSpeciesInfo species key v form => exact hs.setSpeciesInfo species key v form
  | setStarterField slot key v => exact hs.setStarterField slot key v
  | persistAll => exact hs.forAll hK hclear (persistCategory_acts s.manager.project)
  | save kind => exact hs.save hclear kind
  | regenerate kind => exact hs.regenerate hK hclear kind
  | regenerateAll dryRun => exact hs.forAll hK hclear (regenerateIfDue_acts rfl dryRun)
  | restoreAll =>
    have hall := hs.forAll hK hclear (restoreCategory_acts s.manager.project)
    exact ⟨⟨hs.kinds, hs.managed, hs.confined⟩, rfl, hall.works⟩

/-- **A run of operations goes on over the same categories**, by steps on them. -/
theorem Operation.runAll_spec (hs : s.IsOver K) (hK : K.Nodup)
    (hclear : s.tree.Clear (trackedPaths K)) (ops : List Operation)
    (hops : ∀ op ∈ ops, op.IsConfined) : s.Continues K (Operation.runAll s ops) := by
  induction ops generalizing s with
  | nil => exact hs.continues_self
  | cons op ops ih =>
    have hfirst := Operation.run_spec hs hK hclear op (hops op List.mem_cons_self)
    have hrest := ih hfirst.isOver (hfirst.works.clear hclear)
      fun o ho => hops o (List.mem_cons_of_mem op ho)
    exact ⟨hrest.isOver, hrest.project.trans hfirst.project, hfirst.works.trans hrest.works⟩

/-! ## A session over starters -/

namespace Starters

/-- A file with one starter. -/
def sampleArray : String :=
  "static const u16 sStarterMon[STARTER_MON_COUNT] =\n\x7b\n    SPECIES_TREECKO,\n\x7d;\n"

/-- A function in which the call that gives the starter has another name. -/
def sampleGiving : String :=
  "static void CB2_GiveStarter(void)\n\x7b\n    u16 starterMon;\n    GiveMon(starterMon);\n\x7d\n"

/-- A function with the call that gives the starter. -/
def sampleCalling : String :=
  "static void CB2_GiveStarter(void)\n\x7b\n    ScriptGiveMon(starterMon);\n\x7d\n"

/-- Records with one starter of some level. -/
def sampleRecords (level : Int) : Record :=
  ⟨[("0", .record ⟨[("species", .str "SPECIES_TREECKO"), ("level", .int level),
    ("item", .str "ITEM_NONE"), ("custom_move", .str "MOVE_NONE"), ("ability_num", .int (-1))]⟩)]⟩

/-- The sources of starters, with some documents beside them. -/
def sampleTree (documents : List (Path × Node)) (clock : Nat) : FileTree where
  nodes := [(["source"], .directory 0), (["source", "src"], .directory 0),
    (["source", "src", "starter_choose.c"], .file ⟨.text sampleArray.toList, 0⟩),
    (["source", "src", "battle_setup.c"], .file ⟨.text sampleGiving.toList, 0⟩)] ++ documents
  clock

/-- A preprocessor that does nothing. -/
def samplePreprocessor : Preprocessor := ⟨fixedRunner ⟨true, some 0, []⟩, {}⟩

/-- A session over starters. -/
def sampleSession (documents : List (Path × Node)) (clock : Nat) : Session where
  manager := Manager.ofKinds ⟨"/project"⟩ [] samplePreprocessor [.starters]
  world := ⟨sampleTree documents clock, []⟩

theorem samplePreprocessor_isConfined : samplePreprocessor.IsConfined :=
  ⟨fun _ _ _ _ _ _ _ => rfl, fun _ _ _ _ _ => Nat.le_refl _⟩

theorem sampleSession_isOver (documents : List (Path × Node)) (clock : Nat) :
    (sampleSession documents clock).IsOver [.starters] := by
  refine ⟨rfl, fun c hc => ?_, samplePreprocessor_isConfined⟩
  rw [List.mem_singleton.1 hc]
  exact ⟨rfl, rfl⟩

end Starters

end TableSync
