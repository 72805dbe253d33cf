import TableSync.Manager.Category

/-!
# All categories of a project

A `Manager` works through the enabled categories in order.  Each step is recorded with its outcome;
a step that fails is told, and the work goes on with the next category.

* `Manager.loadAll`, `Manager.openDocuments`, `Manager.persistAll`, `Manager.regenerateAll` and
  `Manager.restoreAll` go over all categories.
* `Manager.regenerate`, `Manager.save` and `Manager.set` work on one.
* The other functions look up records.
-/

set_option autoImplicit false

namespace TableSync

/-- The enabled categories of a project, with what the work on them draws on. -/
structure Manager where
  /-- The project that the files belong to. -/
  project : Project
  /-- The values of names that conditionals compare. -/
  constants : ConstantTable
  /-- How sources are preprocessed. -/
  preprocessor : Preprocessor
  /-- The enabled categories, in the order of their work. -/
  categories : List Category

/-- What is due for a category. -/
structure CategoryStatus where
  /-- Which category it is. -/
  kind : CategoryKind
  /-- The number of its records. -/
  records : Nat
  /-- Whether its document has to be saved. -/
  dirty : Bool
  /-- Whether its sources have to be read. -/
  extractionDue : Bool
  /-- Whether its files have to be written. -/
  regenerationDue : Bool
  deriving DecidableEq

/-- Records the outcome of a step. -/
def recordOutcome (phase : Phase) (id : String) : Except Failure Outcome → Run Unit
  | .ok (.done detail?) => tell (.step ⟨phase, id, .done, detail?⟩)
  | .ok (.unchanged reason) => do
    say .debug s!"{phase.verb} {id}: {reason}"
    tell (.step ⟨phase, id, .unchanged, some reason⟩)
  | .ok (.skipped reason) => do
    say .warn s!"{phase.verb} {id}: {reason}"
    tell (.step ⟨phase, id, .skipped, some reason⟩)
  | .ok .dryRun => tell (.step ⟨phase, id, .dryRun, none⟩)
  | .error f => do
    say .error s!"{phase.verb} {id}: {f.message}"
    tell (.step ⟨phase, id, .failed, some f.message⟩)

/-- Works on categories in turn; each step gives a number and the category after it.  The numbers
are added up. -/
def overCategories (step : Category → Run (Nat × Category)) :
    List Category → Run (Nat × List Category)
  | [] => return (0, [])
  | c :: rest => do
    let (n, c) ← step c
    let (total, rest) ← overCategories step rest
    return (n + total, c :: rest)

namespace Manager

/-- A manager of some categories, before anything has been read. -/
def ofKinds (project : Project) (constants : ConstantTable) (preprocessor : Preprocessor)
    (kinds : List CategoryKind) : Manager where
  project
  constants
  preprocessor
  categories := kinds.map Category.ofKind

/-- The enabled categories. -/
def kinds (m : Manager) : List CategoryKind := m.categories.map Category.kind

/-- What the work on a category draws on. -/
def workshop (m : Manager) : Workshop where
  project := m.project
  preprocessor := m.preprocessor
  constants := m.constants
  write := writeAnnounced m.project

/-- Works on all categories. -/
def forAll (m : Manager) (step : Category → Run (Nat × Category)) : Run (Nat × Manager) := do
  let (total, categories) ← overCategories step m.categories
  return (total, { m with categories })

/-! ## Work on all categories -/

/-- Loads one category. -/
def loadCategory (w : Workshop) (force : Bool) (c : Category) : Run (Nat × Category) := do
  say .stage s!"{Phase.extract.verb} {c.id}"
  let (outcome, c) ← c.load w force
  recordOutcome .extract c.id outcome
  return (0, c)

/-- Loads every category: extracts where that is due, or everywhere if `force` is set. -/
def loadAll (m : Manager) (force : Bool) : Run Manager := do
  let (_, m') ← m.forAll (loadCategory m.workshop force)
  return m'

/-- Reads the document of one category without extracting. -/
def openCategory (project : Project) (c : Category) : Run (Nat × Category) := do
  let (outcome, c) ← c.openDocument project
  recordOutcome .load c.id outcome
  return (0, c)

/-- Reads every document without extracting. -/
def openDocuments (m : Manager) : Run Manager := do
  let (_, m') ← m.forAll (openCategory m.project)
  return m'

/-- Saves the document of one category if it is dirty, and says whether it was. -/
def persistCategory (project : Project) (c : Category) : Run (Nat × Category) := do
  if !c.trusted then return (0, c)
  let (saved, c) ← c.persist project
  match saved with
  | .ok true =>
    recordOutcome .persist c.id (.ok (.done none))
    return (1, c)
  | .ok false =>
    recordOutcome .persist c.id (.ok (.unchanged "no edits"))
    return (0, c)
  | .error f =>
    recordOutcome .persist c.id (.error f)
    return (0, c)

/-- Saves every dirty document, and says how many were written. -/
def persistAll (m : Manager) : Run (Nat × Manager) :=
  m.forAll (persistCategory m.project)

/-- Writes the files of one category, if that is due. -/
def regenerateIfDue (w : Workshop) (dryRun : Bool) (c : Category) : Run (Nat × Category) := do
  if !c.trusted then
    recordOutcome .build c.id (.ok (.skipped "records not loaded"))
    return (0, c)
  if !(← look c.regenerationDue) then
    recordOutcome .build c.id (.ok (.unchanged "up to date"))
    return (0, c)
  if dryRun then
    say .dryRun s!"would regenerate {c.id}"
    recordOutcome .build c.id (.ok .dryRun)
    return (1, c)
  say .stage s!"{Phase.build.verb} {c.id}"
  let (outcome, c) ← c.regenerate w
  recordOutcome .build c.id (outcome.map fun () => .done none)
  return (1, c)

/-- Writes the files of every category for which that is due, and says for how many.  In a dry run
nothing is written. -/
def regenerateAll (m : Manager) (dryRun : Bool) : Run (Nat × Manager) :=
  m.forAll (regenerateIfDue m.workshop dryRun)

/-- Puts the bound files of one category back, and says how many files were touched. -/
def restoreCategory (project : Project) (c : Category) : Run (Nat × Category) := do
  match ← attempt (restoreFiles project c.definition.bindings c.definition.generated) with
  | .ok 0 =>
    recordOutcome .restore c.id (.ok (.unchanged "nothing to restore"))
    return (0, c)
  | .ok n =>
    recordOutcome .restore c.id (.ok (.done (some s!"{n} files")))
    return (n, c)
  | .error f =>
    recordOutcome .restore c.id (.error f)
    return (0, c)

/-- Puts every bound file back and deletes every generated file; says how many files that were. -/
def restoreAll (m : Manager) : Run Nat := do
  let (n, _) ← m.forAll (restoreCategory m.project)
  return n

/-- What is due for each category. -/
def status (m : Manager) (tree : FileTree) : List CategoryStatus :=
  m.categories.map fun c =>
    ⟨c.kind, c.store.records.size, c.store.isDirty tree, c.extractionDue tree,
      c.regenerationDue tree⟩

/-! ## Work on one category -/

/-- The category of a kind, if its records may be used. -/
def loaded? (m : Manager) (kind : CategoryKind) : Option Category :=
  m.categories.find? fun c => c.kind = kind && c.trusted

/-- The failure of a category whose records may not be used. -/
def notLoaded (kind : CategoryKind) : Failure := .ofText s!"category '{kind.id}' is not loaded"

/-- The categories with one in the place of the first one of its kind. -/
def replaceCategory (c : Category) : List Category → List Category
  | [] => []
  | d :: rest => if d.kind = c.kind then c :: rest else d :: replaceCategory c rest

/-- The manager with a category in the place of the first one of its kind. -/
def update (m : Manager) (c : Category) : Manager :=
  { m with categories := replaceCategory c m.categories }

/-- Writes the files of a category whether or not that is due. -/
def regenerate (m : Manager) (kind : CategoryKind) : Run (Except Failure Unit × Manager) := do
  match m.categories.find? fun c => c.kind = kind with
  | none => return (.error (.ofText s!"category '{kind.id}' is not enabled"), m)
  | some c =>
    if !c.trusted then
      return (.error (.ofText s!"category '{kind.id}' has no trusted records"), m)
    let (outcome, c) ← c.regenerate m.workshop
    return (outcome, m.update c)

/-- Saves a document now, and says whether it was dirty. -/
def save (m : Manager) (kind : CategoryKind) : Run (Except Failure Bool × Manager) := do
  match m.loaded? kind with
  | none => return (.error (notLoaded kind), m)
  | some c =>
    let (saved, c) ← c.persist m.project
    return (saved, m.update c)

/-- The manager with other records in a category that is loaded. -/
def withRecords (m : Manager) (c : Category) (records : Record) : Manager :=
  m.update { c with store := { c.store with records } }

/-- The first start of a path, shorter than the path, that leads to a value other than a record. -/
def blockedAt? (records : Record) (path : List String) : Option (List String) :=
  (Path.starts path.dropLast).find? fun start =>
    match records.getPath? start with
    | some (.record _) => false
    | some _ => true
    | none => false

/-- Sets the value at the end of a path; gives the value before.  A path does not lead through a
value that is not a record. -/
def set (m : Manager) (kind : CategoryKind) (path : List String) (v : Value) :
    Result (Option Value × Manager) :=
  match m.loaded? kind with
  | none => .error (notLoaded kind)
  | some c =>
    match blockedAt? c.store.records path with
    | some start =>
      let shown := ".".intercalate start
      .error (.ofText s!"'{shown}' is not a record")
    | none =>
      let (before?, records) := c.store.records.exchangePath path v
      .ok (before?, m.withRecords c records)

/-- Sets a field of a species or form. -/
def setSpeciesInfo (m : Manager) (species key : String) (v : Value) (form? : Option String) :
    Result Manager :=
  match m.loaded? .species with
  | none => .error (notLoaded .species)
  | some c =>
    match Species.setInfo? c.store.records species form? key v with
    | none => .error (.ofText s!"unknown species {species}")
    | some records => .ok (m.withRecords c records)

/-- Sets a field of a starter. -/
def setStarterField (m : Manager) (slot : Nat) (key : String) (v : Value) : Result Manager :=
  if !Starters.fieldNames.contains key then .error (.ofText s!"unknown starter field '{key}'")
  else
    match m.loaded? .starters with
    | none => .error (notLoaded .starters)
    | some c =>
      match c.store.records.modifyRecord? (Starters.slotKey slot) fun r => r.insert key v with
      | none => .error (.ofText s!"no starter in slot {slot}")
      | some records => .ok (m.withRecords c records)

/-! ## Looking up records -/

/-- The records of a category that is loaded. -/
def records? (m : Manager) (kind : CategoryKind) : Option Record :=
  (m.loaded? kind).map fun c => c.store.records

/-- Whether a category that is loaded has edits that are not saved. -/
def isDirty (m : Manager) (tree : FileTree) (kind : CategoryKind) : Bool :=
  (m.loaded? kind).any fun c => c.store.isDirty tree

/-- The value at the end of a path. -/
def get? (m : Manager) (kind : CategoryKind) (path : List String) : Option Value :=
  (m.records? kind).bind fun records => records.getPath? path

/-- A field of a species or form, or its default. -/
def speciesInfo (m : Manager) (species key : String) (form? : Option String)
    (index? : Option Nat) : Value :=
  match m.records? .species with
  | some records => Species.infoValue records species key form? index? m.constants
  | none => Species.defaultValue key

/-- The species with a number in the national dex. -/
def speciesByDexConstant? (m : Manager) (dexConstant : String) : Option String :=
  (m.records? .species).bind fun records => Species.byDexConstant? records dexConstant

/-- The ability in a slot of a species or form. -/
def speciesAbility (m : Manager) (species : String) (slot : Nat) (form? : Option String) :
    String :=
  match m.records? .species with
  | some records => Species.ability records (m.records? .abilities) species slot form?
  | none => "ABILITY_NONE"

/-- The ability with a numeric id. -/
def abilityById? (m : Manager) (id : Int) : Option String :=
  (m.records? .abilities).bind fun records => Abilities.byId? records id

/-- An item. -/
def item? (m : Manager) (id : String) : Option Record :=
  (m.records? .items).bind fun records => records.record? id

/-- A constant of a group, or a single value, with its conditionals decided. -/
def constant? (m : Manager) (group? : Option String) (name : String) : Option Value := do
  let records ← m.records? .constants
  let v ← match group? with
    | some group => records.getPath? [group, name]
    | none => records.get? name
  return v.resolve m.constants

/-- The starter in a slot. -/
def starter? (m : Manager) (slot : Nat) : Option Record :=
  (m.records? .starters).bind fun records => records.record? (Starters.slotKey slot)

/-- The text that describes a move. -/
def moveDescription? (m : Manager) (move : String) : Option String :=
  (m.records? .moves).bind fun records => Moves.description? records move

/-- A dex, by its key. -/
def dex (m : Manager) (key : String) : List String :=
  ((m.records? .pokedex).map fun records => Pokedex.dex records key).getD []

end Manager

end TableSync
