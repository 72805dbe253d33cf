import TableSync.Files.Source
import TableSync.Proofs.Files.Tree

/-!
# Work on files, step by step

All work on files is a program over a world, which has a tree of files and the events that have been
told.  Work that can fail gives a result or a failure, and the world after it either way; so what it
does is said of the world in which it ends, and a program is gone through step by step.

* `Run.exec` and `Action.exec` are what work gives in a world, with the world after it.
  `exec_bind_of_ok` and `exec_bind_of_error` lead from one step to the next, and the simple steps
  are simp lemmas.
* `Run.Yields` says that what work gives has a property, whatever world it starts in.
* `Told` and `newSteps` are about what has been told: the events of a world are a log that only
  grows, and some of them are steps.
* `Effect` says that work has changed files at certain paths, and has told of no step.
* `exists_copyFile`, `exists_removeExisting`, `exists_stampFile` and `exists_writeSource` say what
  the single pieces of work do where nothing stands in their way.
* `Within` says of work that may fail anywhere that it changes files at certain paths only.
-/

set_option autoImplicit false

namespace TableSync

variable {α β : Type}

/-! ## Outcomes -/

/-- What work that cannot fail gives, and the world after it. -/
def Run.exec (r : Run α) (w : World) : α × World := StateT.run r w

/-- What work that can fail gives, and the world after it. -/
def Action.exec (a : Action α) (w : World) : Except Failure α × World := Run.exec a.run w

namespace Run

variable {w w' : World} {r : Run α} {a : α}

@[simp]
theorem exec_pure (a : α) (w : World) : exec (pure a) w = (a, w) := rfl

theorem exec_bind (r : Run α) (f : α → Run β) (w : World) :
    exec (r >>= f) w = exec (f (exec r w).1) (exec r w).2 := rfl

/-- Work goes on from the world in which its first part ends. -/
theorem exec_bind_of_eq (h : exec r w = (a, w')) (f : α → Run β) :
    exec (r >>= f) w = exec (f a) w' := by
  rw [exec_bind, h]

/-- Whatever world it starts in, work gives something with a property. -/
def Yields (r : Run α) (P : α → Prop) : Prop := ∀ w, P (exec r w).1

theorem Yields.pure {P : α → Prop} {a : α} (h : P a) : Yields (Pure.pure a) P := fun _ => h

theorem Yields.bind {f : α → Run β} {P : β → Prop}
    (h : ∀ a w w', exec r w = (a, w') → Yields (f a) P) : Yields (r >>= f) P :=
  fun w => h _ w _ rfl _

@[simp]
theorem exec_look (f : FileTree → α) (w : World) : exec (look f) w = (f w.tree, w) := rfl

@[simp]
theorem exec_tell (e : Event) (w : World) :
    exec (tell e) w = ((), { w with events := w.events ++ [e] }) := rfl

@[simp]
theorem exec_attempt (a : Action α) (w : World) : exec (attempt a) w = Action.exec a w := rfl

end Run

namespace Action

variable {w w' : World} {a : Action α} {x : α} {e : Failure}

@[simp]
theorem exec_pure (x : α) (w : World) : exec (pure x) w = (.ok x, w) := rfl

@[simp]
theorem exec_throw (e : Failure) (w : World) : exec (throw e : Action α) w = (.error e, w) := rfl

theorem exec_bind (a : Action α) (f : α → Action β) (w : World) :
    exec (a >>= f) w = Run.exec (a.run >>= ExceptT.bindCont f) w := rfl

/-- Work goes on from the world in which its first part ends. -/
theorem exec_bind_of_ok (h : exec a w = (.ok x, w')) (f : α → Action β) :
    exec (a >>= f) w = exec (f x) w' := by
  rw [exec_bind, Run.exec_bind_of_eq h]
  rfl

/-- Work ends where its first part fails. -/
theorem exec_bind_of_error (h : exec a w = (.error e, w')) (f : α → Action β) :
    exec (a >>= f) w = (.error e, w') := by
  rw [exec_bind, Run.exec_bind_of_eq h]
  rfl

/-- Work that has gone through has gone through in both of its parts. -/
theorem exists_of_exec_bind_ok {f : α → Action β} {y : β}
    (h : exec (a >>= f) w = (.ok y, w')) :
    ∃ x w₁, exec a w = (.ok x, w₁) ∧ exec (f x) w₁ = (.ok y, w') := by
  cases hexec : exec a w with
  | mk r w₁ =>
    cases r with
    | error e =>
      rw [exec_bind_of_error hexec] at h
      cases h
    | ok x =>
      rw [exec_bind_of_ok hexec] at h
      exact ⟨x, w₁, rfl, h⟩

@[simp]
theorem exec_look (f : FileTree → α) (w : World) :
    exec (look f) w = (.ok (f w.tree), w) := rfl

theorem exec_look_bind (f : FileTree → α) (g : α → Action β) (w : World) :
    exec (look f >>= g) w = exec (g (f w.tree)) w := rfl

theorem exec_get_bind (g : World → Action β) (w : World) : exec (get >>= g) w = exec (g w) w := rfl

@[simp]
theorem exec_tell (e : Event) (w : World) :
    exec (tell e) w = (.ok (), { w with events := w.events ++ [e] }) := rfl

@[simp]
theorem exec_ofResult (r : Result α) (w : World) : exec (ofResult r) w = (r, w) := by
  cases r <;> rfl

@[simp]
theorem exec_attempt (a : Action α) (w : World) :
    exec (attempt a) w = (.ok (exec a w).1, (exec a w).2) := rfl

theorem exec_attempt_bind (a : Action α) (f : Except Failure α → Action β) (w : World) :
    exec (attempt a >>= f) w = exec (f (exec a w).1) (exec a w).2 := rfl

@[simp]
theorem exec_inContext (context : String) (a : Action α) (w : World) :
    exec (a.inContext context) w =
      ((exec a w).1.mapError (Failure.inContext context), (exec a w).2) := rfl

theorem exec_inContext_of_ok (h : exec a w = (.ok x, w')) (context : String) :
    exec (a.inContext context) w = (.ok x, w') := by
  rw [exec_inContext, h]
  rfl

theorem exec_inContext_of_error (h : exec a w = (.error e, w')) (context : String) :
    exec (a.inContext context) w = (.error (e.inContext context), w') := by
  rw [exec_inContext, h]
  rfl

/-- A change that the tree accepts is made. -/
theorem exec_change_of_ok {f : FileTree → Except OsError FileTree} {cause : OsError → Cause}
    {t : FileTree} (h : f w.tree = .ok t) :
    exec (change f cause) w = (.ok (), { w with tree := t }) := by
  rw [change, exec_get_bind, h]
  rfl

/-- A change that the tree refuses fails, and changes nothing. -/
theorem exec_change_of_error {f : FileTree → Except OsError FileTree} {cause : OsError → Cause}
    {e : OsError} (h : f w.tree = .error e) :
    exec (change f cause) w = (.error ⟨cause e, []⟩, w) := by
  rw [change, exec_get_bind, h]
  rfl

end Action

/-! ## Effects

What a piece of work does to the files is said by the paths that it may touch.  Of two pieces after
each other these are the paths of both, and whatever follows from paths that are not touched is said
of the whole at once. -/

/-- Some steps have been told from one world to another. -/
def Told (steps : List Step) (w w' : World) : Prop :=
  ∃ es, w'.events = w.events ++ es ∧ stepsOf es = steps

theorem Told.refl (w : World) : Told [] w w := ⟨[], (List.append_nil _).symm, rfl⟩

theorem Told.trans {steps steps' : List Step} {w w' w'' : World} (h : Told steps w w')
    (h' : Told steps' w' w'') : Told (steps ++ steps') w w'' := by
  obtain ⟨es, hes, hsteps⟩ := h
  obtain ⟨es', hes', hsteps'⟩ := h'
  refine ⟨es ++ es', ?_, ?_⟩
  · rw [hes', hes, List.append_assoc]
  · rw [← hsteps, ← hsteps']
    exact List.filterMap_append

/-- The steps that have been told between two worlds, of which the second is the later one. -/
def newSteps (w w' : World) : List Step := stepsOf (w'.events.drop w.events.length)

theorem Told.newSteps_eq {steps : List Step} {w w' : World} (h : Told steps w w') :
    newSteps w w' = steps := by
  obtain ⟨es, hes, hsteps⟩ := h
  rw [newSteps, hes, List.drop_left, hsteps]

/-- Files at certain paths have been changed, and no step has been told. -/
structure Effect (ps : List Path) (touched : Path → Prop) (w w' : World) : Prop where
  /-- Files have been changed at certain paths only. -/
  changes : w.tree.Changes ps touched w'.tree
  /-- No step has been told. -/
  told : Told [] w w'

namespace Effect

variable {ps : List Path} {touched other : Path → Prop} {w w' w'' : World}

theorem refl (ps : List Path) (touched : Path → Prop) (w : World) : Effect ps touched w w :=
  ⟨.refl ps touched w.tree, .refl w⟩

theorem trans (h : Effect ps touched w w') (h' : Effect ps touched w' w'') :
    Effect ps touched w w'' :=
  ⟨h.changes.trans h'.changes, h.told.trans h'.told⟩

theorem mono (h : Effect ps touched w w') (hsub : ∀ q, touched q → other q) :
    Effect ps other w w' :=
  ⟨h.changes.mono hsub, h.told⟩

theorem clear (h : Effect ps touched w w') (hclear : w.tree.Clear ps) : w'.tree.Clear ps :=
  h.changes.clear hclear

/-- A change of the tree tells nothing. -/
theorem of_tree {t : FileTree} (h : w.tree.Changes ps touched t) :
    Effect ps touched w { w with tree := t } :=
  ⟨h, [], (List.append_nil _).symm, rfl⟩

/-- A message is no step. -/
theorem say (ps : List Path) (touched : Path → Prop) (w : World) (level : Level) (text : String) :
    Effect ps touched w { w with events := w.events ++ [.message level text] } :=
  ⟨.refl ps touched w.tree, [.message level text], rfl, rfl⟩

end Effect

/-! ## Single pieces of work -/

section

variable {ps : List Path} {p : Path} {w : World} (project : Project)

/-- The directory of a file is made. -/
theorem exists_ensureParent (hps : Apart ps) (hp : p ∈ ps) (hclear : w.tree.Clear ps) :
    ∃ w', Action.exec (ensureParent project p) w = (.ok (), w') ∧
      Effect ps (fun _ => False) w w' ∧ w'.tree.isDirectory p.dropLast = true := by
  obtain ⟨t, ht, hopens, hdir⟩ := FileTree.exists_makeDirs (hclear p hp).way
  refine ⟨{ w with tree := t }, ?_, .of_tree (hopens.changes hps hp), hdir⟩
  exact Action.exec_inContext_of_ok (Action.exec_change_of_ok ht) _

/-- A file is written, once its directory is there. -/
theorem exists_write (hps : Apart ps) (hp : p ∈ ps) (hclear : w.tree.Clear ps)
    (hdir : w.tree.isDirectory p.dropLast = true) (c : Content) :
    ∃ t, w.tree.write p c = .ok t ∧ Effect ps (· = p) w { w with tree := t } ∧
      ∃ time, w.tree.clock ≤ time ∧ time < t.clock ∧ t.file? p = some ⟨c, time⟩ := by
  obtain ⟨hchanges, hfile⟩ := FileTree.putContent_spec hps hp hclear c
  exact ⟨_, (hclear p hp).write_eq hdir c, .of_tree hchanges, w.tree.clock, Nat.le_refl _,
    Nat.lt_succ_self _, hfile⟩

/-- A file that is there is copied. -/
theorem exists_copyFile {source : Path} {f : File} (hps : Apart ps) (hp : p ∈ ps)
    (hclear : w.tree.Clear ps) (hsource : w.tree.file? source = some f) :
    ∃ w', Action.exec (copyFile project source p) w = (.ok (), w') ∧ Effect ps (· = p) w w' ∧
      ∃ time, w.tree.clock ≤ time ∧ time < w'.tree.clock ∧
        w'.tree.file? p = some ⟨f.content, time⟩ := by
  obtain ⟨w₁, hparent, heffect, hdir⟩ := exists_ensureParent project hps hp hclear
  obtain ⟨t, ht, hwrite, time, hle, hlt, hfile⟩ :=
    exists_write hps hp (heffect.clear hclear) hdir f.content
  have hcopy : w₁.tree.copy source p = .ok t := by
    have hsame := heffect.changes.frame source id
    rw [FileTree.copy, FileTree.find_of_file? (hsame.trans hsource)]
    exact ht
  refine ⟨{ w₁ with tree := t }, ?_, (heffect.mono fun _ h => h.elim).trans hwrite, time,
    Nat.le_trans heffect.changes.clock hle, hlt, hfile⟩
  rw [copyFile, Action.exec_bind_of_ok hparent]
  exact Action.exec_inContext_of_ok (Action.exec_change_of_ok hcopy) _

/-- A file is gone after its removal, whether or not it was there. -/
theorem exists_removeExisting (hps : Apart ps) (hp : p ∈ ps) (hclear : w.tree.Clear ps) :
    ∃ w', Action.exec (removeExisting project p) w = (.ok (), w') ∧ Effect ps (· = p) w w' ∧
      w'.tree.file? p = none := by
  have hcontains := (hclear p hp).contains_eq
  cases hfile : w.tree.file? p with
  | none =>
    rw [hfile] at hcontains
    refine ⟨w, ?_, .refl ps _ w, hfile⟩
    rw [removeExisting, Action.exec_look_bind, hcontains]
    rfl
  | some f =>
    rw [hfile] at hcontains
    obtain ⟨t, ht, hchanges, hnone⟩ := FileTree.exists_remove hps hp hfile (hclear p hp).ne_nil
    refine ⟨{ w with tree := t }, ?_, .of_tree hchanges, hnone⟩
    rw [removeExisting, Action.exec_look_bind, hcontains]
    exact Action.exec_inContext_of_ok (Action.exec_change_of_ok ht) _

/-- The time of a file that is there is set. -/
theorem exists_stampFile {f : File} (hps : Apart ps) (hp : p ∈ ps) (hclear : w.tree.Clear ps)
    (hfile : w.tree.file? p = some f) (time : Nat) :
    ∃ w', Action.exec (stampFile project p time) w = (.ok (), w') ∧ Effect ps (· = p) w w' ∧
      w'.tree.file? p = some ⟨f.content, time⟩ ∧ w'.tree.clock = w.tree.clock := by
  obtain ⟨t, ht, hchanges, hstamped, hclock⟩ :=
    FileTree.exists_setTime hps hp hfile (hclear p hp).ne_nil time
  refine ⟨{ w with tree := t }, ?_, .of_tree hchanges, hstamped, hclock⟩
  exact Action.exec_inContext_of_ok (Action.exec_change_of_ok ht) _

/-- A generated file is written with the banner in front. -/
theorem exists_writeSource (hps : Apart ps) (hp : p ∈ ps) (hclear : w.tree.Clear ps)
    (text : Text) :
    ∃ w', Action.exec (writeSource project p text) w = (.ok (), w') ∧ Effect ps (· = p) w w' ∧
      ∃ time, w.tree.clock ≤ time ∧ time < w'.tree.clock ∧
        w'.tree.file? p = some ⟨.text (banner ++ text), time⟩ := by
  obtain ⟨w₁, hparent, heffect, hdir⟩ := exists_ensureParent project hps hp hclear
  obtain ⟨t, ht, hwrite, time, hle, hlt, hfile⟩ :=
    exists_write hps hp (heffect.clear hclear) hdir (.text (banner ++ text))
  refine ⟨{ w₁ with tree := t }, ?_, (heffect.mono fun _ h => h.elim).trans hwrite, time,
    Nat.le_trans heffect.changes.clock hle, hlt, hfile⟩
  rw [writeSource, Action.exec_bind_of_ok hparent]
  exact Action.exec_inContext_of_ok (Action.exec_change_of_ok ht) _

end

/-! ## Work of which only the place matters -/

namespace Action

/-- Whatever its outcome, work changes files at certain paths only. -/
def Within (ps : List Path) (touched : Path → Prop) (a : Action α) : Prop :=
  ∀ w : World, w.tree.Clear ps → w.tree.Changes ps touched (exec a w).2.tree

variable {ps : List Path} {touched other : Path → Prop} {a : Action α}

/-- Work that leaves the tree alone. -/
theorem within_of_tree (h : ∀ w, (exec a w).2.tree = w.tree) : Within ps touched a := by
  intro w _
  rw [h w]
  exact .refl ps touched w.tree

theorem Within.bind {f : α → Action β} (ha : Within ps touched a)
    (hf : ∀ x, Within ps touched (f x)) : Within ps touched (a >>= f) := by
  intro w hclear
  have hfirst := ha w hclear
  cases hexec : exec a w with
  | mk r w' =>
    rw [hexec] at hfirst
    cases r with
    | error e =>
      rw [exec_bind_of_error hexec]
      exact hfirst
    | ok x =>
      rw [exec_bind_of_ok hexec]
      exact hfirst.trans (hf x w' (hfirst.clear hclear))

theorem Within.mono (h : Within ps touched a) (hsub : ∀ q, touched q → other q) :
    Within ps other a :=
  fun w hclear => (h w hclear).mono hsub

theorem Within.inContext (h : Within ps touched a) (context : String) :
    Within ps touched (a.inContext context) :=
  fun w hclear => h w hclear

/-- Making directories changes no file. -/
theorem within_ensureParent (project : Project) {p : Path}
    (hp : ∀ r ∈ ps, ¬ r <+: p.dropLast) : Within ps touched (ensureParent project p) := by
  refine Within.inContext (fun w _ => ?_) _
  rw [change, exec_get_bind]
  cases hdirs : w.tree.makeDirs p.dropLast with
  | error e => exact .refl ps touched w.tree
  | ok t =>
    exact ((FileTree.opens_of_makeDirs hdirs).changes_of_forall hp).mono fun _ h => h.elim

end Action

end TableSync
