import TableSync.Proofs.Manager.Spares

/-!
# Fetching the sources of a category

An extraction fails only if its sources cannot be fetched, and whether or not it fails it leaves the
files of the project as they are, preprocessed ones aside.  What is made of the sources cannot fail:
a field that cannot be read is kept as text and reported.

* `FetchFails` lists the ways in which sources cannot be fetched: a file that cannot be read, or a
  preprocessor that cannot be run, ends with a failure, or leaves no output (`Preprocessor.Fails`).
* `fetchAll_fails_iff` and `extraction_fails_iff` say that an extraction fails in no other way.  The
  steps are taken one after the other, so a step counts only if those before it have gone through,
  in the world that they leave.
* `exec_extract_of_ok`, `exec_extract_of_kept` and `exec_extract_of_missing` say how it goes on:
  with the records saved, with the document that is there, or with no records that may be used.
* `keeps_extraction` says that an extraction keeps what is at tracked paths.
* `exists_time_of_fetched` says that a source that has been read was there before.
-/

set_option autoImplicit false

namespace TableSync

variable {project : Project} {preprocessor : Preprocessor} {w : World}

/-! ## How an extraction fails

The preprocessor is a parameter, of which nothing is known but its outcome in a world; the three
ways in which it fails are read off that outcome. -/

/-- The preprocessor is made to go over a source. -/
def Preprocessor.invocation (preprocessor : Preprocessor) (project : Project) (rel : String)
    (includes : List String) : Action CommandOutput := do
  ensureParent project (Project.processedPath rel)
  let args := preprocessor.config.commandLine rel includes
  say .debug ("preprocess: " ++ " ".intercalate args)
  preprocessor.runner args Project.sourceDir

/-- The ways in which the preprocessor fails. -/
inductive Preprocessor.Fails (preprocessor : Preprocessor) (project : Project) (rel : String)
    (includes : List String) (w : World) : Prop
  /-- It cannot be run. -/
  | unrun {f : Failure} {w' : World}
      (h : Action.exec (preprocessor.invocation project rel includes) w = (.error f, w'))
  /-- It ends with a failure. -/
  | exited {result : CommandOutput} {w' : World}
      (h : Action.exec (preprocessor.invocation project rel includes) w = (.ok result, w'))
      (hfailed : result.success = false)
  /-- It leaves no output. -/
  | silent {result : CommandOutput} {w' : World}
      (h : Action.exec (preprocessor.invocation project rel includes) w = (.ok result, w'))
      (hnone : w'.tree.contains (Project.processedPath rel) = false)

/-- The ways in which a step that fetches a source fails. -/
def FetchStep.Fails (project : Project) (preprocessor : Preprocessor) (w : World) :
    FetchStep → Prop
  | .read rel => ∃ e, w.tree.readText (Project.sourcePath rel) = .error e
  | .preprocess rel includes => preprocessor.Fails project rel includes w
  | .readProcessed rel => ∃ e, w.tree.readText (Project.processedPath rel) = .error e

/-- The world after a step that fetches a source. -/
def FetchStep.after (project : Project) (preprocessor : Preprocessor) (w : World) :
    FetchStep → World
  | .preprocess rel includes => (Action.exec (preprocessor.preprocess project rel includes) w).2
  | _ => w

/-- Sources cannot be fetched: some step fails, after those before it have gone through. -/
def FetchFails (project : Project) (preprocessor : Preprocessor) : List FetchStep → World → Prop
  | [], _ => False
  | step :: rest, w => step.Fails project preprocessor w ∨
      ¬ step.Fails project preprocessor w ∧
        FetchFails project preprocessor rest (step.after project preprocessor w)

theorem exists_sourceText_eq_error_iff (project : Project) {p : Path} :
    (∃ f, sourceText project w.tree p = .error f) ↔ ∃ e, w.tree.readText p = .error e := by
  rw [sourceText]
  cases w.tree.readText p with
  | ok text => simp
  | error e => cases e <;> simp [fail]

theorem exec_sayAll (level : Level) (texts : List String) (w : World) :
    ∃ es, Action.exec (sayAll level texts) w = (.ok (), { w with events := w.events ++ es }) := by
  induction texts generalizing w with
  | nil => exact ⟨[], by rw [List.append_nil]; rfl⟩
  | cons text rest ih =>
    obtain ⟨es, hes⟩ := ih { w with events := w.events ++ [.message level text] }
    refine ⟨.message level text :: es, ?_⟩
    rw [List.append_assoc, List.singleton_append] at hes
    exact hes

/-- What is made of the result of the preprocessor. -/
theorem preprocess_eq (preprocessor : Preprocessor) (project : Project) (rel : String)
    (includes : List String) :
    preprocessor.preprocess project rel includes =
      preprocessor.invocation project rel includes >>= fun result => do
        sayAll .debug result.lines
        if !result.success then
          throw ⟨.commandFailed ((preprocessor.config.commandLine rel includes).head?.getD "")
            (result.code?.getD (-1)) result.lines, []⟩
        if !(← look (FileTree.contains · (Project.processedPath rel))) then
          throw ⟨.outputMissing (project.show_ (Project.processedPath rel)), []⟩
        return Project.processedPath rel := by
  simp only [Preprocessor.preprocess, Preprocessor.invocation, bind_assoc]

/-- The preprocessor fails in no other way. -/
theorem preprocess_fails_iff {rel : String} {includes : List String} :
    (∃ f, (Action.exec (preprocessor.preprocess project rel includes) w).1 = .error f) ↔
      preprocessor.Fails project rel includes w := by
  rw [preprocess_eq]
  cases hinvoke : Action.exec (preprocessor.invocation project rel includes) w with
  | mk r w' =>
    cases r with
    | error f =>
      rw [Action.exec_bind_of_error hinvoke]
      exact ⟨fun _ => .unrun hinvoke, fun _ => ⟨f, rfl⟩⟩
    | ok result =>
      obtain ⟨es, hsay⟩ := exec_sayAll .debug result.lines w'
      rw [Action.exec_bind_of_ok hinvoke, Action.exec_bind_of_ok hsay]
      cases hsuccess : result.success with
      | false => exact ⟨fun _ => .exited hinvoke hsuccess, fun _ => ⟨_, rfl⟩⟩
      | true =>
        -- A missing output is the last of the reasons: the tool ran and reported success.
        show (∃ f, (Action.exec (look _ >>= _) _).1 = _) ↔ _
        rw [Action.exec_look_bind]
        cases hcontains : w'.tree.contains (Project.processedPath rel) with
        | false => exact ⟨fun _ => .silent hinvoke hcontains, fun _ => ⟨_, rfl⟩⟩
        | true =>
          constructor
          · rintro ⟨f, hf⟩
            cases hf
          · intro hfails
            cases hfails with
            | unrun h => cases hinvoke.symm.trans h
            | exited h hfailed =>
              cases hinvoke.symm.trans h
              rw [hfailed] at hsuccess
              cases hsuccess
            | silent h hnone =>
              cases hinvoke.symm.trans h
              rw [hnone] at hcontains
              cases hcontains

/-- Fetching goes on after a source that has been read. -/
theorem exec_readSource_bind {α : Type} {p : Path} (f : Text → Action α) :
    Action.exec (readSource project p >>= f) w = match sourceText project w.tree p with
      | .ok text => Action.exec (f text) w
      | .error e => (.error e, w) := by
  cases htext : sourceText project w.tree p with
  | ok text =>
    exact Action.exec_bind_of_ok ((exec_readSource project p w).trans (by rw [htext])) f
  | error e =>
    exact Action.exec_bind_of_error ((exec_readSource project p w).trans (by rw [htext])) f

/-- A source that cannot be read, or those after it that cannot be fetched. -/
theorem exists_readSource_bind_eq_error_iff {α : Type} {p : Path} {f : Text → Action α}
    {fails : Prop} (hf : ∀ text, (∃ e, (Action.exec (f text) w).1 = .error e) ↔ fails) :
    (∃ e, (Action.exec (readSource project p >>= f) w).1 = .error e) ↔
      (∃ e, w.tree.readText p = .error e) ∨
        ¬ (∃ e, w.tree.readText p = .error e) ∧ fails := by
  rw [exec_readSource_bind, ← exists_sourceText_eq_error_iff project]
  cases sourceText project w.tree p with
  | error e => simp
  | ok text => simpa using hf text

theorem fetchAll_fails_iff {steps : List FetchStep} (texts : String → Text) :
    (∃ f, (Action.exec (CategoryDef.fetchAll project preprocessor steps texts) w).1 = .error f) ↔
      FetchFails project preprocessor steps w := by
  -- over the steps, from any world, since the preprocessor changes it
  induction steps generalizing texts w with
  | nil =>
    refine ⟨?_, False.elim⟩
    rintro ⟨f, hf⟩
    cases hf
  | cons step rest ih =>
    cases step with
    | read rel => exact exists_readSource_bind_eq_error_iff fun text => ih _
    | readProcessed rel => exact exists_readSource_bind_eq_error_iff fun text => ih _
    | preprocess rel includes =>
      rw [CategoryDef.fetchAll, FetchFails, FetchStep.Fails, ← preprocess_fails_iff]
      cases hexec : Action.exec (preprocessor.preprocess project rel includes) w with
      | mk r w' =>
        cases r with
        | error f =>
          rw [Action.exec_bind_of_error hexec]
          simp
        | ok output =>
          rw [Action.exec_bind_of_ok hexec, ih texts, FetchStep.after, hexec]
          simp

/-- **An extraction fails exactly if its sources cannot be fetched.** -/
theorem extraction_fails_iff {d : CategoryDef} :
    (∃ f, (Action.exec (d.extraction project preprocessor) w).1 = .error f) ↔
      FetchFails project preprocessor d.fetch w := by
  rw [← fetchAll_fails_iff fun _ => [], CategoryDef.extraction]
  cases hexec : Action.exec (CategoryDef.fetchAll project preprocessor d.fetch fun _ => []) w with
  | mk r w' =>
    cases r with
    | error f =>
      rw [Action.exec_bind_of_error hexec]
      exact ⟨fun _ => ⟨f, rfl⟩, fun _ => ⟨f, rfl⟩⟩
    | ok texts =>
      rw [Action.exec_bind_of_ok hexec]
      simp

/-! ## How an extraction goes on -/

section

variable {c : Category} {v : Workshop}

/-- An extraction that fails goes on with the document that is there. -/
theorem exec_extract_of_kept {e : Failure} {w₁ : World}
    (h : Action.exec (c.definition.extraction v.project v.preprocessor) w = (.error e, w₁))
    (hcontains : w₁.tree.contains c.store.path = true) :
    Run.exec (c.extract v) w = Run.exec (c.keepDocument v.project e) w₁ := by
  rw [Category.extract, Run.exec_bind_of_eq ((Run.exec_attempt _ _).trans h)]
  show Run.exec (look _ >>= _) w₁ = _
  rw [Run.exec_bind, Run.exec_look, hcontains]
  rfl

/-- An extraction that fails without a document leaves no records that may be used. -/
theorem exec_extract_of_missing {e : Failure} {w₁ : World}
    (h : Action.exec (c.definition.extraction v.project v.preprocessor) w = (.error e, w₁))
    (hcontains : w₁.tree.contains c.store.path = false) :
    Run.exec (c.extract v) w = ((.error e, { c with trusted := false }), w₁) := by
  rw [Category.extract, Run.exec_bind_of_eq ((Run.exec_attempt _ _).trans h)]
  show Run.exec (look _ >>= _) w₁ = _
  rw [Run.exec_bind, Run.exec_look, hcontains]
  rfl

/-- What a report tells is no change. -/
theorem exec_tellReport (id : String) (report : Report) (w : World) :
    ∃ es, Action.exec (Category.tellReport id report) w =
      (.ok (), { w with events := w.events ++ es }) := by
  have hsay : ∀ (text : String) (texts : List String), ∃ es,
      Action.exec (say .info text >>= fun _ => sayAll .debug texts) w =
        (.ok (), { w with events := w.events ++ es }) := by
    intro text texts
    obtain ⟨es, hes⟩ := exec_sayAll .debug texts
      { w with events := w.events ++ [.message .info text] }
    refine ⟨.message .info text :: es, ?_⟩
    rw [List.append_assoc, List.singleton_append] at hes
    exact hes
  exact hsay _ _

/-- Sources that have been fetched are told of, and their records are saved. -/
theorem exec_extract_of_ok {extraction : Extraction} {w₁ : World}
    (h : Action.exec (c.definition.extraction v.project v.preprocessor) w =
      (.ok extraction, w₁)) :
    ∃ es, Run.exec (c.extract v) w = Run.exec (c.saveExtraction v.project extraction)
      { w₁ with events := w₁.events ++ es } := by
  obtain ⟨es, htold⟩ := exec_tellReport c.id extraction.report w₁
  refine ⟨es, ?_⟩
  rw [Category.extract, Run.exec_bind_of_eq ((Run.exec_attempt _ _).trans h)]
  exact Run.exec_bind_of_eq ((Run.exec_attempt _ _).trans htold) _

end

/-! ## What an extraction leaves as it is -/

/-- Whatever its outcome, work leaves alone what is at a path. -/
def Action.Keeps {α : Type} (p : Path) (a : Action α) : Prop :=
  ∀ w, (Action.exec a w).2.tree.node? p = w.tree.node? p

section

variable {α β : Type} {p : Path}

theorem Action.Spares.keeps {spared : Path → Prop} {told : Step → Prop} {a : Action α}
    (h : Action.Spares spared told a) (hp : spared p) : Action.Keeps p a := by
  intro w
  obtain ⟨x, t', new, hexec, -, hsame⟩ := h w.tree
  have hexec : Action.exec a w = (x, ⟨t', w.events ++ new⟩) := hexec w.events
  rw [hexec]
  exact hsame p hp

theorem Action.Keeps.bind {a : Action α} {f : α → Action β} (ha : Action.Keeps p a)
    (hf : ∀ x, Action.Keeps p (f x)) : Action.Keeps p (a >>= f) := by
  intro w
  have hfirst := ha w
  cases hexec : Action.exec a w with
  | mk r w' =>
    rw [hexec] at hfirst
    cases r with
    | error e =>
      rw [Action.exec_bind_of_error hexec]
      exact hfirst
    | ok x =>
      rw [Action.exec_bind_of_ok hexec]
      exact (hf x w').trans hfirst

end

section

variable {K : List CategoryKind} {k : CategoryKind} {p : Path}

/-- The preprocessor keeps tracked files. -/
theorem keeps_preprocess (h : preprocessor.IsConfined) (hp : p ∈ trackedPaths K) {rel : String}
    {includes : List String} (hstep : .preprocess rel includes ∈ (CategoryDef.ofKind k).fetch) :
    Action.Keeps p (preprocessor.preprocess project rel includes) := by
  have havoids : Avoids (· = p) (Project.processedPath rel) := by
    rintro q rfl
    exact not_on_way_to_processed hp _
  have hparent : Action.Spares (· = p) (fun _ => False)
      (ensureParent project (Project.processedPath rel)) := spares_ensureParent project havoids
  have hrun : Action.Keeps p (preprocessor.runner (preprocessor.config.commandLine rel includes)
      Project.sourceDir) := fun w => h.node k rel includes hstep w p (not_under_processedDir hp)
  refine (hparent.keeps rfl).bind fun _ => ?_
  refine Action.Keeps.bind (fun _ => rfl) fun _ => hrun.bind fun result => ?_
  intro w
  obtain ⟨es, hsay⟩ := exec_sayAll .debug result.lines w
  rw [Action.exec_bind_of_ok hsay]
  cases result.success with
  | false => rfl
  | true =>
    show (Action.exec (look _ >>= _) _).2.tree.node? p = _
    rw [Action.exec_look_bind]
    cases w.tree.contains (Project.processedPath rel) <;> rfl

theorem keeps_fetchAll (h : preprocessor.IsConfined) (hp : p ∈ trackedPaths K)
    {steps : List FetchStep} (hsteps : ∀ step ∈ steps, step ∈ (CategoryDef.ofKind k).fetch)
    (texts : String → Text) :
    Action.Keeps p (CategoryDef.fetchAll project preprocessor steps texts) := by
  have hread : ∀ q, Action.Keeps p (readSource project q) := fun q w => by rw [exec_readSource]
  induction steps generalizing texts with
  | nil => exact fun _ => rfl
  | cons step rest ih =>
    have hrest := ih fun s hs => hsteps s (List.mem_cons_of_mem step hs)
    cases step with
    | read rel => exact (hread _).bind fun text => hrest _
    | preprocess rel includes =>
      exact (keeps_preprocess h hp (hsteps _ List.mem_cons_self)).bind fun _ => hrest _
    | readProcessed rel => exact (hread _).bind fun text => hrest _

/-- **Fetching sources keeps tracked files**, whether or not it goes through. -/
theorem keeps_extraction (h : preprocessor.IsConfined) (hp : p ∈ trackedPaths K) :
    Action.Keeps p ((CategoryDef.ofKind k).extraction project preprocessor) :=
  (keeps_fetchAll h hp (fun _ hs => hs) _).bind fun _ _ => rfl

/-! ### What has been read -/

/-- What has been read was there. -/
theorem FileTree.exists_time_of_readText {t : FileTree} {text : Text}
    (h : t.readText p = .ok text) : ∃ time, t.time? p = some time := by
  rw [FileTree.time?]
  cases hnode : t.node? p with
  | some node => exact ⟨node.time, rfl⟩
  | none =>
    rw [FileTree.readText, FileTree.content, FileTree.find, hnode] at h
    cases h

/-- A source that is read is there, if all sources can be fetched. -/
theorem exists_time_of_not_fetchFails (h : preprocessor.IsConfined) {rel : String}
    (hp : Project.sourcePath rel ∈ trackedPaths K) {steps : List FetchStep}
    (hsteps : ∀ step ∈ steps, step ∈ (CategoryDef.ofKind k).fetch) (hrel : .read rel ∈ steps)
    (hfetched : ¬ FetchFails project preprocessor steps w) :
    ∃ time, w.tree.time? (Project.sourcePath rel) = some time := by
  induction steps generalizing w with
  | nil => exact absurd hrel List.not_mem_nil
  | cons step rest ih =>
    obtain ⟨hstep, hrest⟩ := List.forall_mem_cons.1 hsteps
    obtain ⟨hgoes, hlater⟩ := not_or.1 hfetched
    have hlater : ¬ FetchFails project preprocessor rest (step.after project preprocessor w) :=
      fun hfails => hlater ⟨hgoes, hfails⟩
    rcases List.mem_cons.1 hrel with rfl | hrel
    · cases hread : w.tree.readText (Project.sourcePath rel) with
      | ok text => exact FileTree.exists_time_of_readText hread
      | error e => exact absurd ⟨e, hread⟩ hgoes
    · obtain ⟨time, htime⟩ := ih hrest hrel hlater
      refine ⟨time, ?_⟩
      cases step with
      | read rel => exact htime
      | readProcessed rel => exact htime
      | preprocess rel' includes =>
        rw [FileTree.time?] at htime ⊢
        rw [← keeps_preprocess h hp hstep w]
        exact htime

/-- **A source that has been read was there** when the extraction began. -/
theorem exists_time_of_fetched (h : preprocessor.IsConfined) {rel : String}
    (hp : Project.sourcePath rel ∈ trackedPaths K) (hrel : .read rel ∈ (CategoryDef.ofKind k).fetch)
    {extraction : Extraction} {w' : World}
    (hexec : Action.exec ((CategoryDef.ofKind k).extraction project preprocessor) w =
      (.ok extraction, w')) :
    ∃ time, w.tree.time? (Project.sourcePath rel) = some time := by
  have hfetched : ¬ FetchFails project preprocessor (CategoryDef.ofKind k).fetch w := by
    intro hfails
    obtain ⟨f, hf⟩ := extraction_fails_iff.2 hfails
    rw [hexec] at hf
    cases hf
  exact exists_time_of_not_fetchFails h hp (fun _ hs => hs) hrel hfetched

end

end TableSync
