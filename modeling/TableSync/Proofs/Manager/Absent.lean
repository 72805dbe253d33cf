import TableSync.Proofs.Manager.Trust

/-!
# Working without a category

A category whose records may not be used is passed over: its files stay as they are, and the others
are worked on as if it were not enabled.  To say so, a session is compared with the one in which the
category is not there at all, step by step and answer by answer.

* `Manager.without` is a manager without a category, and `Session.IsWithout` says that one session
  is another one without it.
* `StepSpares` says what a step on a category does to the others, and `overCategories_without`
  compares work on all categories with work on all but one.  What has been told differs between the
  two, so the work must not depend on it; that is what `Run.Spares` gives.
* `Session.Follows` says that two sessions have gone on in the same way, and is handed on from one
  operation to the next by `Session.Follows.trans`.
* `Operation.follows` compares single operations and their answers, and `Session.IsWithout.runAll`
  runs of them, by induction on the list.
* `Operation.run_of_target` says that an operation that is aimed at such a category fails.
-/

set_option autoImplicit false

namespace TableSync

variable {spared : Path → Prop} {c : Category} {cs : List Category} {k : CategoryKind}

/-! ## Steps on categories

The steps that work on records are saving and regenerating.  Each looks first whether the records
may be used, and does nothing if not but tell of it. -/

theorem Category.spares_persist {told : Step → Prop} (project : Project) (h : c.IsApart spared) :
    Run.Spares spared told (c.persist project) := by
  refine .bind (.attempt (spares_save project h.document)) fun r => ?_
  cases r <;> exact .pure _

theorem Category.spares_regenerate {told : Step → Prop} {v : Workshop}
    (hv : v.write = writeAnnounced v.project) (h : c.IsApart spared) :
    Run.Spares spared told (c.regenerate v) := by
  refine .bind_of_exec (.attempt (spares_save v.project h.document)) fun r w w' hsave => ?_
  cases r with
  | error f => exact .pure _
  | ok saved =>
    have hsaved : Category.IsApart spared { c with store := saved.1 } :=
      h.of_succeeds (.of_eq rfl (Store.path_of_save hsave))
    exact .bind (.attempt (spares_rebuild hv hsaved)) fun _ => .pure _

/-- Recording an outcome tells of one step, whatever has been told before. -/
theorem exists_exec_recordOutcome (phase : Phase) (id : String) (r : Except Failure Outcome) :
    ∃ new, (∀ t es, Run.exec (recordOutcome phase id r) ⟨t, es⟩ = ((), ⟨t, es ++ new⟩)) ∧
      ∀ s ∈ stepsOf new, s.category = id := by
  have htell : ∀ status detail?, ∃ new,
      (∀ t es, Run.exec (tell (.step ⟨phase, id, status, detail?⟩)) ⟨t, es⟩ =
        ((), ⟨t, es ++ new⟩)) ∧ ∀ s ∈ stepsOf new, s.category = id := fun status detail? =>
    ⟨[.step ⟨phase, id, status, detail?⟩], fun _ _ => rfl,
      fun s hs => by rw [List.mem_singleton.1 hs]⟩
  have hsay : ∀ level text status detail?, ∃ new,
      (∀ t es, Run.exec (do say level text; tell (.step ⟨phase, id, status, detail?⟩)) ⟨t, es⟩ =
        ((), ⟨t, es ++ new⟩)) ∧ ∀ s ∈ stepsOf new, s.category = id :=
    fun level text status detail? =>
      ⟨[.message level text, .step ⟨phase, id, status, detail?⟩],
        fun t es => congrArg (fun es => ((), World.mk t es)) (List.append_assoc es _ _),
        fun s hs => by rw [List.mem_singleton.1 hs]⟩
  cases r with
  | error f => exact hsay _ _ _ _
  | ok outcome =>
    cases outcome with
    | done detail? => exact htell _ _
    | unchanged reason => exact hsay _ _ _ _
    | skipped reason => exact hsay _ _ _ _
    | dryRun => exact htell _ _

theorem spares_recordOutcome (phase : Phase) (id : String) (r : Except Failure Outcome) :
    Run.Spares spared (·.category = id) (recordOutcome phase id r) := by
  obtain ⟨new, hexec, htold⟩ := exists_exec_recordOutcome phase id r
  exact fun t => ⟨(), t, new, hexec t, htold, fun _ _ => rfl⟩

/-- A step on a category spares the files of the others and tells of that category only; a category
whose records may not be used is passed over. -/
structure StepSpares (step : Category → Run (Nat × Category)) : Prop where
  /-- The files of other categories are left alone, and what is told is of this category. -/
  spares : ∀ (spared : Path → Prop) (c : Category), c.IsApart spared →
    Run.Spares spared (·.category = c.id) (step c)
  /-- The category keeps its kind and its definition. -/
  stays : ∀ c, Run.Yields (step c) fun out => c.Stays out.2
  /-- A category whose records may not be used stays as it is, and so do its files. -/
  rests : ∀ c, c.trusted = false → ∀ t, ∃ new,
    (∀ es, Run.exec (step c) ⟨t, es⟩ = ((0, c), ⟨t, es ++ new⟩)) ∧
      ∀ s ∈ stepsOf new, s.category = c.id

theorem persistCategory_spares (project : Project) :
    StepSpares (Manager.persistCategory project) := by
  refine ⟨fun spared c h => ?_, persistCategory_stays project, fun c htrusted t => ?_⟩
  · rw [Manager.persistCategory]
    cases htrusted : c.trusted with
    | false => exact .pure _
    | true =>
      refine .bind_of_exec (c.spares_persist project h) fun out w w' hpersist => ?_
      have hstays := c.persist_stays project w
      rw [hpersist] at hstays
      obtain ⟨r, c'⟩ := out
      have hid : c'.id = c.id := congrArg CategoryKind.id hstays.succeeds.kind
      rw [← hid]
      cases r with
      | error f => exact .bind (spares_recordOutcome _ _ _) fun _ => .pure _
      | ok saved => cases saved <;> exact .bind (spares_recordOutcome _ _ _) fun _ => .pure _
  · refine ⟨[], fun es => ?_, fun s hs => absurd hs List.not_mem_nil⟩
    rw [Manager.persistCategory, htrusted, List.append_nil]
    rfl

theorem regenerateIfDue_spares {v : Workshop} (hv : v.write = writeAnnounced v.project)
    (dryRun : Bool) : StepSpares (Manager.regenerateIfDue v dryRun) := by
  refine ⟨fun spared c h => ?_, regenerateIfDue_stays v dryRun, fun c htrusted t => ?_⟩
  · rw [Manager.regenerateIfDue]
    cases htrusted : c.trusted with
    | false => exact .bind (spares_recordOutcome _ _ _) fun _ => .pure _
    | true =>
      refine .bind (.look _) fun due => ?_
      cases due with
      | false => exact .bind (spares_recordOutcome _ _ _) fun _ => .pure _
      | true =>
        cases dryRun with
        | true =>
          exact .bind (.say _ _) fun _ => .bind (spares_recordOutcome _ _ _) fun _ => .pure _
        | false =>
          refine .bind (.say _ _) fun _ =>
            .bind_of_exec (c.spares_regenerate hv h) fun out w w' hregenerate => ?_
          have hstays := c.regenerate_stays v w
          rw [hregenerate] at hstays
          have hid : out.2.id = c.id := congrArg CategoryKind.id hstays.succeeds.kind
          rw [← hid]
          exact .bind (spares_recordOutcome _ _ _) fun _ => .pure _
  · obtain ⟨new, hexec, htold⟩ :=
      exists_exec_recordOutcome .build c.id (.ok (.skipped "records not loaded"))
    refine ⟨new, fun es => ?_, htold⟩
    rw [Manager.regenerateIfDue, htrusted]
    exact Run.exec_bind_of_eq (hexec t es) _

/-! ## All categories but one -/

/-- The categories without those of a kind. -/
def withoutKind (k : CategoryKind) (cs : List Category) : List Category := cs.filter (·.kind ≠ k)

theorem withoutKind_cons_of_eq (h : c.kind = k) : withoutKind k (c :: cs) = withoutKind k cs :=
  List.filter_cons_of_neg (by simpa using h)

theorem withoutKind_cons_of_ne (h : c.kind ≠ k) :
    withoutKind k (c :: cs) = c :: withoutKind k cs :=
  List.filter_cons_of_pos (by simpa using h)

/-- **Work on all categories passes over one whose records may not be used**: its files stay as they
are, and the others are worked on as if it were not there. -/
theorem overCategories_without {step : Category → Run (Nat × Category)} (hstep : StepSpares step)
    (hcs : ∀ c ∈ cs, c.Lacks k) (t : FileTree) : ∃ n cs' t' new new₀,
    (∀ es, Run.exec (overCategories step cs) ⟨t, es⟩ = ((n, cs'), ⟨t', es ++ new⟩)) ∧
    (∀ es, Run.exec (overCategories step (withoutKind k cs)) ⟨t, es⟩ =
      ((n, withoutKind k cs'), ⟨t', es ++ new₀⟩)) ∧
    (stepsOf new).filter (·.category ≠ k.id) = stepsOf new₀ ∧
    ∀ p ∈ k.ownPaths, t'.node? p = t.node? p := by
  induction cs generalizing t with
  | nil =>
    have hnil : ∀ es : List Event, Run.exec (overCategories step []) ⟨t, es⟩ =
        ((0, []), ⟨t, es ++ []⟩) := fun es => by rw [List.append_nil]; rfl
    exact ⟨0, [], t, [], [], hnil, hnil, rfl, fun _ _ => rfl⟩
  | cons c rest ih =>
    obtain ⟨hc, hrest⟩ := List.forall_mem_cons.1 hcs
    by_cases hkind : c.kind = k
    · -- the category is passed over
      obtain ⟨own, hown, htold⟩ := hstep.rests c (hc.untrusted hkind) t
      obtain ⟨n, cs', t', new, new₀, hexec, hexec₀, hsteps, hsame⟩ := ih hrest t
      refine ⟨n, c :: cs', t', own ++ new, new₀, fun es => ?_, fun es => ?_, ?_, hsame⟩
      · rw [exec_overCategories_cons, hown, hexec, Nat.zero_add, List.append_assoc]
      · rw [withoutKind_cons_of_eq hkind, withoutKind_cons_of_eq hkind, hexec₀]
      · have hnone : (stepsOf own).filter (·.category ≠ k.id) = [] := by
          refine List.filter_eq_nil_iff.2 fun s hs => ?_
          have hid : s.category = k.id := (htold s hs).trans (congrArg CategoryKind.id hkind)
          simpa using hid
        rw [stepsOf, List.filterMap_append, List.filter_append, ← stepsOf, hnone, List.nil_append,
          ← stepsOf, hsteps]
    · -- the step is the same in both runs
      obtain ⟨⟨m, c'⟩, t₁, first, hfirst, htold, hsame₁⟩ :=
        hstep.spares (· ∈ k.ownPaths) c ⟨hc.managed, avoids_ownPaths hkind⟩ t
      have hkind' : c'.kind ≠ k := by
        have hstays := hstep.stays c ⟨t, []⟩
        rw [hfirst] at hstays
        rw [hstays.succeeds.kind]
        exact hkind
      obtain ⟨n, cs', t', new, new₀, hexec, hexec₀, hsteps, hsame⟩ := ih hrest t₁
      refine ⟨m + n, c' :: cs', t', first ++ new, first ++ new₀, fun es => ?_, fun es => ?_, ?_,
        fun p hp => (hsame p hp).trans (hsame₁ p hp)⟩
      · rw [exec_overCategories_cons, hfirst, hexec, List.append_assoc]
      · rw [withoutKind_cons_of_ne hkind, withoutKind_cons_of_ne hkind', exec_overCategories_cons,
          hfirst, hexec₀, List.append_assoc]
      · have hall : (stepsOf first).filter (·.category ≠ k.id) = stepsOf first := by
          refine List.filter_eq_self.2 fun s hs => ?_
          have hid : s.category ≠ k.id := fun heq =>
            hkind (CategoryKind.id_injective ((htold s hs).symm.trans heq))
          simpa using hid
        rw [stepsOf, List.filterMap_append, List.filter_append, ← stepsOf, hall, ← stepsOf, hsteps,
          stepsOf, stepsOf, stepsOf, List.filterMap_append]

/-! ## Managers -/

namespace Manager

/-- The manager without the categories of a kind. -/
def without (m : Manager) (k : CategoryKind) : Manager :=
  { m with categories := withoutKind k m.categories }

variable {m : Manager} {kind : CategoryKind}

theorem find?_withoutKind {p : Category → Bool} (hp : ∀ c, p c = true → c.kind ≠ k)
    (cs : List Category) : (withoutKind k cs).find? p = cs.find? p := by
  rw [withoutKind, List.find?_filter]
  refine congrArg (fun q => cs.find? q) (funext fun c => ?_)
  cases hc : p c with
  | false => simp
  | true => simpa using hp c hc

theorem loaded?_without (hne : kind ≠ k) : (m.without k).loaded? kind = m.loaded? kind := by
  refine find?_withoutKind (fun c hc => ?_) m.categories
  simp only [Bool.and_eq_true, decide_eq_true_eq] at hc
  rw [hc.1]
  exact hne

theorem find?_without (hne : kind ≠ k) :
    (m.without k).categories.find? (fun c => c.kind = kind) =
      m.categories.find? fun c => c.kind = kind := by
  refine find?_withoutKind (fun c hc => ?_) m.categories
  rw [of_decide_eq_true hc]
  exact hne

theorem find?_without_self : (m.without k).categories.find? (fun c => c.kind = k) = none := by
  refine List.find?_eq_none.2 fun c hc hkind => ?_
  have hne := (List.mem_filter.1 hc).2
  simp only [decide_eq_true_eq] at hkind hne
  exact hne hkind

theorem loaded?_without_self : (m.without k).loaded? k = none := by
  refine List.find?_eq_none.2 fun c hc hkind => ?_
  have hne := (List.mem_filter.1 hc).2
  simp only [Bool.and_eq_true, decide_eq_true_eq] at hkind hne
  exact hne hkind.1

/-- Another category can be replaced before or after. -/
theorem update_without (hne : c.kind ≠ k) : (m.without k).update c = (m.update c).without k := by
  have hreplace : ∀ cs, replaceCategory c (withoutKind k cs) =
      withoutKind k (replaceCategory c cs) := by
    intro cs
    induction cs with
    | nil => rfl
    | cons d rest ih =>
      by_cases hd : d.kind = k
      · have hdc : d.kind ≠ c.kind := fun h => hne (h.symm.trans hd)
        rw [withoutKind_cons_of_eq hd, replaceCategory, if_neg hdc, withoutKind_cons_of_eq hd, ih]
      · rw [withoutKind_cons_of_ne hd, replaceCategory, replaceCategory]
        split
        · rw [withoutKind_cons_of_ne hne]
        · rw [withoutKind_cons_of_ne hd, ih]
  rw [update, update, without, without, hreplace]

end Manager

/-! ## Sessions -/

variable {s s₀ : Session}

/-- The session without the categories of a kind. -/
def Session.without (s : Session) (k : CategoryKind) : Session :=
  { s with manager := s.manager.without k }

/-- A session is another one without the categories of a kind, whatever has been told before. -/
structure Session.IsWithout (k : CategoryKind) (s s₀ : Session) : Prop where
  /-- The manager is the other one without the categories of the kind. -/
  manager : s₀.manager = s.manager.without k
  /-- The files are the same. -/
  tree : s₀.tree = s.tree

theorem Session.isWithout_without (k : CategoryKind) (s : Session) : s.IsWithout k (s.without k) :=
  ⟨rfl, rfl⟩

/-- Two sessions, of which one is without the categories of a kind, have gone on in the same way:
the files of these categories are as they were, and the same has been told of the others. -/
structure Session.Follows (k : CategoryKind) (s s₀ s' s₀' : Session) : Prop where
  /-- One session is still the other one without the categories of the kind. -/
  isWithout : s'.IsWithout k s₀'
  /-- The files of these categories are as they were. -/
  spared : ∀ p ∈ k.ownPaths, s'.tree.node? p = s.tree.node? p
  /-- Of the other categories the same has been told. -/
  told : ∃ steps, Told steps s.world s'.world ∧
    Told (steps.filter (·.category ≠ k.id)) s₀.world s₀'.world

namespace Session

theorem IsWithout.follows_self (h : s.IsWithout k s₀) : Follows k s s₀ s s₀ :=
  ⟨h, fun _ _ => rfl, [], .refl _, .refl _⟩

theorem Follows.trans {s₁ s₂ s₁' s₂' : Session} (h : Follows k s s₀ s₁ s₁')
    (h' : Follows k s₁ s₁' s₂ s₂') : Follows k s s₀ s₂ s₂' := by
  obtain ⟨steps, htold, htold₀⟩ := h.told
  obtain ⟨steps', htold', htold₀'⟩ := h'.told
  refine ⟨h'.isWithout, fun p hp => (h'.spared p hp).trans (h.spared p hp), steps ++ steps',
    htold.trans htold', ?_⟩
  rw [List.filter_append]
  exact htold₀.trans htold₀'

theorem IsWithout.world_eq (h : s.IsWithout k s₀) : s₀.world = ⟨s.tree, s₀.world.events⟩ := by
  rw [← h.tree]
  rfl

/-- Work on all categories, and on all but one. -/
theorem IsWithout.forAll (h : s.IsWithout k s₀) (hs : s.Lacks k)
    {step : Category → Run (Nat × Category)} (hstep : StepSpares step) :
    (Run.exec (s₀.manager.forAll step) s₀.world).1.1 =
        (Run.exec (s.manager.forAll step) s.world).1.1 ∧
      Follows k s s₀
        ⟨(Run.exec (s.manager.forAll step) s.world).1.2,
          (Run.exec (s.manager.forAll step) s.world).2⟩
        ⟨(Run.exec (s₀.manager.forAll step) s₀.world).1.2,
          (Run.exec (s₀.manager.forAll step) s₀.world).2⟩ := by
  obtain ⟨n, cs', t', new, new₀, hexec, hexec₀, hsteps, hsame⟩ :=
    overCategories_without hstep hs s.tree
  have hwhole : Run.exec (overCategories step s.manager.categories) s.world =
      ((n, cs'), ⟨t', s.world.events ++ new⟩) := hexec s.world.events
  have hpart : Run.exec (overCategories step (withoutKind k s.manager.categories)) s₀.world =
      ((n, withoutKind k cs'), ⟨t', s₀.world.events ++ new₀⟩) := by
    rw [h.world_eq]
    exact hexec₀ s₀.world.events
  rw [h.manager, Manager.exec_forAll, Manager.exec_forAll, Manager.without, hwhole, hpart]
  refine ⟨rfl, ⟨rfl, rfl⟩, hsame, stepsOf new, ⟨new, rfl, rfl⟩, new₀, rfl, ?_⟩
  exact hsteps.symm

/-- Work on one category, in both sessions. -/
theorem IsWithout.act {α : Type} (h : s.IsWithout k s₀) (hne : c.kind ≠ k)
    {r : Run (α × Category)}
    (hspares : Run.Spares (· ∈ k.ownPaths) (·.category ≠ k.id) r)
    (hstays : Run.Yields r fun out => c.Stays out.2) :
    (Run.exec r s₀.world).1 = (Run.exec r s.world).1 ∧
      Follows k s s₀ ⟨s.manager.update (Run.exec r s.world).1.2, (Run.exec r s.world).2⟩
        ⟨s₀.manager.update (Run.exec r s₀.world).1.2, (Run.exec r s₀.world).2⟩ := by
  obtain ⟨out, t', new, hexec, htold, hsame⟩ := hspares s.tree
  have hwhole : Run.exec r s.world = (out, ⟨t', s.world.events ++ new⟩) := hexec s.world.events
  have hpart : Run.exec r s₀.world = (out, ⟨t', s₀.world.events ++ new⟩) := by
    rw [h.world_eq]
    exact hexec s₀.world.events
  have hout := hstays s.world
  rw [hwhole] at hout
  have hkind : out.2.kind ≠ k := by
    rw [hout.succeeds.kind]
    exact hne
  have hall : (stepsOf new).filter (·.category ≠ k.id) = stepsOf new :=
    List.filter_eq_self.2 fun s hs => by simpa using htold s hs
  rw [hwhole, hpart, h.manager]
  refine ⟨rfl, ⟨Manager.update_without hkind, rfl⟩, hsame, stepsOf new, ⟨new, rfl, rfl⟩, new, rfl,
    ?_⟩
  exact hall.symm

theorem Lacks.loaded?_eq_none (hs : s.Lacks k) : s.manager.loaded? k = none := by
  refine List.find?_eq_none.2 fun c hc hfound => ?_
  simp only [Bool.and_eq_true, decide_eq_true_eq] at hfound
  rw [(hs c hc).untrusted hfound.1] at hfound
  exact Bool.noConfusion hfound.2

/-- An edit of records, in both sessions. -/
theorem IsWithout.edited (h : s.IsWithout k s₀) (hs : s.Lacks k) (kind : CategoryKind)
    (refusal : Failure) (edit : Category → Except Failure (Answer × Record)) :
    (kind ≠ k → (Operation.edited kind refusal edit s₀).2 =
        (Operation.edited kind refusal edit s).2) ∧
      Follows k s s₀ (Operation.edited kind refusal edit s).1
        (Operation.edited kind refusal edit s₀).1 := by
  by_cases hkind : kind = k
  · have hnone : s₀.manager.loaded? kind = none := by
      rw [h.manager, hkind, Manager.loaded?_without_self]
    rw [Operation.edited_of_none hnone, Operation.edited_of_none (hkind ▸ hs.loaded?_eq_none)]
    exact ⟨fun _ => rfl, h.follows_self⟩
  · have hsame : s₀.manager.loaded? kind = s.manager.loaded? kind := by
      rw [h.manager, Manager.loaded?_without hkind]
    cases hloaded : s.manager.loaded? kind with
    | none =>
      rw [Operation.edited_of_none hloaded, Operation.edited_of_none (hsame.trans hloaded)]
      exact ⟨fun _ => rfl, h.follows_self⟩
    | some c =>
      cases hedit : edit c with
      | error f =>
        rw [Operation.edited_of_error hloaded hedit,
          Operation.edited_of_error (hsame.trans hloaded) hedit]
        exact ⟨fun _ => rfl, h.follows_self⟩
      | ok out =>
        have hne : (c.extracted out.2).kind ≠ k := by
          rw [← (Manager.loaded?_spec hloaded).2.1] at hkind
          exact hkind
        rw [Operation.edited_of_ok hloaded hedit,
          Operation.edited_of_ok (hsame.trans hloaded) hedit, h.manager]
        exact ⟨fun _ => rfl, ⟨Manager.update_without hne, h.tree⟩, fun _ _ => rfl, [], .refl _,
          .refl _⟩

end Session

/-! ## Operations

Operations that load records are left out: they may make the records of a category usable again, and
then it is not passed over any more. -/

namespace Operation

/-- Whether an operation works on records that have been loaded: an edit, a save or a
regeneration. -/
def isWork : Operation → Bool
  | start _ _ => false
  | loadAll _ => false
  | openDocuments => false
  | restoreAll => false
  | _ => true

variable {op : Operation}

/-- **An operation that is aimed at a category whose records may not be used fails**, and changes
nothing. -/
theorem run_of_target (hs : s.Lacks k) (htarget : op.target? = some k) :
    op.run s = s ∧ ∃ f, op.answer s = .failed f := by
  have hedit : op.isEdit = true → op.run s = s ∧ ∃ f, op.answer s = .failed f := by
    intro hedit
    obtain ⟨kind, refusal, edit, htarget', hrun⟩ := exists_edit hedit
    obtain rfl : kind = k := Option.some.inj (htarget'.symm.trans htarget)
    have hrefused : (op.run s, op.answer s) = (s, .failed refusal) := by
      rw [hrun, edited_of_none hs.loaded?_eq_none]
    exact ⟨congrArg Prod.fst hrefused, refusal, congrArg Prod.snd hrefused⟩
  cases op with
  | set kind path v => exact hedit rfl
  | setSpeciesInfo species key v form? => exact hedit rfl
  | setStarterField slot key v => exact hedit rfl
  | save kind =>
    obtain rfl : kind = k := Option.some.inj htarget
    obtain ⟨hrun, hanswer⟩ := save_of_none hs.loaded?_eq_none
    exact ⟨hrun, _, hanswer⟩
  | regenerate kind =>
    obtain rfl : kind = k := Option.some.inj htarget
    cases hfind : s.manager.categories.find? fun c => c.kind = kind with
    | none =>
      obtain ⟨hrun, hanswer⟩ := regenerate_of_none hfind
      exact ⟨hrun, _, hanswer⟩
    | some c =>
      obtain ⟨hc, hkind⟩ := Manager.find?_kind_spec hfind
      obtain ⟨hrun, hanswer⟩ := regenerate_of_untrusted hfind ((hs c hc).untrusted hkind)
      exact ⟨hrun, _, hanswer⟩
  | _ => cases htarget

section

variable {kind : CategoryKind}

theorem follows_save (h : s.IsWithout k s₀) (hs : s.Lacks k) :
    (kind ≠ k → (save kind).answer s₀ = (save kind).answer s) ∧
      Session.Follows k s s₀ ((save kind).run s) ((save kind).run s₀) := by
  by_cases hkind : kind = k
  · obtain rfl := hkind
    have hnone : s₀.manager.loaded? kind = none := by rw [h.manager, Manager.loaded?_without_self]
    rw [(save_of_none hnone).1, (save_of_none hs.loaded?_eq_none).1]
    exact ⟨fun hne => absurd rfl hne, h.follows_self⟩
  · have hsame : s₀.manager.loaded? kind = s.manager.loaded? kind := by
      rw [h.manager, Manager.loaded?_without hkind]
    cases hloaded : s.manager.loaded? kind with
    | none =>
      obtain ⟨hrun, hanswer⟩ := save_of_none hloaded
      obtain ⟨hrun₀, hanswer₀⟩ := save_of_none (hsame.trans hloaded)
      rw [hrun, hanswer, hrun₀, hanswer₀]
      exact ⟨fun _ => rfl, h.follows_self⟩
    | some c =>
      obtain ⟨hrun, hanswer⟩ := save_of_loaded hloaded
      obtain ⟨hrun₀, hanswer₀⟩ := save_of_loaded (hsame.trans hloaded)
      obtain ⟨hc, rfl, -⟩ := Manager.loaded?_spec hloaded
      have hproject : s₀.manager.project = s.manager.project := by rw [h.manager]; rfl
      obtain ⟨hout, hfollows⟩ := h.act hkind
        (c.spares_persist s.manager.project ⟨(hs c hc).managed, avoids_ownPaths hkind⟩)
        (c.persist_stays s.manager.project)
      rw [hrun, hanswer, hrun₀, hanswer₀, hproject, hout]
      rw [hout] at hfollows
      exact ⟨fun _ => rfl, hfollows⟩

theorem follows_regenerate (h : s.IsWithout k s₀) (hs : s.Lacks k) :
    (kind ≠ k → (regenerate kind).answer s₀ = (regenerate kind).answer s) ∧
      Session.Follows k s s₀ ((regenerate kind).run s) ((regenerate kind).run s₀) := by
  by_cases hkind : kind = k
  · obtain rfl := hkind
    -- The absent category: one side does not find it, the other one finds it untrusted.
    have hnone : s₀.manager.categories.find? (fun c => c.kind = kind) = none := by
      rw [h.manager, Manager.find?_without_self]
    have htarget : (regenerate kind).target? = some kind := rfl
    rw [(regenerate_of_none hnone).1, (run_of_target hs htarget).1]
    exact ⟨fun hne => absurd rfl hne, h.follows_self⟩
  · have hsame : s₀.manager.categories.find? (fun c => c.kind = kind) =
        s.manager.categories.find? fun c => c.kind = kind := by
      rw [h.manager, Manager.find?_without hkind]
    cases hfind : s.manager.categories.find? fun c => c.kind = kind with
    | none =>
      obtain ⟨hrun, hanswer⟩ := regenerate_of_none hfind
      obtain ⟨hrun₀, hanswer₀⟩ := regenerate_of_none (hsame.trans hfind)
      rw [hrun, hanswer, hrun₀, hanswer₀]
      exact ⟨fun _ => rfl, h.follows_self⟩
    | some c =>
      cases htrusted : c.trusted with
      | false =>
        obtain ⟨hrun, hanswer⟩ := regenerate_of_untrusted hfind htrusted
        obtain ⟨hrun₀, hanswer₀⟩ := regenerate_of_untrusted (hsame.trans hfind) htrusted
        rw [hrun, hanswer, hrun₀, hanswer₀]
        exact ⟨fun _ => rfl, h.follows_self⟩
      | true =>
        obtain ⟨hrun, hanswer⟩ := regenerate_of_trusted hfind htrusted
        obtain ⟨hrun₀, hanswer₀⟩ := regenerate_of_trusted (hsame.trans hfind) htrusted
        obtain ⟨hc, rfl⟩ := Manager.find?_kind_spec hfind
        have hworkshop : s₀.manager.workshop = s.manager.workshop := by rw [h.manager]; rfl
        obtain ⟨hout, hfollows⟩ := h.act hkind (c.spares_regenerate (v := s.manager.workshop) rfl
          ⟨(hs c hc).managed, avoids_ownPaths hkind⟩) (c.regenerate_stays s.manager.workshop)
        rw [hrun, hanswer, hrun₀, hanswer₀, hworkshop, hout]
        rw [hout] at hfollows
        exact ⟨fun _ => rfl, hfollows⟩

end

/-- **Work on records does the same with or without a category whose records may not be used.** -/
theorem follows (hop : op.isWork = true) (h : s.IsWithout k s₀) (hs : s.Lacks k) :
    (op.target? ≠ some k → op.answer s₀ = op.answer s) ∧
      Session.Follows k s s₀ (op.run s) (op.run s₀) := by
  have hedit : op.isEdit = true → (op.target? ≠ some k → op.answer s₀ = op.answer s) ∧
      Session.Follows k s s₀ (op.run s) (op.run s₀) := by
    intro hedit
    obtain ⟨kind, refusal, edit, htarget, hrun⟩ := exists_edit hedit
    have hsame := h.edited hs kind refusal edit
    rw [← hrun, ← hrun] at hsame
    refine ⟨fun hne => hsame.1 fun heq => hne ?_, hsame.2⟩
    rw [htarget, heq]
  have htarget : ∀ kind : CategoryKind, some kind ≠ some k → kind ≠ k := fun kind hne heq =>
    hne (congrArg some heq)
  cases op with
  | set kind path v => exact hedit rfl
  | setSpeciesInfo species key v form? => exact hedit rfl
  | setStarterField slot key v => exact hedit rfl
  | persistAll =>
    have hall := h.forAll hs (persistCategory_spares s.manager.project)
    rw [h.manager] at hall
    rw [run, run, answer, answer, h.manager]
    exact ⟨fun _ => congrArg Answer.count hall.1, hall.2⟩
  | regenerateAll dryRun =>
    have hall := h.forAll hs (regenerateIfDue_spares (v := s.manager.workshop) rfl dryRun)
    rw [h.manager] at hall
    rw [run, run, answer, answer, h.manager]
    exact ⟨fun _ => congrArg Answer.count hall.1, hall.2⟩
  | save kind =>
    obtain ⟨hanswer, hrun⟩ := follows_save h hs
    exact ⟨fun hne => hanswer (htarget kind hne), hrun⟩
  | regenerate kind =>
    obtain ⟨hanswer, hrun⟩ := follows_regenerate h hs
    exact ⟨fun hne => hanswer (htarget kind hne), hrun⟩
  | _ => cases hop

theorem loads_of_isWork (hop : op.isWork = true) : op.loads k s = false := by
  cases op <;> first | rfl | cases hop

end Operation

/-- A run of work on records does the same with or without a category whose records may not be
used. -/
theorem Session.IsWithout.runAll (h : s.IsWithout k s₀) (hs : s.Lacks k) {ops : List Operation}
    (hops : ∀ op ∈ ops, op.isWork = true) :
    Session.Follows k s s₀ (Operation.runAll s ops) (Operation.runAll s₀ ops) := by
  induction ops generalizing s s₀ with
  | nil => exact h.follows_self
  | cons op ops ih =>
    obtain ⟨hop, hrest⟩ := List.forall_mem_cons.1 hops
    have hfirst := (Operation.follows hop h hs).2
    exact hfirst.trans (ih hfirst.isWithout (hs.run (Operation.loads_of_isWork hop)) hrest)

end TableSync
