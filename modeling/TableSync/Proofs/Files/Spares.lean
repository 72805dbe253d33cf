import TableSync.Proofs.Files.Session

/-!
# Work that spares a path

Work on some files leaves alone what is at other paths, whatever stands at its own, and it does not
depend on what has been told before.  Nothing is asked here of the tree, so that this also holds of
work that fails halfway: a file may stand where a directory is wanted, or the other way round.

* `node?_of_makeDirs`, `node?_of_write` and the lemmas after them say of every change of a tree that
  it is made at one path, or at those on the way to it, if it is made at all.
* `Run.Spares` and `Action.Spares` say so of work, and that work tells of certain steps only.  They
  fix the tree and leave the events open: what is told is the same whatever has been told before, so
  two sessions with the same tree go on in the same way.
* `Spares.bind`, `Spares.attempt` and `Spares.inContext` put pieces of work together.  What follows
  a first part matters only for what that part can give, in the tree that it leaves.
* `spares_ensureParent` and those after it are the single pieces.
-/

set_option autoImplicit false

namespace TableSync

variable {α β : Type} {p q : Path}

/-! ## Changes of a tree -/

theorem Path.eq_or_prefix_dropLast (h : p <+: q) : p = q ∨ p <+: q.dropLast := by
  obtain ⟨r, rfl⟩ := h
  by_cases hr : r = []
  · exact Or.inl (by rw [hr, List.append_nil])
  · rw [List.dropLast_append_of_ne_nil hr]
    exact Or.inr (List.prefix_append p r.dropLast)

namespace FileTree

variable {t t' : FileTree}

theorem node?_put_of_ne (h : p ≠ q) (node : Node) : (t.put q node).node? p = t.node? p := by
  cases p with
  | nil => rfl
  | cons name p => exact (lookup_putNode q (name :: p) node t.nodes).trans (if_neg h)

/-- Making directories changes nothing off the way to them. -/
theorem node?_of_makeDirs (h : t.makeDirs q = .ok t') (hp : ¬ p <+: q) :
    t'.node? p = t.node? p := by
  rw [makeDirs] at h
  split at h
  · rw [Except.ok.inj h]
  · cases h
  · have hmissing : p ∉ (Path.starts q).filter (!t.contains ·) := fun hmem =>
      hp (Path.mem_starts.1 (List.mem_filter.1 hmem).1)
    have hne : ∀ r ∈ (Path.starts q).filter (!t.contains ·), r ≠ [] := by
      rintro r hr rfl
      exact absurd (List.mem_filter.1 hr).2 (by simp [contains, node?])
    rw [← Except.ok.inj h]
    exact (node?_foldl_put hne t p).1 hmissing
  · cases h

theorem node?_of_write {c : Content} (h : t.write q c = .ok t') (hp : p ≠ q) :
    t'.node? p = t.node? p := by
  rw [write] at h
  split at h
  · rw [← Except.ok.inj h]
    exact node?_put_of_ne hp _
  · cases h

theorem node?_of_copy {source : Path} (h : t.copy source q = .ok t') (hp : p ≠ q) :
    t'.node? p = t.node? p := by
  rw [copy] at h
  split at h
  · exact node?_of_write h hp
  · cases h
  · cases h

theorem node?_of_remove (h : t.remove q = .ok t') (hp : p ≠ q) : t'.node? p = t.node? p := by
  rw [remove] at h
  split at h
  · rw [← Except.ok.inj h]
    cases p with
    | nil => rfl
    | cons name p => exact (lookup_filter_ne q (name :: p) t.nodes).trans (if_neg hp)
  · cases h
  · cases h

theorem node?_of_setTime {time : Nat} (h : t.setTime q time = .ok t') (hp : p ≠ q) :
    t'.node? p = t.node? p := by
  rw [setTime] at h
  split at h
  · rw [← Except.ok.inj h]
    cases p with
    | nil => rfl
    | cons name p => exact (lookup_putNode q (name :: p) _ t.nodes).trans (if_neg hp)
  · cases h
  · cases h

end FileTree

/-! ## Work

The property is closed under everything that programs are made of, so a program spares a path if
each of its steps does. -/

/-- Whatever has been told before, work does the same; it tells of certain steps only, and leaves
alone what is at certain paths. -/
def Run.Spares (spared : Path → Prop) (told : Step → Prop) (r : Run α) : Prop :=
  ∀ t, ∃ x t' new, (∀ es, Run.exec r ⟨t, es⟩ = (x, ⟨t', es ++ new⟩)) ∧
    (∀ s ∈ stepsOf new, told s) ∧ ∀ p, spared p → t'.node? p = t.node? p

/-- The same of work that can fail. -/
def Action.Spares (spared : Path → Prop) (told : Step → Prop) (a : Action α) : Prop :=
  Run.Spares spared told a.run

variable {spared : Path → Prop} {told : Step → Prop}

namespace Run.Spares

variable {r : Run α}

theorem pure (x : α) : Run.Spares spared told (Pure.pure x : Run α) :=
  fun t => ⟨x, t, [], fun es => by rw [List.append_nil]; rfl,
    fun _ hs => absurd hs List.not_mem_nil, fun _ _ => rfl⟩

theorem look (f : FileTree → α) : Run.Spares spared told (TableSync.look f : Run α) :=
  fun t => ⟨f t, t, [], fun es => by rw [List.append_nil]; rfl,
    fun _ hs => absurd hs List.not_mem_nil, fun _ _ => rfl⟩

theorem tell {e : Event} (he : ∀ s ∈ stepsOf [e], told s) :
    Run.Spares spared told (TableSync.tell e : Run Unit) :=
  fun t => ⟨(), t, [e], fun _ => rfl, he, fun _ _ => rfl⟩

theorem say (level : Level) (text : String) :
    Run.Spares spared told (TableSync.say level text : Run Unit) :=
  tell fun _ hs => absurd hs List.not_mem_nil

/-- What follows matters only for what the first part gives. -/
theorem bind_of_exec {f : α → Run β} (hr : Run.Spares spared told r)
    (hf : ∀ x w w', Run.exec r w = (x, w') → Run.Spares spared told (f x)) :
    Run.Spares spared told (r >>= f) := by
  intro t
  obtain ⟨x, t₁, first, hfirst, htold, hsame⟩ := hr t
  obtain ⟨y, t₂, second, hsecond, htold', hsame'⟩ := hf x _ _ (hfirst []) t₁
  refine ⟨y, t₂, first ++ second, fun es => ?_, fun s hs => ?_, fun p hp => ?_⟩
  · rw [Run.exec_bind_of_eq (hfirst es), hsecond, List.append_assoc]
  · rw [stepsOf, List.filterMap_append, List.mem_append] at hs
    exact hs.elim (htold s) (htold' s)
  · rw [hsame' p hp, hsame p hp]

theorem bind {f : α → Run β} (hr : Run.Spares spared told r)
    (hf : ∀ x, Run.Spares spared told (f x)) : Run.Spares spared told (r >>= f) :=
  bind_of_exec hr fun x _ _ _ => hf x

theorem attempt {a : Action α} (ha : Action.Spares spared told a) :
    Run.Spares spared told (TableSync.attempt a : Run (Except Failure α)) := ha

end Run.Spares

namespace Action.Spares

variable {a : Action α}

theorem pure (x : α) : Action.Spares spared told (Pure.pure x : Action α) :=
  Run.Spares.pure (Except.ok x)

theorem throw (e : Failure) : Action.Spares spared told (MonadExcept.throw e : Action α) :=
  Run.Spares.pure (Except.error e)

theorem look (f : FileTree → α) : Action.Spares spared told (TableSync.look f : Action α) :=
  fun t => ⟨.ok (f t), t, [], fun es => by rw [List.append_nil]; rfl,
    fun _ hs => absurd hs List.not_mem_nil, fun _ _ => rfl⟩

theorem say (level : Level) (text : String) :
    Action.Spares spared told (TableSync.say level text : Action Unit) :=
  fun t => ⟨.ok (), t, [.message level text], fun _ => rfl, fun _ hs => absurd hs List.not_mem_nil,
    fun _ _ => rfl⟩

theorem now : Action.Spares spared told Action.now :=
  fun t => ⟨.ok t.clock, t.tick, [], fun es => by rw [List.append_nil]; rfl,
    fun _ hs => absurd hs List.not_mem_nil, fun p _ => by cases p <;> rfl⟩

theorem bind {f : α → Action β} (ha : Action.Spares spared told a)
    (hf : ∀ x, Action.Spares spared told (f x)) : Action.Spares spared told (a >>= f) := by
  have hcont : ∀ r : Except Failure α, Run.Spares spared told (ExceptT.bindCont f r) := by
    intro r
    cases r with
    | ok x => exact hf x
    | error e => exact Run.Spares.pure (Except.error e)
  exact Run.Spares.bind ha hcont

theorem attempt (ha : Action.Spares spared told a) :
    Action.Spares spared told (TableSync.attempt a : Action (Except Failure α)) :=
  Run.Spares.bind (Run.Spares.attempt ha) fun r => Run.Spares.pure (Except.ok r)

theorem inContext (ha : Action.Spares spared told a) (context : String) :
    Action.Spares spared told (a.inContext context) :=
  Run.Spares.bind ha fun r => Run.Spares.pure (r.mapError (Failure.inContext context))

theorem change {f : FileTree → Except OsError FileTree} {cause : OsError → Cause}
    (hf : ∀ t t', f t = .ok t' → ∀ p, spared p → t'.node? p = t.node? p) :
    Action.Spares spared told (Action.change f cause) := by
  intro t
  cases hchange : f t with
  | ok t' =>
    refine ⟨.ok (), t', [], fun es => ?_, fun _ hs => absurd hs List.not_mem_nil, hf t t' hchange⟩
    have hexec : Action.exec (Action.change f cause) ⟨t, es⟩ = (.ok (), ⟨t', es⟩) :=
      Action.exec_change_of_ok hchange
    rw [List.append_nil]
    exact hexec
  | error e =>
    refine ⟨.error ⟨cause e, []⟩, t, [], fun es => ?_, fun _ hs => absurd hs List.not_mem_nil,
      fun _ _ => rfl⟩
    show Action.exec (Action.change f cause) ⟨t, es⟩ = _
    rw [Action.change, Action.exec_get_bind, hchange, List.append_nil]
    rfl

end Action.Spares

/-! ## Single pieces of work -/

/-- The paths that are spared are neither a path nor on the way to it. -/
def Avoids (spared : Path → Prop) (q : Path) : Prop := ∀ p, spared p → ¬ p <+: q

theorem Avoids.ne (h : Avoids spared q) (hp : spared p) : p ≠ q := by
  rintro rfl
  exact h p hp (List.prefix_refl p)

theorem Avoids.dropLast (h : Avoids spared q) : Avoids spared q.dropLast :=
  fun p hp hstart => h p hp (hstart.trans (List.dropLast_prefix q))

section

variable (project : Project)

theorem spares_ensureParent (h : Avoids spared q) :
    Action.Spares spared told (ensureParent project q) :=
  .inContext (.change fun _ _ hdirs p hp => FileTree.node?_of_makeDirs hdirs (h.dropLast p hp)) _

theorem spares_copyFile {source : Path} (h : Avoids spared q) :
    Action.Spares spared told (copyFile project source q) :=
  .bind (spares_ensureParent project h) fun _ =>
    .inContext (.change fun _ _ hcopy _ hp => FileTree.node?_of_copy hcopy (h.ne hp)) _

theorem spares_removeExisting (h : Avoids spared q) :
    Action.Spares spared told (removeExisting project q) := by
  refine .bind (.look _) fun there => ?_
  cases there with
  | false => exact .pure ()
  | true =>
    exact .inContext (.change fun _ _ hremove _ hp => FileTree.node?_of_remove hremove (h.ne hp)) _

theorem spares_stampFile {time : Nat} (h : Avoids spared q) :
    Action.Spares spared told (stampFile project q time) :=
  .inContext (.change fun _ _ htime _ hp => FileTree.node?_of_setTime htime (h.ne hp)) _

theorem spares_writeSource {text : Text} (h : Avoids spared q) :
    Action.Spares spared told (writeSource project q text) :=
  .bind (spares_ensureParent project h) fun _ =>
    .inContext (.change fun _ _ hwrite _ hp => FileTree.node?_of_write hwrite (h.ne hp)) _

end

end TableSync
