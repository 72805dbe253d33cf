import TableSync.Files.Binding
import TableSync.Proofs.Files.Session

/-!
# Backups are made, and put back

The pristine content of a bound file is that of its backup, or else its own.  Making backups and
putting them back keeps it, and everything that is ever written into a bound file is made from it.

* `Binding.pristine?` is the pristine content.
* `Binding.BackedUp` and `Binding.PutBack` say what happens to one bound file.  Both are said of the
  world before and after, so that they go through a list of bound files: work that leaves a file
  `Binding.Untouched` may come before or after.
* `BackedUp.pristine?` and `PutBack.pristine?` say that neither changes the pristine content, and
  `PutBack.content?_file` that the file itself has it once the backup is gone.
* `exists_ensureBackups` says what making backups does, and when it fails: they are made in turn, up
  to the first file that is missing.
* `exists_restoreFiles` says what putting files back does, which cannot fail where nothing stands in
  the way: every bound file is put back, and every generated file is deleted.

Both go by induction on the list of bindings, whose paths differ, so that what is done for one of
them leaves the others untouched.
-/

set_option autoImplicit false

namespace TableSync

/-- Whether there is a file at a path. -/
def FileTree.HasFile (t : FileTree) (p : Path) : Prop := (t.file? p).isSome = true

theorem FileTree.Changes.hasFile {ps : List Path} {touched : Path → Prop} {t t' : FileTree}
    {q : Path} (h : t.Changes ps touched t') (hq : ¬ touched q) : t'.HasFile q ↔ t.HasFile q := by
  rw [HasFile, HasFile, h.frame q hq]

namespace Binding

/-- The paths of a bound file and its backup. -/
def paths (b : Binding) : List Path := [b.file, b.backup]

theorem file_mem_paths (b : Binding) : b.file ∈ b.paths := List.mem_cons_self

theorem backup_mem_paths (b : Binding) : b.backup ∈ b.paths :=
  List.mem_cons_of_mem _ List.mem_cons_self

/-- The pristine content of a bound file. -/
def pristine? (t : FileTree) (b : Binding) : Option Content :=
  (t.content? b.backup).or (t.content? b.file)

variable {b : Binding} {w w' w'' : World}

theorem pristine?_congr {t t' : FileTree} (h : ∀ p ∈ b.paths, t'.file? p = t.file? p) :
    b.pristine? t' = b.pristine? t := by
  rw [pristine?, pristine?, FileTree.content?, FileTree.content?, FileTree.content?,
    FileTree.content?, h _ b.file_mem_paths, h _ b.backup_mem_paths]

theorem pristine?_of_hasFile {t : FileTree} (h : t.HasFile b.backup) :
    b.pristine? t = t.content? b.backup := by
  obtain ⟨f, hf⟩ := Option.isSome_iff_exists.1 h
  rw [pristine?, FileTree.content?, hf]
  rfl

/-- A backup that is there and is not touched keeps the pristine content. -/
theorem pristine?_of_backup_eq {t t' : FileTree} (hsame : t'.file? b.backup = t.file? b.backup)
    (h : t.HasFile b.backup) : t'.HasFile b.backup ∧ b.pristine? t' = b.pristine? t := by
  have h' : t'.HasFile b.backup := by
    rw [FileTree.HasFile, hsame]
    exact h
  refine ⟨h', ?_⟩
  rw [pristine?_of_hasFile h', pristine?_of_hasFile h, FileTree.content?, FileTree.content?, hsame]

theorem isSome_pristine?_iff {t : FileTree} :
    (b.pristine? t).isSome = true ↔ t.HasFile b.backup ∨ t.HasFile b.file := by
  rw [pristine?, FileTree.HasFile, FileTree.HasFile, FileTree.content?, FileTree.content?]
  cases t.file? b.backup <;> cases t.file? b.file <;> simp

/-- The backup has been kept, or made from the file. -/
def BackedUp (b : Binding) (w w' : World) : Prop :=
  w'.tree.file? b.backup = w.tree.file? b.backup ∨
    w.tree.file? b.backup = none ∧ w.tree.clock < w'.tree.clock ∧
      ∃ f time, w.tree.file? b.file = some f ∧ w'.tree.file? b.backup = some ⟨f.content, time⟩

/-- The backup is gone, and if there was one the file has been written from it. -/
structure PutBack (b : Binding) (w w' : World) : Prop where
  /-- The backup is gone. -/
  backup : w'.tree.file? b.backup = none
  /-- The file is as it was if there was no backup, and else it has the content of the backup, at a
  time of its own. -/
  file : w.tree.file? b.backup = none ∧ w'.tree.file? b.file = w.tree.file? b.file ∨
    ∃ f time, w.tree.file? b.backup = some f ∧ w.tree.clock ≤ time ∧ time < w'.tree.clock ∧
      w'.tree.file? b.file = some ⟨f.content, time⟩

/-- Time goes on, and neither the file nor the backup is touched. -/
structure Untouched (b : Binding) (w w' : World) : Prop where
  /-- The clock does not go back. -/
  clock : w.tree.clock ≤ w'.tree.clock
  /-- The file and its backup are as they were. -/
  frame : ∀ p ∈ b.paths, w'.tree.file? p = w.tree.file? p

theorem Untouched.of_changes {ps : List Path} {touched : Path → Prop}
    (h : w.tree.Changes ps touched w'.tree) (hb : ∀ p ∈ b.paths, ¬ touched p) :
    b.Untouched w w' :=
  ⟨h.clock, fun p hp => h.frame p (hb p hp)⟩

/-- What is done before to other files changes nothing. -/
theorem BackedUp.before (hsame : b.Untouched w w') (h : b.BackedUp w' w'') : b.BackedUp w w'' := by
  rw [BackedUp, hsame.frame _ b.file_mem_paths, hsame.frame _ b.backup_mem_paths] at h
  exact h.imp_right fun ⟨hnone, hlt, hmade⟩ => ⟨hnone, Nat.lt_of_le_of_lt hsame.clock hlt, hmade⟩

/-- What is done after to other files changes nothing. -/
theorem BackedUp.after (h : b.BackedUp w w') (hsame : b.Untouched w' w'') : b.BackedUp w w'' := by
  rw [BackedUp, hsame.frame _ b.backup_mem_paths]
  exact h.imp_right fun ⟨hnone, hlt, hmade⟩ => ⟨hnone, Nat.lt_of_lt_of_le hlt hsame.clock, hmade⟩

theorem PutBack.before (hsame : b.Untouched w w') (h : b.PutBack w' w'') : b.PutBack w w'' := by
  refine ⟨h.backup, ?_⟩
  rw [← hsame.frame _ b.backup_mem_paths, ← hsame.frame _ b.file_mem_paths]
  exact h.file.imp_right fun ⟨f, time, hf, hle, hlt, hwritten⟩ =>
    ⟨f, time, hf, Nat.le_trans hsame.clock hle, hlt, hwritten⟩

theorem PutBack.after (h : b.PutBack w w') (hsame : b.Untouched w' w'') : b.PutBack w w'' := by
  refine ⟨(hsame.frame _ b.backup_mem_paths).trans h.backup, ?_⟩
  rw [hsame.frame _ b.file_mem_paths]
  exact h.file.imp_right fun ⟨f, time, hf, hle, hlt, hwritten⟩ =>
    ⟨f, time, hf, hle, Nat.lt_of_lt_of_le hlt hsame.clock, hwritten⟩

theorem BackedUp.pristine? (h : b.BackedUp w w')
    (hfile : w'.tree.file? b.file = w.tree.file? b.file) :
    b.pristine? w'.tree = b.pristine? w.tree := by
  rw [Binding.pristine?, Binding.pristine?, FileTree.content?, FileTree.content?,
    FileTree.content?, FileTree.content?, hfile]
  rcases h with hsame | ⟨hnone, -, f, time, hf, hmade⟩
  · rw [hsame]
  · rw [hnone, hf, hmade]
    rfl

theorem PutBack.pristine? (h : b.PutBack w w') : b.pristine? w'.tree = b.pristine? w.tree := by
  rw [Binding.pristine?, Binding.pristine?, FileTree.content?, FileTree.content?,
    FileTree.content?, FileTree.content?, h.backup]
  rcases h.file with ⟨hnone, hsame⟩ | ⟨f, time, hf, -, -, hfile⟩
  · rw [hnone, hsame]
  · rw [hf, hfile]
    rfl

/-- Once the backup is gone, the file has the pristine content. -/
theorem PutBack.content?_file (h : b.PutBack w w') :
    w'.tree.content? b.file = b.pristine? w.tree := by
  rw [← h.pristine?, Binding.pristine?, FileTree.content?, FileTree.content?, h.backup]
  rfl

end Binding

variable {ps : List Path} {w : World} (project : Project)

/-! ## Making backups -/

/-- A backup is made if it can be. -/
theorem Binding.exists_apply {b : Binding} (hps : Apart ps) (hfile : b.file ∈ ps)
    (hbackup : b.backup ∈ ps) (hclear : w.tree.Clear ps) :
    ∃ r w', Action.exec (b.apply project) w = (r, w') ∧ Effect ps (· = b.backup) w w' ∧
      b.BackedUp w w' ∧ (r.isOk = true → w'.tree.HasFile b.backup) ∧
      (r.isOk = false → w' = w ∧ ¬ w.tree.HasFile b.backup ∧ ¬ w.tree.HasFile b.file) := by
  have hcontains := (hclear _ hbackup).contains_eq
  have hcontains' := (hclear _ hfile).contains_eq
  cases hb : w.tree.file? b.backup with
  | some f =>
    rw [hb] at hcontains
    refine ⟨.ok .alreadyCorrect, w, ?_, .refl ps _ w, Or.inl rfl, fun _ => ?_, fun h => ?_⟩
    · rw [apply, Action.exec_look_bind, hcontains]
      rfl
    · rw [FileTree.HasFile, hb]
      rfl
    · exact Bool.noConfusion h
  | none =>
    rw [hb] at hcontains
    cases hf : w.tree.file? b.file with
    | none =>
      rw [hf] at hcontains'
      -- Neither the file nor its backup: nothing to copy, and nothing happens.
      refine ⟨.error ⟨.sourceMissing (project.show_ b.file), []⟩, w, ?_, .refl ps _ w, Or.inl rfl,
        fun h => Bool.noConfusion h, fun _ => ⟨rfl, ?_, ?_⟩⟩
      · rw [apply, Action.exec_look_bind, hcontains]
        show Action.exec (look _ >>= _) w = _
        rw [Action.exec_look_bind, hcontains']
        rfl
      · simp [FileTree.HasFile, hb]
      · simp [FileTree.HasFile, hf]
    | some f =>
      rw [hf] at hcontains'
      -- The one case that writes: the backup is made with the content and a time before the clock.
      obtain ⟨w', hcopy, heffect, time, hle, hlt, hmade⟩ :=
        exists_copyFile project hps hbackup hclear hf
      refine ⟨.ok .applied, w', ?_, heffect,
        Or.inr ⟨hb, Nat.lt_of_le_of_lt hle hlt, f, time, hf, hmade⟩, fun _ => ?_,
        fun h => Bool.noConfusion h⟩
      · rw [apply, Action.exec_look_bind, hcontains]
        show Action.exec (look _ >>= _) w = _
        rw [Action.exec_look_bind, hcontains']
        show Action.exec (copyFile _ _ _ >>= _) w = _
        rw [Action.exec_bind_of_ok hcopy]
        rfl
      · rw [FileTree.HasFile, hmade]
        rfl

/-- Backups are made in turn, up to the first file that is missing. -/
theorem exists_ensureBackups {bs : List Binding} (hps : Apart ps)
    (hbs : ∀ b ∈ bs, b.file ∈ ps ∧ b.backup ∈ ps) (hdistinct : (bs.flatMap Binding.paths).Nodup)
    (hclear : w.tree.Clear ps) :
    ∃ r w', Action.exec (ensureBackups project bs) w = (r, w') ∧
      Effect ps (fun p => ∃ b ∈ bs, p = b.backup) w w' ∧ (∀ b ∈ bs, b.BackedUp w w') ∧
      (r.isOk = true → ∀ b ∈ bs, w'.tree.HasFile b.backup) ∧
      (r.isOk = false → ∃ b ∈ bs, ¬ w.tree.HasFile b.backup ∧ ¬ w.tree.HasFile b.file) ∧
      (w' = w ∧ (∀ b ∈ bs.head?, ¬ w.tree.HasFile b.file) ∨
        ∃ b ∈ bs.head?, w'.tree.HasFile b.backup) := by
  induction bs generalizing w with
  | nil =>
    exact ⟨.ok (), w, rfl, .refl ps _ w, by simp, by simp, fun h => Bool.noConfusion h,
      Or.inl ⟨rfl, by simp⟩⟩
  | cons b rest ih =>
    obtain ⟨hfile, hbackup⟩ := hbs b List.mem_cons_self
    rw [List.flatMap_cons, List.nodup_append] at hdistinct
    obtain ⟨-, hrest, hapart⟩ := hdistinct
    obtain ⟨r, w₁, happly, heffect, hbacked, hok, herror⟩ :=
      b.exists_apply project hps hfile hbackup hclear
    cases r with
    | error e =>
      obtain ⟨rfl, hnobackup, hnofile⟩ := herror rfl
      refine ⟨.error e, w₁, ?_, .refl ps _ w₁, fun _ _ => Or.inl rfl, fun h => Bool.noConfusion h,
        fun _ => ⟨b, List.mem_cons_self, hnobackup, hnofile⟩, Or.inl ⟨rfl, ?_⟩⟩
      · rw [ensureBackups, Action.exec_bind_of_error happly]
      · rintro b' hb'
        rw [← Option.some.inj hb']
        exact hnofile
    | ok change =>
      obtain ⟨r, w₂, hall, heffect', hbacked', hok', herror', -⟩ :=
        ih (fun b' hb' => hbs b' (List.mem_cons_of_mem b hb')) hrest (heffect.clear hclear)
      -- the first binding does not touch the others, and the other way round
      have hothers : ∀ b' ∈ rest, b'.Untouched w w₁ := fun b' hb' =>
        .of_changes heffect.changes fun p hp =>
          Ne.symm (hapart _ b.backup_mem_paths p (List.mem_flatMap.2 ⟨b', hb', hp⟩))
      have hfirst : b.Untouched w₁ w₂ := .of_changes heffect'.changes fun p hp ⟨b', hb', heq⟩ =>
        hapart p hp _ (List.mem_flatMap.2 ⟨b', hb', b'.backup_mem_paths⟩) heq
      have hkept : w₂.tree.HasFile b.backup := by
        rw [FileTree.HasFile, hfirst.frame _ b.backup_mem_paths]
        exact hok rfl
      refine ⟨r, w₂, ?_, ?_, ?_, ?_, ?_, Or.inr ⟨b, rfl, hkept⟩⟩
      · rw [ensureBackups, Action.exec_bind_of_ok happly]
        exact hall
      · refine (heffect.mono ?_).trans (heffect'.mono ?_)
        · rintro p rfl
          exact ⟨b, List.mem_cons_self, rfl⟩
        · rintro p ⟨b', hb', rfl⟩
          exact ⟨b', List.mem_cons_of_mem b hb', rfl⟩
      · intro b' hb'
        rcases List.mem_cons.1 hb' with rfl | hb'
        · exact hbacked.after hfirst
        · exact (hbacked' b' hb').before (hothers b' hb')
      · intro hr b' hb'
        rcases List.mem_cons.1 hb' with rfl | hb'
        · exact hkept
        · exact hok' hr b' hb'
      · intro hr
        obtain ⟨b', hb', hnobackup, hnofile⟩ := herror' hr
        rw [FileTree.HasFile, (hothers b' hb').frame _ b'.backup_mem_paths] at hnobackup
        rw [FileTree.HasFile, (hothers b' hb').frame _ b'.file_mem_paths] at hnofile
        exact ⟨b', List.mem_cons_of_mem b hb', hnobackup, hnofile⟩

/-! ## Putting files back -/

/-- A bound file is put back. -/
theorem Binding.exists_remove {b : Binding} (hps : Apart ps) (hfile : b.file ∈ ps)
    (hbackup : b.backup ∈ ps) (hne : b.file ≠ b.backup) (hclear : w.tree.Clear ps) :
    ∃ change w', Action.exec (b.remove project) w = (.ok change, w') ∧
      Effect ps (· ∈ b.paths) w w' ∧ b.PutBack w w' ∧
      (¬ w.tree.HasFile b.backup → change = .alreadyCorrect ∧ w' = w) := by
  have hcontains := (hclear _ hbackup).contains_eq
  cases hb : w.tree.file? b.backup with
  | none =>
    rw [hb] at hcontains
    refine ⟨.alreadyCorrect, w, ?_, .refl ps _ w, ⟨hb, Or.inl ⟨hb, rfl⟩⟩, fun _ => ⟨rfl, rfl⟩⟩
    rw [remove, Action.exec_look_bind, hcontains]
    rfl
  | some f =>
    rw [hb] at hcontains
    obtain ⟨w₁, hcopy, heffect, time, hle, hlt, hwritten⟩ :=
      exists_copyFile project hps hfile hclear hb
    obtain ⟨w₂, hremove, heffect', hgone⟩ :=
      exists_removeExisting project hps hbackup (heffect.clear hclear)
    have hstays : w₂.tree.file? b.file = some ⟨f.content, time⟩ :=
      (heffect'.changes.frame _ hne).trans hwritten
    refine ⟨.applied, w₂, ?_, ?_, ⟨hgone, Or.inr ⟨f, time, hb, hle,
      Nat.lt_of_lt_of_le hlt heffect'.changes.clock, hstays⟩⟩, fun h => ?_⟩
    · rw [remove, Action.exec_look_bind, hcontains]
      show Action.exec (copyFile _ _ _ >>= _) w = _
      rw [Action.exec_bind_of_ok hcopy, Action.exec_bind_of_ok hremove]
      rfl
    · refine (heffect.mono ?_).trans (heffect'.mono ?_)
      · rintro p rfl
        exact b.file_mem_paths
      · rintro p rfl
        exact b.backup_mem_paths
    · exact absurd (by rw [FileTree.HasFile, hb]; rfl) h

/-- A generated file is deleted. -/
theorem GeneratedFile.exists_remove {g : GeneratedFile} (hps : Apart ps) (hg : g.path ∈ ps)
    (hclear : w.tree.Clear ps) :
    ∃ change w', Action.exec (g.remove project) w = (.ok change, w') ∧
      Effect ps (· = g.path) w w' ∧ w'.tree.file? g.path = none ∧
      (¬ w.tree.HasFile g.path → change = .alreadyCorrect ∧ w' = w) := by
  have hcontains := (hclear _ hg).contains_eq
  cases hf : w.tree.file? g.path with
  | none =>
    rw [hf] at hcontains
    refine ⟨.alreadyCorrect, w, ?_, .refl ps _ w, hf, fun _ => ⟨rfl, rfl⟩⟩
    rw [remove, Action.exec_look_bind, hcontains]
    rfl
  | some f =>
    rw [hf] at hcontains
    obtain ⟨w', hremove, heffect, hgone⟩ := exists_removeExisting project hps hg hclear
    refine ⟨.applied, w', ?_, heffect, hgone, fun h => ?_⟩
    · rw [remove, Action.exec_look_bind, hcontains]
      show Action.exec (removeExisting _ _ >>= _) w = _
      rw [Action.exec_bind_of_ok hremove]
      rfl
    · exact absurd (by rw [FileTree.HasFile, hf]; rfl) h

theorem exec_countApplied_cons {a : Action Change} {rest : List (Action Change)} {change : Change}
    {n : Nat} {w₁ w₂ : World} (h : Action.exec a w = (.ok change, w₁))
    (hrest : Action.exec (countApplied rest) w₁ = (.ok n, w₂)) :
    Action.exec (countApplied (a :: rest)) w =
      (.ok (if change = .applied then n + 1 else n), w₂) := by
  rw [countApplied, Action.exec_bind_of_ok h, Action.exec_bind_of_ok hrest]
  rfl

/-- Generated files are deleted in turn. -/
theorem exists_removeGenerated {gs : List GeneratedFile} (hps : Apart ps)
    (hgs : ∀ g ∈ gs, g.path ∈ ps) (hclear : w.tree.Clear ps) :
    ∃ n w', Action.exec (countApplied (gs.map (·.remove project))) w = (.ok n, w') ∧
      Effect ps (· ∈ gs.map GeneratedFile.path) w w' ∧
      (∀ g ∈ gs, w'.tree.file? g.path = none) ∧
      ((∀ g ∈ gs, ¬ w.tree.HasFile g.path) → n = 0 ∧ w' = w) := by
  induction gs generalizing w with
  | nil => exact ⟨0, w, rfl, .refl ps _ w, by simp, fun _ => ⟨rfl, rfl⟩⟩
  | cons g rest ih =>
    obtain ⟨change, w₁, hremove, heffect, hgone, hnone⟩ :=
      g.exists_remove project hps (hgs g List.mem_cons_self) hclear
    obtain ⟨n, w₂, hall, heffect', hgone', hnone'⟩ :=
      ih (fun g' hg' => hgs g' (List.mem_cons_of_mem g hg')) (heffect.clear hclear)
    refine ⟨_, w₂, exec_countApplied_cons hremove hall, ?_, fun g' hg' => ?_, fun h => ?_⟩
    · refine (heffect.mono ?_).trans (heffect'.mono fun p hp => List.mem_cons_of_mem _ hp)
      rintro p rfl
      exact List.mem_cons_self
    · by_cases hmem : g'.path ∈ rest.map GeneratedFile.path
      · obtain ⟨g'', hg'', heq⟩ := List.mem_map.1 hmem
        rw [← heq]
        exact hgone' g'' hg''
      · rcases List.mem_cons.1 hg' with rfl | hg'
        · exact (heffect'.changes.frame _ hmem).trans hgone
        · exact absurd (List.mem_map_of_mem hg') hmem
    · obtain ⟨rfl, rfl⟩ := hnone (h g List.mem_cons_self)
      exact hnone' fun g' hg' => h g' (List.mem_cons_of_mem g hg')

/-- **Every bound file is put back, and every generated file is deleted.** -/
theorem exists_restoreFiles {bs : List Binding} {gs : List GeneratedFile} (hps : Apart ps)
    (hbs : ∀ b ∈ bs, b.file ∈ ps ∧ b.backup ∈ ps) (hgs : ∀ g ∈ gs, g.path ∈ ps)
    (hdistinct : (bs.flatMap Binding.paths ++ gs.map GeneratedFile.path).Nodup)
    (hclear : w.tree.Clear ps) :
    ∃ n w', Action.exec (restoreFiles project bs gs) w = (.ok n, w') ∧
      Effect ps (· ∈ bs.flatMap Binding.paths ++ gs.map GeneratedFile.path) w w' ∧
      (∀ b ∈ bs, b.PutBack w w') ∧ (∀ g ∈ gs, w'.tree.file? g.path = none) ∧
      ((∀ b ∈ bs, ¬ w.tree.HasFile b.backup) → (∀ g ∈ gs, ¬ w.tree.HasFile g.path) →
        n = 0 ∧ w' = w) := by
  rw [restoreFiles]
  induction bs generalizing w with
  | nil =>
    obtain ⟨n, w', hall, heffect, hgone, hnone⟩ := exists_removeGenerated project hps hgs hclear
    exact ⟨n, w', hall, heffect, by simp, hgone, fun _ => hnone⟩
  | cons b rest ih =>
    obtain ⟨hfile, hbackup⟩ := hbs b List.mem_cons_self
    rw [List.flatMap_cons, List.append_assoc, List.nodup_append] at hdistinct
    obtain ⟨hown, hrest, hapart⟩ := hdistinct
    have hne : b.file ≠ b.backup := by simpa [Binding.paths] using hown
    obtain ⟨change, w₁, hremove, heffect, hput, hnone⟩ :=
      b.exists_remove project hps hfile hbackup hne hclear
    obtain ⟨n, w₂, hall, heffect', hput', hgone', hnone'⟩ :=
      ih (fun b' hb' => hbs b' (List.mem_cons_of_mem b hb')) hrest (heffect.clear hclear)
    -- the first binding does not touch the others, and the other way round
    have hothers : ∀ b' ∈ rest, b'.Untouched w w₁ := fun b' hb' =>
      .of_changes heffect.changes fun p hp hmem =>
        hapart p hmem p (List.mem_append_left _ (List.mem_flatMap.2 ⟨b', hb', hp⟩)) rfl
    have hfirst : b.Untouched w₁ w₂ := .of_changes heffect'.changes fun p hp hmem =>
      hapart p hp p hmem rfl
    refine ⟨_, w₂, exec_countApplied_cons hremove hall, ?_, fun b' hb' => ?_, hgone',
      fun hbackups hgenerated => ?_⟩
    · rw [List.flatMap_cons, List.append_assoc]
      exact (heffect.mono fun p hp => List.mem_append_left _ hp).trans
        (heffect'.mono fun p hp => List.mem_append_right _ hp)
    · rcases List.mem_cons.1 hb' with rfl | hb'
      · exact hput.after hfirst
      · exact (hput' b' hb').before (hothers b' hb')
    · obtain ⟨rfl, rfl⟩ := hnone (hbackups b List.mem_cons_self)
      exact hnone' (fun b' hb' => hbackups b' (List.mem_cons_of_mem b hb')) hgenerated

end TableSync
