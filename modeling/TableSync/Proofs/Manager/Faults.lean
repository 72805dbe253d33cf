import TableSync.Proofs.Manager.Operation

/-!
# Regeneration is all or nothing

A write may fail at any time, in the first attempt of a regeneration or in the second one.  In the
end all files are written, or all are as they were before any generation.

* `Workshop.WritesOrFails` says that a write goes through or leaves all files as they are.  Which of
  the writes fail is open, and may depend on everything that has happened before.
* `Workshop.WritesOrFails.exists_writeOutputs` says what becomes of texts that are written in turn:
  those up to the first write that fails are there.
* `exists_generateOnce` says what one attempt does: whatever its outcome, what the bound files had
  in them at first is still there, in them or in their backups.  That is what a further attempt
  starts from, and what can be put back.
* `Category.IsPutBack` and `Category.IsGenerated` are the two states in which a regeneration may
  end, and `exists_rebuild_allOrNothing` puts two attempts together, with what is put back after
  each.
* `exists_regenerate_allOrNothing` puts saving the document in front.  If it fails, nothing is
  generated, and a regeneration ends before it has begun.
-/

set_option autoImplicit false

namespace TableSync

variable {K : List CategoryKind} {c : Category} {v : Workshop} {w : World}

/-- Every write of a file goes through, or fails and changes no file.  Which of them fail is
open. -/
def Workshop.WritesOrFails (v : Workshop) (ps : List Path) : Prop :=
  ∀ (rel : String) (text : Text) (w : World),
    Action.exec (v.write rel text) w = Action.exec (writeAnnounced v.project rel text) w ∨
      ∃ e w', Action.exec (v.write rel text) w = (.error e, w') ∧ Effect ps (fun _ => False) w w'

/-- A text is written, or the write fails. -/
theorem Workshop.WritesOrFails.exists_write {ps : List Path} (hv : v.WritesOrFails ps)
    (hps : Apart ps) {rel : String} (hrel : Project.sourcePath rel ∈ ps) (hclear : w.tree.Clear ps)
    (text : Text) :
    ∃ r w', Action.exec (v.write rel text) w = (r, w') ∧
      Effect ps (· = Project.sourcePath rel) w w' ∧
      (r = .ok () → w'.tree.content? (Project.sourcePath rel) = some (.text (banner ++ text))) := by
  rcases hv rel text w with hsame | ⟨e, w', hexec, heffect⟩
  · obtain ⟨w', hwrite, heffect, hfile⟩ :=
      exists_writeAnnounced v.project hps hrel hclear text
    exact ⟨.ok (), w', hsame.trans hwrite, heffect, fun _ => hfile⟩
  · exact ⟨.error e, w', hexec, heffect.mono fun _ h => h.elim, nofun⟩

/-- Texts are written in turn, up to the first write that fails. -/
theorem Workshop.WritesOrFails.exists_writeOutputs {ps : List Path} {outs : List (String × Text)}
    (hv : v.WritesOrFails ps) (hps : Apart ps) (hmem : ∀ o ∈ outs, Project.sourcePath o.1 ∈ ps)
    (hdistinct : (outs.map fun o => Project.sourcePath o.1).Nodup) (hclear : w.tree.Clear ps) :
    ∃ r w', Action.exec (Category.writeOutputs v.write outs) w = (r, w') ∧
      Effect ps (· ∈ outs.map fun o => Project.sourcePath o.1) w w' ∧
      (r = .ok () → ∀ o ∈ outs,
        w'.tree.content? (Project.sourcePath o.1) = some (.text (banner ++ o.2))) := by
  induction outs generalizing w with
  | nil => exact ⟨.ok (), w, rfl, .refl ps _ w, by simp⟩
  | cons o rest ih =>
    obtain ⟨rel, text⟩ := o
    rw [List.map_cons, List.nodup_cons] at hdistinct
    obtain ⟨r, w₁, hwrite, heffect, hcontent⟩ :=
      hv.exists_write hps (hmem _ List.mem_cons_self) hclear text
    have hfirst : Effect ps (· ∈ ((rel, text) :: rest).map fun o => Project.sourcePath o.1) w w₁ :=
      heffect.mono fun p hp => hp ▸ List.mem_cons_self
    cases r with
    | error e =>
      refine ⟨.error e, w₁, ?_, hfirst, nofun⟩
      rw [Category.writeOutputs, Action.exec_bind_of_error hwrite]
    | ok _ =>
      obtain ⟨r, w₂, hall, heffect', hcontents⟩ := ih
        (fun o ho => hmem o (List.mem_cons_of_mem _ ho)) hdistinct.2 (heffect.clear hclear)
      refine ⟨r, w₂, ?_, hfirst.trans (heffect'.mono fun p hp => List.mem_cons_of_mem _ hp),
        fun hr o ho => ?_⟩
      · rw [Category.writeOutputs, Action.exec_bind_of_ok hwrite]
        exact hall
      · rcases List.mem_cons.1 ho with rfl | ho
        · rw [heffect'.changes.content? hdistinct.1]
          exact hcontent rfl
        · exact hcontents hr o ho

/-- **One attempt.**  If it goes through, all texts are written; in any case the pristine contents
are kept. -/
theorem exists_generateOnce (hv : v.WritesOrFails (trackedPaths K)) (hc : c.IsManaged)
    (hk : c.kind ∈ K) (hclear : w.tree.Clear (trackedPaths K)) :
    ∃ r w', Action.exec (c.generateOnce v) w = (r, w') ∧
      Effect (trackedPaths K) (· ∈ c.kind.managedPaths) w w' ∧
      (∀ b ∈ c.definition.bindings, b.pristine? w'.tree = b.pristine? w.tree) ∧
      (r = .ok () → ∃ outs, c.Builds v w.tree outs ∧
        ∀ o ∈ outs, w'.tree.content? (Project.sourcePath o.1) = some (.text (banner ++ o.2))) := by
  obtain ⟨w₁, hprepares, hstart⟩ := exists_generateOnce_start v hc hk hclear
  have heffect₁ : Effect (trackedPaths K) (· ∈ c.kind.managedPaths) w w₁ :=
    hprepares.effect.mono fun p ⟨b, hb, hp⟩ => hp ▸ hc.backup_mem hb
  rcases hstart with ⟨e, hexec, -⟩ | ⟨outs, hexec, hbuilds, hbackups⟩
  · exact ⟨.error e, w₁, hexec, heffect₁, hprepares.pristine? hc, nofun⟩
  · obtain ⟨r, w₂, hwrite, heffect₂, hcontents⟩ := hv.exists_writeOutputs (apart_trackedPaths K)
      (hbuilds.mem_trackedPaths hc hk) (hbuilds.nodup hc) (hprepares.effect.clear hclear)
    refine ⟨r, w₂, hexec.trans hwrite, heffect₁.trans (heffect₂.mono fun p hp =>
      CategoryKind.outputPaths_subset (hbuilds.mem_outputPaths hc hp)), fun b hb => ?_,
      fun hr => ⟨outs, hbuilds, hcontents hr⟩⟩
    -- the backup is there before anything is written, and is not written itself
    exact (hbuilds.backups_kept hc heffect₂ hbackups b hb).2.trans (hprepares.pristine? hc b hb)

/-- All bound files have the contents that they had at first, and backups and generated files are
gone. -/
structure Category.IsPutBack (c : Category) (t t' : FileTree) : Prop where
  /-- Every bound file has the content that it had at first, and its backup is gone. -/
  bound : ∀ b ∈ c.definition.bindings,
    t'.content? b.file = b.pristine? t ∧ t'.file? b.backup = none
  /-- No generated file is there. -/
  generated : ∀ g ∈ c.definition.generated, t'.file? g.path = none

/-- All bound and generated files hold what is made from the pristine contents. -/
def Category.IsGenerated (v : Workshop) (c : Category) (t t' : FileTree) : Prop :=
  ∃ outs, c.Builds v t outs ∧ ∀ p ∈ c.definition.writtenPaths, ∃ o ∈ outs,
    Project.sourcePath o.1 = p ∧ t'.content? p = some (.text (banner ++ o.2))

/-- After an attempt, all files can be put back. -/
theorem exists_putBack (hc : c.IsManaged) (hk : c.kind ∈ K) {w₁ : World}
    (heffect : Effect (trackedPaths K) (· ∈ c.kind.managedPaths) w w₁)
    (hclear : w.tree.Clear (trackedPaths K))
    (hpristine : ∀ b ∈ c.definition.bindings, b.pristine? w₁.tree = b.pristine? w.tree) :
    ∃ w', Action.exec (c.rollback v.project) w₁ = (.ok (), w') ∧
      Effect (trackedPaths K) (· ∈ c.kind.managedPaths) w w' ∧
      (∀ b ∈ c.definition.bindings, b.pristine? w'.tree = b.pristine? w.tree) ∧
      c.IsPutBack w.tree w'.tree := by
  obtain ⟨w', hrollback, heffect', hput, hgone⟩ :=
    exists_rollback v.project hc hk (heffect.clear hclear)
  refine ⟨w', hrollback, heffect.trans heffect', fun b hb => ?_, fun b hb => ⟨?_, ?_⟩, hgone⟩
  · rw [(hput b hb).pristine?, hpristine b hb]
  · rw [(hput b hb).content?_file, hpristine b hb]
  · exact (hput b hb).backup

/-- A generation is finished by the stamp, which changes times only. -/
theorem exists_stamp_of_isGenerated (hc : c.IsManaged) (hk : c.kind ∈ K) {w₁ : World}
    (hclear : w₁.tree.Clear (trackedPaths K)) (hdocument : w₁.tree.HasFile c.kind.documentPath)
    {outs : List (String × Text)} {t : FileTree} (hgenerator : c.definition.generator?.isSome = true)
    (hbuilds : c.Builds v t outs) (hcontents : ∀ o ∈ outs,
      w₁.tree.content? (Project.sourcePath o.1) = some (.text (banner ++ o.2))) :
    ∃ w', Action.exec (c.stamp v.project) w₁ = (.ok (), w') ∧ c.IsGenerated v t w'.tree := by
  obtain ⟨w', hstamp, -, -, hfiles⟩ := exists_stamp v.project hc hk hclear hdocument
  refine ⟨w', hstamp, outs, hbuilds, fun p hp => ?_⟩
  have hmem : p ∈ outs.map fun o => Project.sourcePath o.1 := by
    rw [hbuilds.map_paths hc, if_pos hgenerator, CategoryKind.mem_outputPaths_iff,
      ← hc.definition]
    exact hp
  obtain ⟨o, ho, rfl⟩ := List.mem_map.1 hmem
  refine ⟨o, ho, rfl, ?_⟩
  rw [← hcontents o ho, FileTree.content?, FileTree.content?,
    hfiles _ (List.mem_cons_of_mem _ hp)]
  cases w₁.tree.file? (Project.sourcePath o.1) <;> rfl

/-- **Two attempts are all or nothing.** -/
theorem exists_rebuild_allOrNothing (hv : v.WritesOrFails (trackedPaths K)) (hc : c.IsManaged)
    (hk : c.kind ∈ K) (hclear : w.tree.Clear (trackedPaths K))
    (hdocument : w.tree.HasFile c.kind.documentPath)
    (hgenerator : c.definition.generator?.isSome = true) :
    ∃ r w', Action.exec (c.rebuild v) w = (r, w') ∧
      (r = .ok () ∧ c.IsGenerated v w.tree w'.tree ∨
        (∃ reason, r = .error ⟨.generationFailed c.id reason, []⟩) ∧
          c.IsPutBack w.tree w'.tree) := by
  have hstays : ∀ {w' : World}, Effect (trackedPaths K) (· ∈ c.kind.managedPaths) w w' →
      w'.tree.HasFile c.kind.documentPath := fun heffect =>
    (heffect.changes.hasFile c.kind.documentPath_notMem).2 hdocument
  obtain ⟨r₁, w₁, hgenerate₁, heffect₁, hpristine₁, hok₁⟩ := exists_generateOnce hv hc hk hclear
  cases r₁ with
  | ok _ =>
    obtain ⟨outs, hbuilds, hcontents⟩ := hok₁ rfl
    obtain ⟨w', hstamp, hgenerated⟩ := exists_stamp_of_isGenerated hc hk
      (heffect₁.clear hclear) (hstays heffect₁) hgenerator hbuilds hcontents
    refine ⟨.ok (), w', ?_, Or.inl ⟨rfl, hgenerated⟩⟩
    rw [Category.rebuild, Action.exec_attempt_bind, hgenerate₁]
    exact hstamp
  | error first =>
    have heffect₁' : Effect (trackedPaths K) (· ∈ c.kind.managedPaths) w (w₁.warned c first) :=
      heffect₁.trans (.say _ _ w₁ _ _)
    -- After the first attempt everything is put back; the second starts from the same backups.
    obtain ⟨w₂, hrollback₂, heffect₂, hpristine₂, hput₂⟩ :=
      exists_putBack (v := v) hc hk heffect₁' hclear hpristine₁
    have hclear₂ := heffect₂.clear hclear
    obtain ⟨r₃, w₃, hgenerate₃, heffect₃, hpristine₃, hok₃⟩ := exists_generateOnce hv hc hk hclear₂
    rw [Category.exec_rebuild_of_error hgenerate₁ hrollback₂, Action.exec_attempt_bind, hgenerate₃]
    have heffect := heffect₂.trans heffect₃
    cases r₃ with
    | ok _ =>
      obtain ⟨outs, hbuilds, hcontents⟩ := hok₃ rfl
      -- The backups are what they were at the start, so the second attempt renders the same text.
      obtain ⟨w', hstamp, hgenerated⟩ := exists_stamp_of_isGenerated hc hk
        (heffect.clear hclear) (hstays heffect) hgenerator
        (hbuilds.congr hc.definition fun b hb => (hpristine₂ b hb).symm) hcontents
      exact ⟨.ok (), w', hstamp, Or.inl ⟨rfl, hgenerated⟩⟩
    | error second =>
      obtain ⟨w', hrollback, -, -, hput⟩ := exists_putBack (v := v) hc hk heffect hclear
        fun b hb => (hpristine₃ b hb).trans (hpristine₂ b hb)
      exact ⟨.error ⟨.generationFailed c.id second.message, []⟩, w',
        Action.exec_bind_of_ok hrollback _, Or.inr ⟨⟨second.message, rfl⟩, hput⟩⟩

/-- **Regeneration is all or nothing.**  Whatever writes fail, a regeneration goes through with all
bound and generated files written from the pristine contents and the records, or it fails and leaves
the pristine contents, without backups and generated files. -/
theorem exists_regenerate_allOrNothing (hv : v.WritesOrFails (trackedPaths K)) (hc : c.IsManaged)
    (hk : c.kind ∈ K) (hclear : w.tree.Clear (trackedPaths K))
    (hgenerator : c.definition.generator?.isSome = true) :
    ∃ r w', Run.exec (c.regenerate v) w = ((r, c.saved), w') ∧
      (r = .ok () ∧ (∃ outs,
          c.definition.outputs v.constants c.store.records (pristineText v.project w.tree) = .ok outs ∧
          ∀ p ∈ c.definition.writtenPaths, ∃ o ∈ outs, Project.sourcePath o.1 = p ∧
            w'.tree.content? p = some (.text (banner ++ o.2))) ∨
        (∃ reason, r = .error ⟨.generationFailed c.id reason, []⟩) ∧
          (∀ b ∈ c.definition.bindings, w'.tree.content? b.file = b.pristine? w.tree ∧
            w'.tree.file? b.backup = none) ∧
          ∀ g ∈ c.definition.generated, w'.tree.file? g.path = none) := by
  obtain ⟨w₁, hsave, hsaves, -⟩ := exists_save v.project hc hk hclear
  have hpristine := hsaves.pristine? hc
  have hexec := Category.exec_regenerate_of_save hsave
  obtain ⟨r, w', hrebuild, hresult⟩ := exists_rebuild_allOrNothing hv hc.saved hk
    (hsaves.changes.clear hclear) hsaves.document hgenerator
  rw [hrebuild] at hexec
  refine ⟨r, w', hexec, ?_⟩
  rcases hresult with ⟨hr, outs, hbuilds, hfiles⟩ | ⟨hr, hput⟩
  · refine Or.inl ⟨hr, outs, ?_, hfiles⟩
    exact ((Category.Builds.saved_iff.1 hbuilds).congr hc.definition fun b hb =>
      (hpristine b hb).symm).outputs
  · refine Or.inr ⟨hr, fun b hb => ⟨?_, (hput.bound b hb).2⟩, hput.generated⟩
    rw [(hput.bound b hb).1, hpristine b hb]

namespace Starters

/-- A workshop in which all writes fail up to a time. -/
def sampleFaulty (working : Nat) : Workshop where
  project := ⟨"/project"⟩
  preprocessor := samplePreprocessor
  constants := []
  write rel text := do
    if (← look FileTree.clock) < working then throw (.ofText "no space left on device")
    writeAnnounced ⟨"/project"⟩ rel text

theorem sampleFaulty_writesOrFails (working : Nat) (ps : List Path) :
    (sampleFaulty working).WritesOrFails ps := by
  intro rel text w
  by_cases hworking : w.tree.clock < working
  · refine Or.inr ⟨.ofText "no space left on device", w, ?_, .refl ps _ w⟩
    show Action.exec (look _ >>= _) w = _
    rw [Action.exec_look_bind, if_pos hworking]
    rfl
  · refine Or.inl ?_
    show Action.exec (look _ >>= _) w = _
    rw [Action.exec_look_bind, if_neg hworking]
    rfl

/-- Starters that have not been saved. -/
def sampleUnsaved : Category :=
  { Category.ofKind .starters with
    store := ⟨CategoryKind.starters.documentPath, sampleRecords 12, none⟩
    trusted := true }

/-- The sources of starters, from which they can be built. -/
def sampleWorld : World where
  tree :=
    { nodes := [(["source"], .directory 0), (["source", "src"], .directory 0),
        (["source", "src", "starter_choose.c"], .file ⟨.text sampleArray.toList, 0⟩),
        (["source", "src", "battle_setup.c"], .file ⟨.text sampleCalling.toList, 0⟩)]
      clock := 1 }
  events := []

/-- A build in which the first attempt fails. -/
theorem exists_regenerate_allOrNothing_starters :
    ∃ r w', Run.exec (sampleUnsaved.regenerate (sampleFaulty 6)) sampleWorld =
        ((r, sampleUnsaved.saved), w') ∧
      (r = .ok () ∧ (∃ outs, sampleUnsaved.definition.outputs (sampleFaulty 6).constants
            sampleUnsaved.store.records
            (pristineText (sampleFaulty 6).project sampleWorld.tree) = .ok outs ∧
          ∀ p ∈ sampleUnsaved.definition.writtenPaths, ∃ o ∈ outs, Project.sourcePath o.1 = p ∧
            w'.tree.content? p = some (.text (banner ++ o.2))) ∨
        (∃ reason, r = .error ⟨.generationFailed sampleUnsaved.id reason, []⟩) ∧
          (∀ b ∈ sampleUnsaved.definition.bindings,
            w'.tree.content? b.file = b.pristine? sampleWorld.tree ∧
              w'.tree.file? b.backup = none) ∧
          ∀ g ∈ sampleUnsaved.definition.generated, w'.tree.file? g.path = none) :=
  exists_regenerate_allOrNothing (K := [.starters]) (sampleFaulty_writesOrFails 6 _) ⟨rfl, rfl⟩
    (by decide) (by decide +kernel) rfl

example : (Run.exec (sampleUnsaved.regenerate (sampleFaulty 6)) sampleWorld).1.1.isOk = true := by
  decide +kernel

end Starters

end TableSync
