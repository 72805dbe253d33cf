import Mathlib.Data.List.Forall2
import Mathlib.Data.List.Nodup
import TableSync.Proofs.Manager.Steps

/-!
# Each category in its turn

Work on all categories is work on each of them in its turn.  What the others do before and after
that turn leaves its files alone.

* `AreManaged` says that categories are of different kinds, each at its place.
* `Works` is work made of such steps, and `Works.invariant` carries over to it what every single
  step preserves.  A step is made where nothing stands in the way of files, which the steps keep, so
  an invariant may rest on that.
* `overCategories_works` says that work on all categories is of this kind, by induction on the
  categories that are left.
* `CategoryKind.Others` are the files that the others may change, which a category's own files are
  not (`not_others_own`).
* `overCategories_turns` takes work on all categories apart into turns: every category has one, and
  its outcome is the category that is there in the end.
* `Turn.mem_newSteps_iff` finds the steps that a category tells of among all: a step on it is told
  of exactly if it is told of in its turn, as the others tell of themselves only.
-/

set_option autoImplicit false

namespace TableSync

/-- The files that the work on the other categories may change. -/
def CategoryKind.Others (K : List CategoryKind) (k : CategoryKind) (p : Path) : Prop :=
  ∃ j ∈ K, j ≠ k ∧ j.Touches p

theorem CategoryKind.id_injective {j k : CategoryKind} (h : j.id = k.id) : j = k := by
  have hall : ∀ j ∈ all, ∀ k ∈ all, j.id = k.id → j = k := by decide
  exact hall j j.mem_all k k.mem_all h

variable {K : List CategoryKind} {k : CategoryKind} {p : Path}

/-- A category's own files are not touched by others. -/
theorem not_others_own (hk : k ∈ K) (hp : p ∈ k.ownPaths) : ¬ k.Others K p := by
  rintro ⟨j, -, hne, hown | hprocessed⟩
  · exact hne (CategoryKind.eq_of_mem_ownPaths hown hp)
  · exact not_under_processedDir (mem_trackedPaths_own hk hp) hprocessed

/-- Categories of different kinds, each at its place. -/
structure AreManaged (K : List CategoryKind) (cs : List Category) : Prop where
  /-- Each of them is at its place. -/
  managed : ∀ c ∈ cs, c.IsManaged
  /-- They are of these kinds. -/
  kinds : ∀ c ∈ cs, c.kind ∈ K
  /-- No two of them are of the same kind. -/
  distinct : (cs.map Category.kind).Nodup

theorem AreManaged.tail {c : Category} {cs : List Category} (h : AreManaged K (c :: cs)) :
    AreManaged K cs :=
  ⟨fun d hd => h.managed d (List.mem_cons_of_mem c hd),
    fun d hd => h.kinds d (List.mem_cons_of_mem c hd), (List.nodup_cons.1 h.distinct).2⟩

theorem AreManaged.kind_ne {c : Category} {cs : List Category} (h : AreManaged K (c :: cs)) :
    ∀ d ∈ cs, d.kind ≠ c.kind := by
  intro d hd heq
  refine (List.nodup_cons.1 h.distinct).1 ?_
  rw [← heq]
  exact List.mem_map_of_mem hd

/-- There is one category of a kind. -/
theorem AreManaged.eq_of_kind_eq {cs : List Category} (h : AreManaged K cs) {c d : Category}
    (hc : c ∈ cs) (hd : d ∈ cs) (heq : c.kind = d.kind) : c = d :=
  List.inj_on_of_nodup_map h.distinct hc hd heq

variable {step : Category → Run (Nat × Category)} {cs : List Category} {w : World}

theorem exec_overCategories_cons (step : Category → Run (Nat × Category)) (c : Category)
    (cs : List Category) (w : World) :
    Run.exec (overCategories step (c :: cs)) w =
      (((Run.exec (step c) w).1.1 + (Run.exec (overCategories step cs) (Run.exec (step c) w).2).1.1,
        (Run.exec (step c) w).1.2 ::
          (Run.exec (overCategories step cs) (Run.exec (step c) w).2).1.2),
        (Run.exec (overCategories step cs) (Run.exec (step c) w).2).2) := rfl

/-! ## What all steps preserve -/

/-- A tree has become another one by steps on categories. -/
inductive Works (K : List CategoryKind) : FileTree → FileTree → Prop
  | refl (t : FileTree) : Works K t t
  | step {t t' t'' : FileTree} (c : Category) (hc : c.IsManaged) (hk : c.kind ∈ K)
      (hclear : t.Clear (trackedPaths K)) (hacts : c.Acts K t t') (h : Works K t' t'') : Works K t t''

/-- **What every single step preserves is preserved by all work.** -/
theorem Works.invariant {I : FileTree → Prop} {t t' : FileTree} (h : Works K t t')
    (hI : ∀ (c : Category) (t t' : FileTree), c.IsManaged → c.kind ∈ K →
      t.Clear (trackedPaths K) → c.Acts K t t' → I t → I t') (ht : I t) : I t' := by
  induction h with
  | refl t => exact ht
  | step c hc hk hclear hacts h ih => exact ih (hI c _ _ hc hk hclear hacts ht)

theorem Works.trans {t t' t'' : FileTree} (h : Works K t t') (h' : Works K t' t'') :
    Works K t t'' := by
  induction h with
  | refl t => exact h'
  | step c hc hk hclear hacts h ih => exact .step c hc hk hclear hacts (ih h')

theorem Works.clear {t t' : FileTree} (h : Works K t t') (ht : t.Clear (trackedPaths K)) :
    t'.Clear (trackedPaths K) :=
  h.invariant (I := FileTree.Clear (trackedPaths K))
    (fun _ _ _ _ _ _ hacts hclear => hacts.changes.clear hclear) ht

theorem Works.clock {t t' : FileTree} (h : Works K t t') : t.clock ≤ t'.clock :=
  h.invariant (I := fun t' => t.clock ≤ t'.clock)
    (fun _ _ _ _ _ _ hacts hle => Nat.le_trans hle hacts.changes.clock) (Nat.le_refl _)

/-- Work on all categories is made of steps on single ones. -/
theorem overCategories_works (hstep : StepActs K step) (hcs : AreManaged K cs)
    (hclear : w.tree.Clear (trackedPaths K)) :
    Works K w.tree (Run.exec (overCategories step cs) w).2.tree := by
  induction cs generalizing w with
  | nil => exact .refl _
  | cons c cs ih =>
    have hc := hcs.managed c List.mem_cons_self
    have hk := hcs.kinds c List.mem_cons_self
    obtain ⟨-, hacts⟩ := hstep c w hc hk hclear
    rw [exec_overCategories_cons]
    exact .step c hc hk hclear hacts (ih hcs.tail (hacts.changes.clear hclear))

/-- Steps that leave the tree as it is, and count nothing. -/
theorem overCategories_rests {t : FileTree} {f : Category → Category}
    (hstep : ∀ c ∈ cs, ∀ w : World, w.tree = t →
      ∃ w', Run.exec (step c) w = ((0, f c), w') ∧ w'.tree = t) (hw : w.tree = t) :
    ∃ w', Run.exec (overCategories step cs) w = ((0, cs.map f), w') ∧ w'.tree = t := by
  induction cs generalizing w with
  | nil => exact ⟨w, rfl, hw⟩
  | cons c cs ih =>
    obtain ⟨w₁, hexec, htree⟩ := hstep c List.mem_cons_self w hw
    obtain ⟨w', hexec', htree'⟩ := ih (fun d hd => hstep d (List.mem_cons_of_mem c hd)) htree
    refine ⟨w', ?_, htree'⟩
    rw [exec_overCategories_cons, hexec, hexec']
    rfl

/-- Steps that leave every tree as it is. -/
theorem overCategories_tree (hstep : ∀ c w, (Run.exec (step c) w).2.tree = w.tree) :
    (Run.exec (overCategories step cs) w).2.tree = w.tree := by
  induction cs generalizing w with
  | nil => rfl
  | cons c cs ih =>
    rw [exec_overCategories_cons]
    exact ih.trans (hstep c w)

/-- Work on some categories keeps to their files. -/
theorem overCategories_changes (hstep : StepActs K step) (hcs : AreManaged K cs)
    (hclear : w.tree.Clear (trackedPaths K)) :
    w.tree.Changes (trackedPaths K) (fun p => ∃ c ∈ cs, c.kind.Touches p)
      (Run.exec (overCategories step cs) w).2.tree := by
  induction cs generalizing w with
  | nil => exact .refl _ _ _
  | cons c cs ih =>
    obtain ⟨-, hacts⟩ := hstep c w (hcs.managed c List.mem_cons_self)
      (hcs.kinds c List.mem_cons_self) hclear
    have hrest := ih hcs.tail (hacts.changes.clear hclear)
    rw [exec_overCategories_cons]
    refine (hacts.changes.mono fun p hp => ⟨c, List.mem_cons_self, hp⟩).trans (hrest.mono ?_)
    rintro p ⟨d, hd, hp⟩
    exact ⟨d, List.mem_cons_of_mem c hd, hp⟩

/-! ## What is told

The steps that a piece of work tells of come after all that has been told, and name the category
that they are about. -/

/-- A step on a category tells of steps on that category only. -/
def TellsOwn (K : List CategoryKind) (step : Category → Run (Nat × Category)) : Prop :=
  ∀ (c : Category) (w : World), c.IsManaged → c.kind ∈ K → w.tree.Clear (trackedPaths K) →
    ∃ steps, Told steps w (Run.exec (step c) w).2 ∧ ∀ s ∈ steps, s.category = c.id

theorem overCategories_told (htells : TellsOwn K step) (hstep : StepActs K step)
    (hcs : AreManaged K cs) (hclear : w.tree.Clear (trackedPaths K)) :
    ∃ steps, Told steps w (Run.exec (overCategories step cs) w).2 ∧
      ∀ s ∈ steps, ∃ c ∈ cs, s.category = c.id := by
  induction cs generalizing w with
  | nil => exact ⟨[], .refl w, by simp⟩
  | cons c cs ih =>
    have hc := hcs.managed c List.mem_cons_self
    have hk := hcs.kinds c List.mem_cons_self
    obtain ⟨steps, hfirst, hown⟩ := htells c w hc hk hclear
    obtain ⟨steps', hrest, hown'⟩ :=
      ih hcs.tail ((hstep c w hc hk hclear).2.changes.clear hclear)
    refine ⟨steps ++ steps', hfirst.trans hrest, fun s hs => ?_⟩
    rcases List.mem_append.1 hs with hs | hs
    · exact ⟨c, List.mem_cons_self, hown s hs⟩
    · obtain ⟨d, hd, heq⟩ := hown' s hs
      exact ⟨d, List.mem_cons_of_mem c hd, heq⟩

/-- Regenerating a category where that is due tells of one step. -/
theorem regenerateIfDue_tellsOwn {v : Workshop} (hv : v.write = writeAnnounced v.project)
    (dryRun : Bool) : TellsOwn K (Manager.regenerateIfDue v dryRun) := by
  intro c w hc hk hclear
  by_cases hrests : c.IsDue w.tree → dryRun = true
  · obtain ⟨n, w', status, detail, hexec, -, -, htold, -⟩ :=
      exists_regenerateIfDue_of_rests dryRun hrests
    rw [hexec]
    exact ⟨_, htold, fun s hs => by rw [List.mem_singleton.1 hs]⟩
  · obtain ⟨hdue, hdry⟩ := Classical.not_imp.1 hrests
    obtain rfl : dryRun = false := by simpa using hdry
    obtain ⟨r, w', hexec, -, htold⟩ := exists_regenerateIfDue_of_isDue hv hc hk hclear hdue
    rw [hexec]
    refine ⟨_, htold, fun s hs => ?_⟩
    rw [List.mem_singleton.1 hs]
    cases r <;> rfl

/-! ## Turns

A turn is said of four worlds: those before and after the work on all, and those before and after
the step in between.  What is said of the other categories is said of the first two and of the last
two. -/

/-- The turn of a category: the world before and after its step, between the worlds before and after
the work on all categories. -/
structure Turn (K : List CategoryKind) (step : Category → Run (Nat × Category)) (c c' : Category)
    (w w₁ w₂ w' : World) : Prop where
  /-- The category is worked on between the second world and the third. -/
  exec : ∃ n, Run.exec (step c) w₁ = ((n, c'), w₂)
  /-- Its outcome is in its place. -/
  succeeds : c.Succeeds c'
  /-- What is done before changes files of other categories only. -/
  before : w.tree.Changes (trackedPaths K) (c.kind.Others K) w₁.tree
  /-- What is done after changes files of other categories only. -/
  after : w₂.tree.Changes (trackedPaths K) (c.kind.Others K) w'.tree
  /-- Before and after, nothing is told of it, if every step tells of its own category. -/
  told : TellsOwn K step → ∃ first last, Told first w w₁ ∧ Told last w₂ w' ∧
    ∀ s ∈ first ++ last, s.category ≠ c.id

/-- **Work on all categories is work on each in its turn.** -/
theorem overCategories_turns (hstep : StepActs K step) (hcs : AreManaged K cs)
    (hclear : w.tree.Clear (trackedPaths K)) :
    List.Forall₂ (fun c c' => ∃ w₁ w₂, Turn K step c c' w w₁ w₂
      (Run.exec (overCategories step cs) w).2) cs (Run.exec (overCategories step cs) w).1.2 := by
  induction cs generalizing w with
  | nil => exact .nil
  | cons c cs ih =>
    have hc := hcs.managed c List.mem_cons_self
    have hk := hcs.kinds c List.mem_cons_self
    obtain ⟨hsucceeds, hacts⟩ := hstep c w hc hk hclear
    have hfirst := hacts.changes
    have hclear₁ := hfirst.clear hclear
    have hrest := overCategories_changes hstep hcs.tail hclear₁
    have hid : ∀ d ∈ cs, d.id ≠ c.id := fun d hd heq =>
      hcs.kind_ne d hd (CategoryKind.id_injective heq)
    rw [exec_overCategories_cons]
    refine List.Forall₂.cons ⟨w, _, ⟨_, rfl⟩, hsucceeds, .refl _ _ _, hrest.mono ?_,
      fun htells => ?_⟩ ?_
    · rintro p ⟨d, hd, hp⟩
      exact ⟨d.kind, hcs.tail.kinds d hd, hcs.kind_ne d hd, hp⟩
    · obtain ⟨last, htold, hothers⟩ := overCategories_told htells hstep hcs.tail hclear₁
      refine ⟨[], last, .refl w, htold, fun s hs => ?_⟩
      obtain ⟨d, hd, heq⟩ := hothers s hs
      rw [heq]
      exact hid d hd
    · -- the turn of the first category is before those of the others
      have hothers : ∀ d ∈ cs, d.kind ≠ c.kind ∧ d.id ≠ c.id := fun d hd =>
        ⟨hcs.kind_ne d hd, hid d hd⟩
      refine ((List.forall₂_and_left _ _).2 ⟨hothers, ih hcs.tail hclear₁⟩).imp ?_
      rintro d d' ⟨⟨hne, hidne⟩, w₁, w₂, hturn⟩
      have hbefore : w.tree.Changes (trackedPaths K) (d.kind.Others K)
          (Run.exec (step c) w).2.tree :=
        hfirst.mono fun p hp => ⟨c.kind, hk, Ne.symm hne, hp⟩
      refine ⟨w₁, w₂, hturn.exec, hturn.succeeds, hbefore.trans hturn.before, hturn.after,
        fun htells => ?_⟩
      obtain ⟨first, last, htold, hafter, hothers⟩ := hturn.told htells
      obtain ⟨own, htoldOwn, hown⟩ := htells c w hc hk hclear
      refine ⟨own ++ first, last, htoldOwn.trans htold, hafter, fun s hs => ?_⟩
      rw [List.append_assoc] at hs
      rcases List.mem_append.1 hs with hs | hs
      · rw [hown s hs]
        exact Ne.symm hidne
      · exact hothers s hs

/-- Every category has its turn. -/
theorem exists_turn (hstep : StepActs K step) (hcs : AreManaged K cs)
    (hclear : w.tree.Clear (trackedPaths K)) {c : Category} (hc : c ∈ cs) :
    ∃ c' w₁ w₂, Turn K step c c' w w₁ w₂ (Run.exec (overCategories step cs) w).2 := by
  obtain ⟨i, hi, rfl⟩ := List.mem_iff_getElem.1 hc
  have hturns := overCategories_turns hstep hcs hclear
  obtain ⟨w₁, w₂, hturn⟩ := (List.forall₂_iff_get.1 hturns).2 i hi (hturns.length_eq ▸ hi)
  exact ⟨_, w₁, w₂, hturn⟩

/-- Every category that is there after work on all of them has had its turn. -/
theorem exists_turn_of_mem_result (hstep : StepActs K step) (hcs : AreManaged K cs)
    (hclear : w.tree.Clear (trackedPaths K)) {c' : Category}
    (hc' : c' ∈ (Run.exec (overCategories step cs) w).1.2) :
    ∃ c ∈ cs, ∃ w₁ w₂, Turn K step c c' w w₁ w₂ (Run.exec (overCategories step cs) w).2 := by
  obtain ⟨i, hi, rfl⟩ := List.mem_iff_getElem.1 hc'
  have hturns := overCategories_turns hstep hcs hclear
  have hi' : i < cs.length := hturns.length_eq ▸ hi
  obtain ⟨w₁, w₂, hturn⟩ := (List.forall₂_iff_get.1 hturns).2 i hi' hi
  exact ⟨_, List.getElem_mem hi', w₁, w₂, hturn⟩

/-- A step on a category is told of in its turn. -/
theorem Turn.mem_newSteps_iff {c c' : Category} {w₁ w₂ w' : World} {own : List Step} {s : Step}
    (h : Turn K step c c' w w₁ w₂ w') (htells : TellsOwn K step) (hown : Told own w₁ w₂)
    (hs : s.category = c.id) : s ∈ newSteps w w' ↔ s ∈ own := by
  obtain ⟨first, last, hfirst, hlast, hothers⟩ := h.told htells
  rw [((hfirst.trans hown).trans hlast).newSteps_eq, List.mem_append, List.mem_append]
  constructor
  · rintro ((hmem | hmem) | hmem)
    · exact absurd hs (hothers s (List.mem_append_left _ hmem))
    · exact hmem
    · exact absurd hs (hothers s (List.mem_append_right _ hmem))
  · exact fun hmem => Or.inl (Or.inr hmem)

/-- The categories are still managed after work on all of them. -/
theorem AreManaged.overCategories (hstep : StepActs K step) (hcs : AreManaged K cs)
    (hclear : w.tree.Clear (trackedPaths K)) :
    (Run.exec (TableSync.overCategories step cs) w).1.2.map Category.kind =
        cs.map Category.kind ∧
      ∀ c ∈ (Run.exec (TableSync.overCategories step cs) w).1.2, c.IsManaged := by
  have hturns := overCategories_turns hstep hcs hclear
  have hmanaged := hcs.managed
  clear hcs hclear
  generalize (Run.exec (TableSync.overCategories step cs) w).1.2 = cs' at hturns
  generalize (Run.exec (TableSync.overCategories step cs) w).2 = w' at hturns
  induction hturns with
  | nil => exact ⟨rfl, by simp⟩
  | @cons c c' cs cs' hturn hturns ih =>
    obtain ⟨w₁, w₂, hturn⟩ := hturn
    obtain ⟨hkinds, hrest⟩ := ih fun d hd => hmanaged d (List.mem_cons_of_mem c hd)
    refine ⟨?_, fun d hd => ?_⟩
    · rw [List.map_cons, List.map_cons, hkinds, hturn.succeeds.kind]
    · rcases List.mem_cons.1 hd with rfl | hd
      · exact hturn.succeeds.managed (hmanaged c List.mem_cons_self)
      · exact hrest d hd

end TableSync
