import TableSync.Proofs.Data.Path
import TableSync.Proofs.Manager.Answer

/-!
# Setting a value in a category

Setting a value looks first whether its path leads through a value that is no record, and refuses to
go on if it does.  That look goes by the starts of the path, one after the other, and the value is
set by following the path; both agree on what is in the way.

* `Record.IsBlocked` says that a path leads through a value that is no record, and
  `Manager.blockedAt?_eq_none_iff` that this is what is looked for.
* `Record.IsSetAt.scalar` says that where nothing is in the way, no such value is lost off the end
  of the path.
* `Manager.withRecordsOf` is the manager with other records in one category, and
  `Manager.update_extracted` says that an edit leads to it: kinds differ, so no other category is
  replaced.
* `Operation.set_of_blocked` and `Operation.set_of_free` are the two cases, and `Operation.set_lens`
  puts them together for a category that is loaded.

A category that is not loaded refuses every edit, which is part of what is said of operations that
are aimed at it.
-/

set_option autoImplicit false

namespace TableSync

variable {r r' : Record} {p q path : List String} {v x : Value}

/-! ## What is in the way -/

/-- A path leads through a value that is no record. -/
def Record.IsBlocked (r : Record) (path : List String) : Prop :=
  ∃ start x, start <+: path ∧ start ≠ path ∧ r.getPath? start = some x ∧ x.record? = none

namespace Manager

/-- What is looked for is a start of the path, and there is a value other than a record. -/
theorem blockedAt?_spec {start : List String} (h : blockedAt? r path = some start) :
    start <+: path ∧ start ≠ path ∧ ∃ x, r.getPath? start = some x ∧ x.record? = none := by
  have hstart := Path.mem_starts.1 (List.mem_of_find?_eq_some h)
  have hfound := List.find?_some h
  cases hget : r.getPath? start with
  | none => simp [hget] at hfound
  | some x =>
    have hpath : path ≠ [] := by
      rintro rfl
      rw [List.dropLast_nil, List.prefix_nil] at hstart
      rw [hstart] at hget
      cases hget
    refine ⟨hstart.trans (List.dropLast_prefix path), ?_, x, rfl, ?_⟩
    · rintro rfl
      exact Path.not_prefix_dropLast hpath hstart
    · cases x with
      | record inner => simp [hget] at hfound
      | _ => rfl

/-- Nothing is found exactly if nothing is in the way. -/
theorem blockedAt?_eq_none_iff : blockedAt? r path = none ↔ ¬ r.IsBlocked path := by
  constructor
  · rintro h ⟨start, x, hstart, hne, hget, hrecord⟩
    have hmem := Path.mem_starts.2 ((Path.eq_or_prefix_dropLast hstart).resolve_left hne)
    have hnot := List.find?_eq_none.1 h start hmem
    cases x with
    | record inner => cases hrecord
    | _ => simp [hget] at hnot
  · intro h
    cases hblocked : blockedAt? r path with
    | none => rfl
    | some start =>
      obtain ⟨hstart, hne, x, hget, hrecord⟩ := blockedAt?_spec hblocked
      exact absurd ⟨start, x, hstart, hne, hget, hrecord⟩ h

/-- Among categories of different kinds, the one of a kind is replaced and no other. -/
theorem replaceCategory_eq_map {c : Category} {cs : List Category}
    (hdistinct : (cs.map Category.kind).Nodup) :
    replaceCategory c cs = cs.map fun d => if d.kind = c.kind then c else d := by
  induction cs with
  | nil => rfl
  | cons d rest ih =>
    obtain ⟨hnotMem, hrest⟩ := List.nodup_cons.1 hdistinct
    rw [replaceCategory, List.map_cons]
    split
    · next heq =>
      have hothers : ∀ e ∈ rest, e.kind ≠ c.kind := fun e he hkind =>
        hnotMem (heq ▸ hkind ▸ List.mem_map_of_mem he)
      refine congrArg (c :: ·) (List.map_id'' (fun _ => rfl) rest |>.symm.trans ?_)
      exact List.map_congr_left fun e he => (if_neg (hothers e he)).symm
    · rw [ih hrest]

/-- The manager with other records in the category of a kind. -/
def withRecordsOf (m : Manager) (kind : CategoryKind) (records : Record) : Manager where
  project := m.project
  constants := m.constants
  preprocessor := m.preprocessor
  categories := m.categories.map fun d =>
    if d.kind = kind then { d with store := { d.store with records } } else d

/-- The records of a category that is loaded are changed, and those of no other one. -/
theorem update_extracted {m : Manager} {kind : CategoryKind} {c : Category}
    (hdistinct : m.kinds.Nodup) (hloaded : m.loaded? kind = some c) (records : Record) :
    m.update (c.extracted records) = m.withRecordsOf kind records := by
  obtain ⟨hc, rfl, -⟩ := loaded?_spec hloaded
  have hcategories : replaceCategory (c.extracted records) m.categories = m.categories.map fun d =>
      if d.kind = c.kind then d.extracted records else d := by
    rw [replaceCategory_eq_map hdistinct]
    refine List.map_congr_left fun d hd => ?_
    show (if d.kind = c.kind then c.extracted records else d) = _
    split
    · next hkind => rw [List.inj_on_of_nodup_map hdistinct hd hc hkind]
    · rfl
  rw [update, hcategories]
  rfl

end Manager

/-- Where nothing is in the way, a value that is no record stays unless the path leads to it. -/
theorem Record.IsSetAt.scalar (h : r.IsSetAt r' p v) (hfree : ¬ r.IsBlocked p) (hq : ¬ p <+: q)
    (hget : r.getPath? q = some x) (hrecord : x.record? = none) : r'.getPath? q = some x := by
  rw [h.frame q hq fun hqp => hfree ⟨q, x, hqp, fun heq => hq (heq ▸ List.prefix_refl q), hget,
    hrecord⟩]
  exact hget

/-! ## Setting -/

namespace Operation

variable {s : Session} {kind : CategoryKind} {c : Category}

/-- What is in the way is named, and nothing changes. -/
theorem set_of_blocked (hloaded : s.manager.loaded? kind = some c) {start : List String}
    (hblocked : Manager.blockedAt? c.store.records path = some start) (v : Value) :
    let shown := ".".intercalate start
    (set kind path v).run s = s ∧
      (set kind path v).answer s = .failed (.ofText s!"'{shown}' is not a record") := by
  intro shown
  have hrefused : setEdit path v c = .error (.ofText s!"'{shown}' is not a record") := by
    rw [setEdit, hblocked]
  have hedit := (set_eq kind path v s).trans (edited_of_error hloaded hrefused)
  exact ⟨congrArg Prod.fst hedit, congrArg Prod.snd hedit⟩

theorem set_of_free (hdistinct : s.manager.kinds.Nodup)
    (hloaded : s.manager.loaded? kind = some c)
    (hfree : Manager.blockedAt? c.store.records path = none) (v : Value) :
    (set kind path v).run s = { s with
        manager := s.manager.withRecordsOf kind (c.store.records.exchangePath path v).2 } ∧
      (set kind path v).answer s = .value (c.store.records.exchangePath path v).1 := by
  have haccepted : setEdit path v c = .ok (.value (c.store.records.exchangePath path v).1,
      (c.store.records.exchangePath path v).2) := by
    rw [setEdit, hfree]
  have hedit := (set_eq kind path v s).trans (edited_of_ok hloaded haccepted)
  rw [Manager.update_extracted hdistinct hloaded] at hedit
  exact ⟨congrArg Prod.fst hedit, congrArg Prod.snd hedit⟩

/-- **Setting a value is a lens with a frame**, in a record and in a category that is loaded.

An exchange at the end of a path gives the value that is read there before, and leads to a record
in which the other value is read; where another path parts from it nothing changes, and the records
on the way keep their keys in order, with a new one at the end.  In a category this is done exactly
if the path does not lead through a value that is no record; then no such value is lost off the end
of the path.  If it is refused, nothing changes. -/
theorem set_lens (hdistinct : s.manager.kinds.Nodup) (hloaded : s.manager.loaded? kind = some c)
    (path : List String) (v : Value) :
    (∀ (r : Record) (p : List String) (v : Value), p ≠ [] →
      (r.exchangePath p v).1 = r.getPath? p ∧ r.IsSetAt (r.exchangePath p v).2 p v) ∧
    ((∃ f, (set kind path v).answer s = .failed f) ↔ c.store.records.IsBlocked path) ∧
    (∀ f, (set kind path v).answer s = .failed f → (set kind path v).run s = s) ∧
    (¬ c.store.records.IsBlocked path →
      (set kind path v).answer s = .value (c.store.records.exchangePath path v).1 ∧
      (set kind path v).run s = { s with
        manager := s.manager.withRecordsOf kind (c.store.records.exchangePath path v).2 } ∧
      ∀ q x, ¬ path <+: q → c.store.records.getPath? q = some x → x.record? = none →
        (c.store.records.exchangePath path v).2.getPath? q = some x) := by
  have hlens : ∀ (r : Record) (p : List String) (v : Value), p ≠ [] →
      (r.exchangePath p v).1 = r.getPath? p ∧ r.IsSetAt (r.exchangePath p v).2 p v := by
    intro r p v hp
    rw [r.exchangePath_eq]
    exact ⟨rfl, r.isSetAt_setPath hp v⟩
  refine ⟨hlens, ?_⟩
  -- the look for what is in the way decides between the two outcomes
  cases hblocked : Manager.blockedAt? c.store.records path with
  | some start =>
    obtain ⟨hrun, hanswer⟩ := set_of_blocked hloaded hblocked v
    have his : c.store.records.IsBlocked path := by
      by_contra hnot
      rw [Manager.blockedAt?_eq_none_iff.2 hnot] at hblocked
      cases hblocked
    exact ⟨⟨fun _ => his, fun _ => ⟨_, hanswer⟩⟩, fun _ _ => hrun, fun hnot => absurd his hnot⟩
  | none =>
    obtain ⟨hrun, hanswer⟩ := set_of_free hdistinct hloaded hblocked v
    have hfree := Manager.blockedAt?_eq_none_iff.1 hblocked
    refine ⟨⟨?_, fun his => absurd his hfree⟩, ?_, fun _ => ⟨hanswer, hrun, ?_⟩⟩
    · rintro ⟨f, hf⟩
      cases hanswer.symm.trans hf
    · intro f hf
      cases hanswer.symm.trans hf
    · intro q x hq hget hrecord
      have hpath : path ≠ [] := by
        rintro rfl
        exact hq List.nil_prefix
      exact (hlens c.store.records path v hpath).2.scalar hfree hq hget hrecord

/-- Abilities with one record. -/
def namedAbilities : Category :=
  { Category.ofKind .abilities with
    store := ⟨CategoryKind.abilities.documentPath,
      ⟨[("ABILITY_STENCH", .record ⟨[("name", .str "Stench"), ("id", .int 1)]⟩)]⟩, none⟩
    trusted := true }

/-- These abilities, and items without any record. -/
def namedSession : Session where
  manager := ⟨⟨"/project"⟩, [], Starters.samplePreprocessor,
    [namedAbilities, { Category.ofKind .items with trusted := true }]⟩
  world := ⟨{}, []⟩

/-- The number of an ability is set, but no field of its name. -/
theorem set_lens_namedSession :
    namedSession.manager.kinds.Nodup ∧
    namedSession.manager.loaded? .abilities = some namedAbilities ∧
    ((set .abilities ["ABILITY_STENCH", "id"] (.int 2)).answer namedSession =
        .value (some (.int 1)) ∧
      (set .abilities ["ABILITY_STENCH", "id"] (.int 2)).run namedSession =
        ⟨namedSession.manager.withRecordsOf .abilities
          ⟨[("ABILITY_STENCH", .record ⟨[("name", .str "Stench"), ("id", .int 2)]⟩)]⟩,
          namedSession.world⟩) ∧
    namedAbilities.store.records.IsBlocked ["ABILITY_STENCH", "name", "en"] ∧
    (∃ f, (set .abilities ["ABILITY_STENCH", "name", "en"] (.str "")).answer namedSession =
      .failed f) ∧
    (set .abilities ["ABILITY_STENCH", "name", "en"] (.str "")).run namedSession = namedSession := by
  have hdistinct : namedSession.manager.kinds.Nodup := by decide
  have hloaded : namedSession.manager.loaded? .abilities = some namedAbilities := rfl
  have hfree : ¬ namedAbilities.store.records.IsBlocked ["ABILITY_STENCH", "id"] :=
    Manager.blockedAt?_eq_none_iff.1 (by decide)
  have hblocked : namedAbilities.store.records.IsBlocked ["ABILITY_STENCH", "name", "en"] :=
    ⟨["ABILITY_STENCH", "name"], .str "Stench", by decide, by decide, rfl, rfl⟩
  obtain ⟨-, -, -, hset⟩ := set_lens hdistinct hloaded ["ABILITY_STENCH", "id"] (.int 2)
  obtain ⟨-, hfails, hstays, -⟩ :=
    set_lens hdistinct hloaded ["ABILITY_STENCH", "name", "en"] (.str "")
  obtain ⟨hanswer, hrun, -⟩ := hset hfree
  obtain ⟨f, hf⟩ := hfails.2 hblocked
  exact ⟨hdistinct, hloaded, ⟨hanswer, hrun⟩, hblocked, ⟨f, hf⟩, hstays f hf⟩

end Operation

end TableSync
