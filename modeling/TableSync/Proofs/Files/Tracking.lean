import TableSync.Proofs.Files.Store

/-!
# Dirty tracking

The records of a document are kept three times: in its file, in its store as they were when they
were last read or written, and in its store as they are now.  Each operation brings some of the
three together, and any of them may fail.

* `StoreOperation.run` is one operation on a store, with a `Disk` that may refuse a step of it.
* `StoreSession.Reached` says which sessions come from a load or from an empty store by such
  operations.  Work elsewhere may come in between, as long as it leaves the document alone.
* `StoreSession.IsExact` is what every operation keeps: a document that is there holds the records
  that were read or written last, and the store remembers them.  `StoreSession.IsExact.run` is one
  operation, and `StoreSession.Reached.isExact` a whole session.
* `StoreSession.IsWritten` and `StoreSession.IsKept` are the two outcomes of a write, of which there
  is no third one (`StoreSession.IsExact.forceSave_cases`).
* `StoreSession.Reached.tracks` is what follows from it for a session: being dirty is exact.

That a document is read back as it was written is asked of what is written (`Record.RoundTrips`), as
not all records have such a document.
-/

set_option autoImplicit false

namespace TableSync

variable {project : Project}

/-! ## Sessions

The records that have been read or written are kept in a session as a list, so that what the store
remembers can be compared with a history, and not with itself. -/

/-- A record that is read back from its document. -/
def Record.RoundTrips (r : Record) : Prop := Record.parse? r.document = some r

instance (r : Record) : Decidable r.RoundTrips :=
  inferInstanceAs (Decidable (Record.parse? r.document = some r))

/-- The records in the document at a path. -/
def documentRecords? (t : FileTree) (p : Path) : Option Record :=
  (t.readText p).toOption.bind Record.parse?

/-- A store at work on its document, with the records that have been read from the document or
written to it, the latest first. -/
structure StoreSession where
  /-- The store. -/
  store : Store
  /-- The world with the document. -/
  world : World
  /-- The records that have been read or written, the latest first. -/
  known : List Record := []

/-- What is done with a store or with its document. -/
inductive StoreOperation
  | load
  | replace (records : Record)
  | edit (f : Record → Record)
  | save
  | forceSave
  | delete

namespace StoreOperation

/-- An operation, and whether it has written the document. -/
def run (disk : Disk) (project : Project) :
    StoreOperation → StoreSession → Except Failure Bool × StoreSession
  | .load, s =>
    match Action.exec (Store.load project s.store.path) s.world with
    | (.ok store, w) =>
      (.ok false, ⟨store, w, (documentRecords? w.tree s.store.path).toList ++ s.known⟩)
    | (.error e, w) => (.error e, { s with world := w })
  | .replace records, s => (.ok false, { s with store := { s.store with records } })
  | .edit f, s => (.ok false, { s with store := { s.store with records := f s.store.records } })
  | .save, s =>
    match Action.exec (s.store.saveOn disk project) s.world with
    | (.ok (store, written), w) =>
      (.ok written, ⟨store, w, if written then s.store.records :: s.known else s.known⟩)
    | (.error e, w) => (.error e, { s with world := w })
  | .forceSave, s =>
    match Action.exec (s.store.forceSaveOn disk project) s.world with
    | (.ok store, w) => (.ok true, ⟨store, w, s.store.records :: s.known⟩)
    | (.error e, w) => (.error e, { s with world := w })
  | .delete, s =>
    match s.world.tree.remove s.store.path with
    | .ok tree => (.ok false, { s with world := { s.world with tree } })
    | .error e => (.error ⟨.system e, []⟩, s)

/-- Whether an operation may write the document. -/
def writes : StoreOperation → Bool
  | .save => true
  | .forceSave => true
  | _ => false

end StoreOperation

namespace StoreSession

/-- A session over the document at a path: it starts with a load, or with an empty store where
there is no document; what it writes is read back as it is, and others leave the document alone. -/
inductive Reached (project : Project) (path : Path) : StoreSession → Prop
  | loaded {w : World} {store : Store} (h : Store.read project w.tree path = .ok store) :
    Reached project path ⟨store, w, (documentRecords? w.tree path).toList⟩
  | empty {w : World} (h : w.tree.node? path = none) :
    Reached project path ⟨.empty path, w, []⟩
  | operation {s : StoreSession} (hs : Reached project path s) (disk : Disk) (op : StoreOperation)
    (h : op.writes = true → s.store.records.RoundTrips) :
    Reached project path (op.run disk project s).2
  | elsewhere {s : StoreSession} (hs : Reached project path s) {w : World}
    (h : w.tree.node? path = s.world.tree.node? path) :
    Reached project path { s with world := w }

/-- What holds throughout a session: a document that is there holds the records that were read or
written last, and the store remembers them. -/
structure IsExact (path : Path) (s : StoreSession) : Prop where
  /-- The store is that of the document. -/
  place : s.store.path = path
  /-- What is at the path is a file with a document of the records that were read or written last,
  and the store remembers these. -/
  document : ∀ node, s.world.tree.node? path = some node → ∃ text time records,
    node = .file ⟨.text text, time⟩ ∧ Record.parse? text = some records ∧
      s.store.saved? = some records ∧ s.known.head? = some records

/-- A document has been written: it holds the records, at a time of its own, the store is clean,
and who loads the document has the same store. -/
structure IsWritten (project : Project) (path : Path) (s s' : StoreSession) : Prop where
  /-- The store remembers the records that it has. -/
  store : s'.store = ⟨path, s.store.records, some s.store.records⟩
  /-- The document holds these records, at a time within the step. -/
  document : ∃ time, s.world.tree.clock ≤ time ∧ time < s'.world.tree.clock ∧
    s'.world.tree.node? path = some (.file ⟨.text s.store.records.document, time⟩)
  /-- The store is not dirty. -/
  clean : s'.store.isDirty s'.world.tree = false
  /-- Loading the document gives the same store, if the records are read back from it. -/
  fresh : s.store.records.RoundTrips →
    Action.exec (Store.load project path) s'.world = (.ok s'.store, s'.world)

/-- A document has not been written, and neither it nor the store has changed. -/
structure IsKept (path : Path) (s s' : StoreSession) : Prop where
  /-- The store is as it was. -/
  store : s'.store = s.store
  /-- What is at the path is as it was. -/
  document : s'.world.tree.node? path = s.world.tree.node? path
  /-- Nothing has been read or written. -/
  known : s'.known = s.known

variable {path : Path} {s : StoreSession} {disk : Disk}

theorem IsExact.ne_nil (h : s.IsExact path) : path ≠ [] := by
  rintro rfl
  obtain ⟨_, _, _, hnode, -⟩ := h.document (.directory 0) rfl
  cases hnode

/-! ## One operation -/

theorem isExact_of_read {t : FileTree} {store : Store} {es : List Event} {known : List Record}
    (h : Store.read project t path = .ok store) :
    IsExact path ⟨store, ⟨t, es⟩, (documentRecords? t path).toList ++ known⟩ := by
  refine ⟨Store.path_of_read h, fun node hnode => ?_⟩
  have hnode : t.node? path = some node := hnode
  rw [Store.read] at h
  split at h
  · next hread =>
    rw [FileTree.node?_eq_none_of_readText hread] at hnode
    cases hnode
  · cases h
  · next text hread =>
    obtain ⟨time, hfile⟩ := FileTree.node?_of_readText hread
    cases hparse : Record.parse? text with
    | none =>
      rw [hparse] at h
      cases h
    | some records =>
      rw [hparse] at h
      refine ⟨text, time, records, Option.some.inj (hnode.symm.trans hfile), hparse, ?_, ?_⟩
      · rw [← Except.ok.inj h]
      · rw [documentRecords?, hread]
        simp [Except.toOption, hparse]

/-- A write, or an attempt at one, over a document that is exact. -/
theorem IsExact.forceSave_cases (h : s.IsExact path) (disk : Disk) (project : Project) :
    (∃ s', StoreOperation.forceSave.run disk project s = (.ok true, s') ∧
      s.IsWritten project path s' ∧ s'.known = s.store.records :: s.known) ∨
    ∃ e s', StoreOperation.forceSave.run disk project s = (.error e, s') ∧ s.IsKept path s' := by
  have hne : ¬ path <+: path.dropLast := Path.not_prefix_dropLast h.ne_nil
  obtain ⟨t, hdirs, hexec⟩ | ⟨e, t, ht, hexec⟩ :=
    Store.exec_forceSaveOn_cases disk project s.store s.world
  · rw [h.place] at hdirs hexec
    refine Or.inl ⟨_, by rw [StoreOperation.run, hexec], ?_, rfl⟩
    have hclock := (FileTree.opens_of_makeDirs hdirs).clock
    have hnode : (t.putContent path (.text s.store.records.document)).node? path =
        some (.file ⟨.text s.store.records.document, t.clock⟩) := by
      rw [FileTree.putContent, FileTree.node?_put h.ne_nil, if_pos rfl]
    refine ⟨rfl, ⟨t.clock, hclock, Nat.lt_succ_self _, hnode⟩, ?_, fun hround => ?_⟩
    · refine Store.isDirty_eq_false_iff.2 ⟨rfl, ?_⟩
      simp only [FileTree.contains, hnode, Option.isSome_some]
    · rw [exec_load, Store.read_of_document hnode rfl hround]
  · refine Or.inr ⟨e, { s with world := { s.world with tree := t } },
      by rw [StoreOperation.run, hexec], rfl, ?_, rfl⟩
    obtain rfl | hdirs := ht
    · rfl
    · rw [h.place] at hdirs
      exact FileTree.node?_of_makeDirs hdirs hne

/-- A store that is dirty is saved by force. -/
theorem run_save_of_dirty (project : Project) (h : s.store.isDirty s.world.tree = true) :
    StoreOperation.save.run disk project s = StoreOperation.forceSave.run disk project s := by
  rw [StoreOperation.run, StoreOperation.run, Store.exec_saveOn, if_pos h]
  cases Action.exec (s.store.forceSaveOn disk project) s.world with
  | mk r w => cases r <;> rfl

/-- A store that is clean is not saved. -/
theorem run_save_of_clean (disk : Disk) (project : Project)
    (h : s.store.isDirty s.world.tree = false) :
    StoreOperation.save.run disk project s = (.ok false, s) := by
  rw [StoreOperation.run, Store.exec_saveOn, if_neg (by simp [h])]
  rfl

/-- Who loads the document of a clean store has the same store. -/
theorem IsExact.load_of_clean (hs : s.IsExact path) (project : Project)
    (h : s.store.isDirty s.world.tree = false) :
    Action.exec (Store.load project path) s.world = (.ok s.store, s.world) := by
  obtain ⟨hclean, hcontains⟩ := Store.isDirty_eq_false_iff.1 h
  rw [hs.place] at hcontains
  obtain ⟨node, hnode⟩ := Option.isSome_iff_exists.1 hcontains
  obtain ⟨text, time, records, rfl, hparse, hsaved, -⟩ := hs.document node hnode
  have hrecords : records = s.store.records := Option.some.inj (hsaved.symm.trans hclean)
  rw [exec_load, Store.read_of_document hnode rfl hparse, hrecords, ← hs.place, ← hclean]

theorem IsWritten.isExact {s' : StoreSession} (h : s.IsWritten project path s')
    (hknown : s'.known = s.store.records :: s.known) (hround : s.store.records.RoundTrips) :
    s'.IsExact path := by
  refine ⟨by rw [h.store], fun node hnode => ?_⟩
  obtain ⟨time, -, -, hfile⟩ := h.document
  refine ⟨_, time, s.store.records, Option.some.inj (hnode.symm.trans hfile), hround, ?_, ?_⟩
  · rw [h.store]
  · rw [hknown]
    rfl

theorem IsKept.isExact {s' : StoreSession} (h : s.IsKept path s') (hs : s.IsExact path) :
    s'.IsExact path := by
  refine ⟨by rw [h.store, hs.place], fun node hnode => ?_⟩
  rw [h.store, h.known]
  exact hs.document node (h.document.symm.trans hnode)

/-- **Every operation keeps a session exact**, whether or not it goes through. -/
theorem IsExact.run (hs : s.IsExact path) (disk : Disk) (project : Project) (op : StoreOperation)
    (hround : op.writes = true → s.store.records.RoundTrips) :
    (op.run disk project s).2.IsExact path := by
  -- a save that has something to write is one by force
  have hforce : s.store.records.RoundTrips →
      (StoreOperation.forceSave.run disk project s).2.IsExact path := by
    intro hround
    obtain ⟨s', hrun, hwritten, hknown⟩ | ⟨e, s', hrun, hkept⟩ := hs.forceSave_cases disk project
    · rw [hrun]
      exact hwritten.isExact hknown hround
    · rw [hrun]
      exact hkept.isExact hs
  cases op with
  | load =>
    rw [StoreOperation.run, exec_load, hs.place]
    cases hread : Store.read project s.world.tree path with
    | ok store => exact isExact_of_read hread
    | error e => exact hs
  | replace records => exact ⟨hs.place, hs.document⟩
  | edit f => exact ⟨hs.place, hs.document⟩
  | save =>
    cases hdirty : s.store.isDirty s.world.tree with
    | true =>
      rw [run_save_of_dirty project hdirty]
      exact hforce (hround rfl)
    | false =>
      rw [run_save_of_clean disk project hdirty]
      exact hs
  | forceSave => exact hforce (hround rfl)
  | delete =>
    rw [StoreOperation.run, hs.place]
    cases hremove : s.world.tree.remove path with
    | error e => exact hs
    | ok t =>
      refine ⟨hs.place, fun node hnode => ?_⟩
      rw [FileTree.node?_of_remove_self hremove] at hnode
      cases hnode

/-! ## Whole sessions -/

/-- Every session that is reached is exact. -/
theorem Reached.isExact (hs : s.Reached project path) : s.IsExact path := by
  induction hs with
  | @loaded w store h =>
    have hexact : IsExact path ⟨store, w, (documentRecords? w.tree path).toList ++ []⟩ :=
      isExact_of_read h
    rwa [List.append_nil] at hexact
  | empty h =>
    refine ⟨rfl, fun node hnode => ?_⟩
    have hnode := h.symm.trans hnode
    cases hnode
  | operation _ disk op h ih => exact ih.run disk project op h
  | elsewhere _ h ih =>
    exact ⟨ih.place, fun node hnode => ih.document node (h.symm.trans hnode)⟩

/-- A store is dirty exactly if the document is not there, or the records differ from those that
were read or written last. -/
theorem IsExact.dirty_iff (hs : s.IsExact path) :
    s.store.isDirty s.world.tree = true ↔
      s.world.tree.node? path = none ∨ s.known.head? ≠ some s.store.records := by
  rw [← Bool.not_eq_false, Store.isDirty_eq_false_iff, FileTree.contains, hs.place]
  cases hnode : s.world.tree.node? path with
  | none => simp
  | some node =>
    obtain ⟨_, _, records, -, -, hsaved, hknown⟩ := hs.document node hnode
    rw [hsaved, hknown]
    simp

/-- **Dirty tracking is exact**, in every session that is reached and whatever the system refuses.

A document that is there holds the records that the store remembers.  The store is dirty exactly
if the document is not there, or the records differ from those that were read or written last.
Saving does nothing to a clean store, which is read again from its document, and writes a dirty one.
A write that goes through leaves a clean store and a document from which it is read again, and one
that fails leaves both as they are.  A write goes through if no file is on the way and the system
refuses nothing. -/
theorem Reached.tracks (hs : s.Reached project path) (disk : Disk) :
    (∀ node, s.world.tree.node? path = some node → ∃ text time records,
      node = .file ⟨.text text, time⟩ ∧ Record.parse? text = some records ∧
        s.store.saved? = some records) ∧
    (s.store.isDirty s.world.tree = true ↔
      s.world.tree.node? path = none ∨ s.known.head? ≠ some s.store.records) ∧
    (s.store.isDirty s.world.tree = false →
      StoreOperation.save.run disk project s = (.ok false, s) ∧
        Action.exec (Store.load project path) s.world = (.ok s.store, s.world)) ∧
    (s.store.isDirty s.world.tree = true →
      StoreOperation.save.run disk project s = StoreOperation.forceSave.run disk project s) ∧
    ((∃ s', StoreOperation.forceSave.run disk project s = (.ok true, s') ∧
        s.IsWritten project path s') ∨
      ∃ e s', StoreOperation.forceSave.run disk project s = (.error e, s') ∧ s.IsKept path s') ∧
    ((∀ q, q <+: path.dropLast → s.world.tree.isFile q = false) →
      (StoreOperation.forceSave.run .willing project s).1 = .ok true) := by
  have hexact := hs.isExact
  refine ⟨fun node hnode => ?_, hexact.dirty_iff,
    fun hclean => ⟨run_save_of_clean disk project hclean, hexact.load_of_clean project hclean⟩,
    run_save_of_dirty project, ?_, fun hway => ?_⟩
  · obtain ⟨text, time, records, hfile, hparse, hsaved, -⟩ := hexact.document node hnode
    exact ⟨text, time, records, hfile, hparse, hsaved⟩
  · obtain ⟨s', hrun, hwritten, -⟩ | hfailed := hexact.forceSave_cases disk project
    · exact Or.inl ⟨s', hrun, hwritten⟩
    · exact Or.inr hfailed
  -- The path itself is no directory: what stands there was written by the store.
  · have hclear : s.world.tree.Clear [s.store.path] := by
      intro p hp
      rw [List.mem_singleton.1 hp, hexact.place]
      refine ⟨?_, hway⟩
      rw [FileTree.isDirectory]
      cases hnode : s.world.tree.node? path with
      | none => rfl
      | some node =>
        obtain ⟨_, _, _, rfl, -⟩ := hexact.document node hnode
        rfl
    have hapart : Apart [s.store.path] := by
      intro p hp q hq
      rw [List.mem_singleton.1 hp, List.mem_singleton.1 hq, hexact.place]
      exact Path.not_prefix_dropLast hexact.ne_nil
    obtain ⟨w, hforce, -⟩ := Store.exists_forceSave project hapart List.mem_cons_self hclear
    rw [StoreOperation.run, Store.forceSaveOn_willing, hforce]

/-- A document that has been loaded, with one field. -/
def sampleLoaded : StoreSession where
  store := ⟨["data", "abilities.json"], ⟨[("A", .int 1)]⟩, some ⟨[("A", .int 1)]⟩⟩
  world := ⟨⟨[(["data"], .directory 0),
    (["data", "abilities.json"], .file ⟨.text "\x7b\"A\": 1\x7d".toList, 1⟩)], 2⟩, []⟩
  known := [⟨[("A", .int 1)]⟩]

/-- A second field has been added and saved, and edited since. -/
def sampleEdited : StoreSession :=
  let added := (StoreOperation.edit (·.insert "B" (.int 2))).run .willing ⟨"/p"⟩ sampleLoaded
  let saved := StoreOperation.save.run .willing ⟨"/p"⟩ added.2
  ((StoreOperation.edit (·.insert "B" (.int 3))).run .willing ⟨"/p"⟩ saved.2).2

/-- The system on which no file takes the place of another one. -/
def sampleKeeping : Disk where
  refusal?
    | .replace, _ => some .isADirectory
    | _, _ => none

/-- An edited document is dirty; it is saved, or kept where the system refuses the last step. -/
theorem tracks_sampleEdited :
    sampleEdited.Reached ⟨"/p"⟩ ["data", "abilities.json"] ∧
    (∀ q, q <+: ["data"] → sampleEdited.world.tree.isFile q = false) ∧
    sampleEdited.known.head? = some ⟨[("A", .int 1), ("B", .int 2)]⟩ ∧
    sampleEdited.store.isDirty sampleEdited.world.tree = true ∧
    (∃ s', StoreOperation.save.run .willing ⟨"/p"⟩ sampleEdited = (.ok true, s') ∧
      sampleEdited.IsWritten ⟨"/p"⟩ ["data", "abilities.json"] s') ∧
    ∃ e s', StoreOperation.save.run sampleKeeping ⟨"/p"⟩ sampleEdited = (.error e, s') ∧
      sampleEdited.IsKept ["data", "abilities.json"] s' := by
  have hread : Store.read ⟨"/p"⟩ sampleLoaded.world.tree ["data", "abilities.json"] =
      .ok sampleLoaded.store := Store.read_of_document rfl rfl (by decide +kernel)
  have hloaded : sampleLoaded.Reached ⟨"/p"⟩ ["data", "abilities.json"] := by
    have hknown : (documentRecords? sampleLoaded.world.tree ["data", "abilities.json"]).toList =
        sampleLoaded.known := by decide +kernel
    have hreached := Reached.loaded hread
    rwa [hknown] at hreached
  have hreached : sampleEdited.Reached ⟨"/p"⟩ ["data", "abilities.json"] :=
    .operation (.operation (.operation hloaded _ _ (by decide)) _ _ fun _ => by decide +kernel) _ _
      (by decide)
  have hway : ∀ q, q <+: ["data"] → sampleEdited.world.tree.isFile q = false := fun q hq =>
    (by decide +kernel : ∀ q ∈ Path.starts ["data"], sampleEdited.world.tree.isFile q = false) q
      (Path.mem_starts.2 hq)
  have hlast : sampleEdited.known.head? = some ⟨[("A", .int 1), ("B", .int 2)]⟩ := by
    decide +kernel
  obtain ⟨-, hdirty, -, hsave, hwilling, hgoes⟩ := Reached.tracks hreached .willing
  obtain ⟨-, -, -, hsave', hkeeping, -⟩ := Reached.tracks hreached sampleKeeping
  have hedited := hdirty.2 (Or.inr (by rw [hlast]; decide +kernel))
  refine ⟨hreached, hway, hlast, hedited, ?_, ?_⟩
  · rw [hsave hedited]
    refine hwilling.resolve_right ?_
    rintro ⟨e, s', hrun, -⟩
    have hok := hgoes hway
    rw [hrun] at hok
    cases hok
  · rw [hsave' hedited]
    refine hkeeping.resolve_left ?_
    rintro ⟨s', hrun, -⟩
    have hrefused : (StoreOperation.forceSave.run sampleKeeping ⟨"/p"⟩ sampleEdited).1.isOk = false := by
      decide +kernel
    rw [hrun] at hrefused
    cases hrefused

end StoreSession

end TableSync
