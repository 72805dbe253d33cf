import Mathlib.Algebra.GroupWithZero.Nat
import TableSync.Category.Species
import TableSync.Proofs.Data.Collect
import TableSync.Proofs.Scan.Registers
import TableSync.Proofs.Scan.Written

/-!
# Entities and fields are conserved

Every header that is read outside literals opens one entity, and every field that is stored goes to
the entity opened last.  So nothing of what the scan has read can be lost between two lines, and
nothing can end up in an entity that it does not belong to.  To say this of a whole text, the scan
is followed by a journal: a list that grows with the lines and that keeps each header, and after it
the fields which were stored until the next one, as they stood in the text.

* `Entry` is an entity as it was written: its id and the fields in the order in which they were
  stored.  `Scanner.record` is what a line adds to the journal, by `Scanner.headerOn?` and
  `Scanner.storedOn`; neither of them changes a scan.
* `Scanner.stores_step` says what a line that is no header does to the scan: nothing to the
  entities, or exactly the fields of `storedOn` go into the one that is open.
* `IsJournal` relates the journal to what the scan has found; `IsJournal.step` is one line, by cases
  on whether it is a header, and `isJournal_scan` a whole text, by induction on its lines.
* `Entry.size_entity` counts: an entity has fewer fields than were stored in it exactly if a key
  came twice, since the later text replaces the earlier one.
* `Scanner.scan_conserves` puts together what follows for the phase of the scan, the ids of entities
  and the tally.

What the tally counts is what was stored, not what is kept.  This is why the number of fields in the
tally is compared with the journal first, and with the entities only by the sum over the entries.
-/

set_option autoImplicit false

namespace TableSync

/-! ## The journal

The journal is computed along with the scan, from its state before each line, but it does not depend
on how a text is read by the table: it holds texts.  Only `Entry.entity` parses them. -/

/-- An entity as it was written. -/
structure Entry where
  /-- The name in the header. -/
  id : String
  /-- The fields that were stored, in the order of the text, each with the text that was read for
  it; a key may stand in it twice. -/
  stored : List (String × Text)

/-- The entity that an entry is read as. -/
def Entry.entity (table : FieldTable) (entry : Entry) : Entity :=
  ⟨entry.id, Record.ofFields (entry.stored.map fun f => (f.1, (table.parse f.1 f.2).value))⟩

/-- Fields stored in the entity opened last. -/
def addToLast (fields : List (String × Text)) : List Entry → List Entry
  | [] => []
  | [entry] => [{ entry with stored := entry.stored ++ fields }]
  | entry :: next :: rest => entry :: addToLast fields (next :: rest)

namespace Scanner

/-- The header on a line, if the line stands outside literals and opens no variable. -/
def headerOn? (scanner : Scanner) (state : ScanState) (line : Text) : Option (String × Text) :=
  if state.isOutside && (scanner.rawText line).isNone then scanner.header line else none

/-- Whether a literal opens on a line of a body and stays open. -/
def opensLiteral (line : Text) : Bool :=
  (literalOpenerAt? line).any fun opener => !(segments opener.2).closed

/-- The fields that a line stores in the open entity: the literal that it closes, or those on a line
of a body that starts with a dot. -/
def storedOn (scanner : Scanner) (state : ScanState) (line : Text) : List (String × Text) :=
  match state with
  | .seeking => []
  | .variable _ _ _ => []
  | .literal _ key read =>
    if (segments line).closed then [(key, read ++ (segments line).text)] else []
  | .body _ =>
    let text := bodyText line
    if (scanner.rawText line).isSome || endsBody text || opensLiteral text
      || !startsWith ['.'] text then []
    else splitFields text

/-- The journal after one more line. -/
def record (scanner : Scanner) (state : ScanState) (line : Text) (journal : List Entry) :
    List Entry :=
  match scanner.headerOn? state line with
  | some (id, rest) => journal ++ [⟨id, inlineFields rest⟩]
  | none => addToLast (scanner.storedOn state line) journal

/-- The journal of lines that are read after `scan`. -/
def journalFrom (scanner : Scanner) : Scan → List Entry → List Text → List Entry
  | _, journal, [] => journal
  | scan, journal, line :: ls =>
    scanner.journalFrom (scanner.step scan line) (scanner.record scan.state line journal) ls

/-- The journal of a text. -/
def journal (scanner : Scanner) (s : Text) : List Entry := scanner.journalFrom {} [] (lines s)

/-- The ids of the headers on lines that are read after `scan`. -/
def headerIdsFrom (scanner : Scanner) : Scan → List Text → List String
  | _, [] => []
  | scan, line :: ls =>
    ((scanner.headerOn? scan.state line).map Prod.fst).toList ++
      scanner.headerIdsFrom (scanner.step scan line) ls

/-- The ids of the headers of a text, in order. -/
def headerIds (scanner : Scanner) (s : Text) : List String := scanner.headerIdsFrom {} (lines s)

end Scanner

theorem addToLast_concat (fields : List (String × Text)) (entries : List Entry) (entry : Entry) :
    addToLast fields (entries ++ [entry]) =
      entries ++ [{ entry with stored := entry.stored ++ fields }] := by
  induction entries with
  | nil => rfl
  | cons e entries ih =>
    cases entries with
    | nil => rfl
    | cons f entries => exact congrArg (e :: ·) ih

theorem addToLast_nil (entries : List Entry) : addToLast [] entries = entries := by
  rcases List.eq_nil_or_concat entries with rfl | ⟨entries, entry, rfl⟩
  · rfl
  · rw [List.concat_eq_append, addToLast_concat, List.append_nil]

theorem map_id_addToLast (fields : List (String × Text)) (entries : List Entry) :
    (addToLast fields entries).map Entry.id = entries.map Entry.id := by
  rcases List.eq_nil_or_concat entries with rfl | ⟨entries, entry, rfl⟩
  · rfl
  · rw [List.concat_eq_append, addToLast_concat, List.map_append, List.map_append]
    rfl

namespace Scanner

/-- Every header opens an entry, and no other line does. -/
theorem map_id_journalFrom (scanner : Scanner) (scan : Scan) (journal : List Entry)
    (ls : List Text) :
    (scanner.journalFrom scan journal ls).map Entry.id =
      journal.map Entry.id ++ scanner.headerIdsFrom scan ls := by
  induction ls generalizing scan journal with
  | nil => exact (List.append_nil _).symm
  | cons line ls ih =>
    rw [journalFrom, ih, headerIdsFrom, ← List.append_assoc, record]
    congr 1
    cases scanner.headerOn? scan.state line with
    | some head => rw [List.map_append]; rfl
    | none => rw [map_id_addToLast]; exact (List.append_nil _).symm

/-! ## What a line stores

One lemma for each function that a line may go through, each with the conclusion `Stores`;
`stores_step` is by cases on the state of the scan. -/

variable {scanner : Scanner} {scan : Scan} {open? : Option Entity} {e : Entity}

/-- The fallbacks of fields that are stored name their entity and their key. -/
theorem fallbacks_storeAll (scanner : Scanner) (e : Entity) (report : Report)
    (fields : List (String × Text)) :
    ∀ f ∈ (scanner.storeAll e report fields).2.fallbacks,
      f ∈ report.fallbacks ∨ f.entity = e.id ∧ f.key ∈ fields.map Prod.fst := by
  induction fields generalizing e report with
  | nil => exact fun f hf => .inl hf
  | cons field fields ih =>
    intro f hf
    obtain ⟨key, raw⟩ := field
    rcases ih (scanner.store e report key raw).1 (scanner.store e report key raw).2 f hf with
      hf | ⟨hid, hkey⟩
    · rw [store, Report.note] at hf
      dsimp only at hf
      split at hf
      · rcases List.mem_append.1 hf with hf | hf
        · exact .inl hf
        · rw [List.mem_singleton.1 hf]
          exact .inr ⟨rfl, List.mem_cons_self⟩
      · exact .inl hf
    · exact .inr ⟨hid, List.mem_cons_of_mem _ hkey⟩

/-- A line that is no header stores its fields in the entity that is open.  Where no field is stored,
nothing changes; a line may be counted as skipped in any case. -/
inductive Stores (scanner : Scanner) (scan : Scan) (fields : List (String × Text)) (scan' : Scan) :
    Prop
  | none (stored : fields = []) (found : scan'.found = scan.found)
      (count : scan'.report.fields = scan.report.fields)
      (fallbacks : scan'.report.fallbacks = scan.report.fallbacks)
  | into (e : Entity) (report : Report) (found : scan.found = scan.entities ++ [e])
      (count : report.fields = scan.report.fields)
      (fallbacks : report.fallbacks = scan.report.fallbacks)
      (found' : scan'.found = scan.entities ++ [(scanner.storeAll e report fields).1])
      (report' : scan'.report = (scanner.storeAll e report fields).2)

theorem stores_bodyFields (scanner : Scanner) (hopen : scan.state.open? = some e) (line : Text) :
    Stores scanner scan (if startsWith ['.'] line then splitFields line else [])
      (scanner.bodyFields scan e line) := by
  have hfound := Scan.found_eq hopen
  rw [bodyFields]
  split
  · refine .into e (if (splitFields line).isEmpty then scan.report.skipLine else scan.report)
      hfound ?_ ?_ rfl rfl
    all_goals split <;> rfl
  · refine .none rfl hfound.symm ?_ ?_
    all_goals
      dsimp only
      split <;> rfl

theorem stores_bodyLine (hopen : scan.state.open? = some e) (line : Text) :
    Stores scanner scan
      (if endsBody line || opensLiteral line || !startsWith ['.'] line then [] else splitFields line)
      (scanner.bodyLine scan e line) := by
  have hfound := Scan.found_eq hopen
  have hplain : endsBody line = false → opensLiteral line = false → Stores scanner scan
      (if endsBody line || opensLiteral line || !startsWith ['.'] line then [] else splitFields line)
      (scanner.bodyFields scan e line) := by
    intro hends hliteral
    have hfields := stores_bodyFields scanner hopen line
    cases hdot : startsWith ['.'] line <;> simpa [hends, hliteral, hdot] using hfields
  rw [bodyLine]
  cases hends : endsBody line with
  | true => exact .none rfl (by rw [hfound]; exact List.append_nil _) rfl rfl
  | false =>
    rw [hends] at hplain
    rw [if_neg Bool.false_ne_true]
    cases hopener : literalOpenerAt? line with
    | none => exact hplain rfl (by rw [opensLiteral, hopener]; rfl)
    | some opener =>
      have hliteral : opensLiteral line = !(segments opener.2).closed := by
        rw [opensLiteral, hopener]
        rfl
      cases hclosed : (segments opener.2).closed with
      | true =>
        simp only [hclosed, if_true]
        exact hplain rfl (by rw [hliteral, hclosed]; rfl)
      | false =>
        simp only [hclosed, hliteral, Bool.not_false, Bool.or_true, Bool.true_or, if_true,
          Bool.false_eq_true, if_false]
        exact .none rfl hfound.symm rfl rfl

theorem stores_openVariable (hopen : scan.state.open? = open?) (name : String) (rest : Text) :
    Stores scanner scan [] (openVariable scan open? name rest) := by
  have hfound := Scan.found_eq hopen
  rw [openVariable]
  split
  · exact .none rfl (by rw [hfound, Scan.found, ScanState.open?_resume]) rfl rfl
  · exact .none rfl hfound.symm rfl rfl

theorem header_eq_none {state : ScanState} {line : Text} (houtside : state.isOutside = true)
    (hraw : scanner.rawText line = none) (h : scanner.headerOn? state line = none) :
    scanner.header line = none := by
  rwa [headerOn?, houtside, hraw, Option.isNone_none, Bool.and_true, if_pos rfl] at h

/-- **What a line stores** that is no header. -/
theorem stores_step (scanner : Scanner) (scan : Scan) {line : Text}
    (hheader : scanner.headerOn? scan.state line = none) :
    Stores scanner scan (scanner.storedOn scan.state line) (scanner.step scan line) := by
  rw [step]
  cases hstate : scan.state with
  | seeking =>
    have hopen : scan.state.open? = none := congrArg ScanState.open? hstate
    cases hraw : scanner.rawText line with
    | some opener =>
      simp only [plainLine, hraw]
      exact stores_openVariable hopen _ _
    | none =>
      have hnone := header_eq_none (congrArg ScanState.isOutside hstate) hraw hheader
      simp only [plainLine, hraw, hnone]
      exact .none rfl (Scan.found_eq hopen).symm rfl rfl
  | body e =>
    have hopen : scan.state.open? = some e := congrArg ScanState.open? hstate
    cases hraw : scanner.rawText line with
    | some opener =>
      simp only [storedOn, plainLine, hraw, Option.isSome_some, Bool.true_or, if_true]
      exact stores_openVariable hopen _ _
    | none =>
      have hnone := header_eq_none (congrArg ScanState.isOutside hstate) hraw hheader
      simp only [storedOn, plainLine, hraw, hnone, Option.isSome_none, Bool.false_or]
      exact stores_bodyLine hopen (bodyText line)
  | literal e key read =>
    have hfound := Scan.found_eq (congrArg ScanState.open? hstate)
    simp only [storedOn]
    split
    · exact .into e scan.report hfound rfl rfl rfl rfl
    · exact .none rfl hfound.symm rfl rfl
  | «variable» open? name read =>
    have hfound := Scan.found_eq (congrArg ScanState.open? hstate)
    simp only [storedOn]
    split
    · refine .none rfl ?_ rfl rfl
      rw [hfound, Scan.found, ScanState.open?_resume, ScanState.open?_variable]
    · exact .none rfl hfound.symm rfl rfl

end Scanner

/-! ## What a scan has found

The relation that is kept from line to line.  A header adds an entry by `IsJournal.opened`, and any
other line adds its fields to the last one by `IsJournal.fields`: where something is stored an
entity is open, so the journal is not empty. -/

/-- The scan has found the entities of the journal, has counted their fields, and names them only as
fallbacks. -/
structure IsJournal (scanner : Scanner) (journal : List Entry) (scan : Scan) : Prop where
  /-- The entities that are finished and the one that is open, in this order, are the entries of the
  journal. -/
  found : scan.found = journal.map (Entry.entity scanner.fields)
  /-- The tally has counted every field that was stored, also one that was stored anew. -/
  count : scan.report.fields = (journal.map fun entry => entry.stored.length).sum
  /-- A field that was kept as it stands names an entry and a key that was stored in it. -/
  fallbacks : ∀ f ∈ scan.report.fallbacks, ∃ entry ∈ journal,
    entry.id = f.entity ∧ f.key ∈ entry.stored.map Prod.fst

namespace IsJournal

variable {scanner : Scanner} {journal : List Entry} {scan : Scan} {line : Text}

/-- The fields of a new entity. -/
theorem storeAll_empty (id : String) (report : Report) (fields : List (String × Text)) :
    (scanner.storeAll ⟨id, .empty⟩ report fields).1 = Entry.entity scanner.fields ⟨id, fields⟩ :=
  storeAll_fst ⟨id, .empty⟩ report fields

/-- Further fields of an entity. -/
theorem entity_append (table : FieldTable) (entry : Entry) (fields : List (String × Text)) :
    Entry.entity table { entry with stored := entry.stored ++ fields } =
      ⟨entry.id, (entry.entity table).fields.insertAll
        (fields.map fun f => (f.1, (table.parse f.1 f.2).value))⟩ := by
  refine congrArg (Entity.mk entry.id) ?_
  rw [Entry.entity, List.map_append, Record.ofFields, Record.insertAll, List.foldl_append]
  rfl

/-- A new entity. -/
theorem opened (h : IsJournal scanner journal scan) {scan' : Scan} (id : String)
    (fields : List (String × Text))
    (hfound : scan'.found =
      scan.found ++ [(scanner.storeAll ⟨id, .empty⟩ scan.report fields).1])
    (hreport : scan'.report = (scanner.storeAll ⟨id, .empty⟩ scan.report fields).2) :
    IsJournal scanner (journal ++ [⟨id, fields⟩]) scan' := by
  refine ⟨?_, ?_, fun f hf => ?_⟩
  · rw [hfound, h.found, storeAll_empty, List.map_append, List.map_singleton]
  · rw [hreport, fields_storeAll, h.count, List.map_append, List.sum_append, List.map_singleton,
      List.sum_singleton]
  · rw [hreport] at hf
    rcases Scanner.fallbacks_storeAll scanner _ _ _ f hf with hf | ⟨hid, hkey⟩
    · obtain ⟨entry, hentry, hnames⟩ := h.fallbacks f hf
      exact ⟨entry, List.mem_append_left _ hentry, hnames⟩
    · exact ⟨⟨id, fields⟩, List.mem_concat_self, hid.symm, hkey⟩

/-- The line of a header. -/
theorem header (h : IsJournal scanner journal scan) {id : String} {rest : Text}
    (hheader : scanner.headerOn? scan.state line = some (id, rest)) :
    IsJournal scanner (journal ++ [⟨id, Scanner.inlineFields rest⟩]) (scanner.step scan line) := by
  obtain ⟨⟨houtside, hraw⟩, hline⟩ : (scan.state.isOutside = true ∧ scanner.rawText line = none) ∧
      scanner.header line = some (id, rest) := by
    rw [Scanner.headerOn?] at hheader
    split at hheader
    · next hcond => exact ⟨by simpa using hcond, hheader⟩
    · cases hheader
  have hreport : (scanner.openEntity scan scan.state.open? id rest).report =
      (scanner.headEntity scan.report id rest).2 := by
    rw [Scanner.openEntity_eq]
    generalize scanner.headEntity scan.report id rest = head
    split <;> rfl
  rw [Scanner.step_header houtside hraw hline]
  exact h.opened id _ (Scanner.found_openEntity scanner rfl id rest).1 hreport

/-- A line that is no header. -/
theorem fields (h : IsJournal scanner journal scan)
    (hheader : scanner.headerOn? scan.state line = none) :
    IsJournal scanner (addToLast (scanner.storedOn scan.state line) journal)
      (scanner.step scan line) := by
  cases scanner.stores_step scan hheader with
  | none stored found count fallbacks =>
    rw [stored, addToLast_nil]
    exact ⟨found.trans h.found, count.trans h.count, fallbacks ▸ h.fallbacks⟩
  | into e report found count fallbacks found' report' =>
    -- the entity that is open is that of the last entry
    have hlast := found.symm.trans h.found
    rcases List.eq_nil_or_concat journal with rfl | ⟨init, entry, rfl⟩
    · exact absurd (congrArg List.length hlast) (by simp)
    · rw [List.concat_eq_append] at hlast h ⊢
      rw [List.map_append, List.map_singleton] at hlast
      obtain ⟨hinit, hentry⟩ := List.append_inj' hlast rfl
      obtain rfl := (List.cons.inj hentry).1
      have hcount := h.count
      rw [addToLast_concat]
      refine ⟨?_, ?_, fun f hf => ?_⟩
      · rw [found', hinit, storeAll_fst, List.map_append, List.map_singleton,
          entity_append]
        rfl
      · rw [report', fields_storeAll, count, hcount]
        simp [Nat.add_assoc]
      · rw [report'] at hf
        rcases Scanner.fallbacks_storeAll scanner _ _ _ f hf with hf | ⟨hid, hkey⟩
        · rw [fallbacks] at hf
          obtain ⟨other, hother, hid, hkey⟩ := h.fallbacks f hf
          rcases List.mem_append.1 hother with hother | hother
          · exact ⟨other, List.mem_append_left _ hother, hid, hkey⟩
          · obtain rfl := List.mem_singleton.1 hother
            refine ⟨_, List.mem_append_right _ List.mem_cons_self, hid, ?_⟩
            rw [List.map_append]
            exact List.mem_append_left _ hkey
        · refine ⟨_, List.mem_append_right _ List.mem_cons_self, hid.symm, ?_⟩
          rw [List.map_append]
          exact List.mem_append_right _ hkey

/-- **One line.** -/
theorem step (h : IsJournal scanner journal scan) (line : Text) :
    IsJournal scanner (scanner.record scan.state line journal) (scanner.step scan line) := by
  rw [Scanner.record]
  cases hheader : scanner.headerOn? scan.state line with
  | some head => exact h.header hheader
  | none => exact h.fields hheader

/-- Any number of lines. -/
theorem journalFrom (h : IsJournal scanner journal scan) (ls : List Text) :
    IsJournal scanner (scanner.journalFrom scan journal ls) (ls.foldl scanner.step scan) := by
  induction ls generalizing journal scan with
  | nil => exact h
  | cons line ls ih => exact ih (h.step line)

end IsJournal

theorem isJournal_scan (scanner : Scanner) (s : Text) :
    IsJournal scanner (scanner.journal s) (scanner.scan s) := by
  have hstart : IsJournal scanner [] {} := ⟨rfl, rfl, fun _ hf => absurd hf List.not_mem_nil⟩
  have hlines := hstart.journalFrom (lines s)
  exact ⟨(List.append_nil _).trans hlines.found, hlines.count, hlines.fallbacks⟩

/-! ## Counting fields

A record keeps one value for a key, so its size is the number of different keys that were stored. -/

theorem Record.size_ofFields (fields : List (String × Value)) :
    (ofFields fields).size = (fields.map Prod.fst).eraseDups.length := by
  rw [← keys_ofFields, size, keys, List.length_map]

/-- An entity has no more fields than were stored in it, and fewer if a key was stored twice. -/
theorem Entry.size_entity (table : FieldTable) (entry : Entry) :
    (entry.entity table).fields.size ≤ entry.stored.length ∧
      ((entry.entity table).fields.size = entry.stored.length ↔
        (entry.stored.map Prod.fst).Nodup) := by
  have hsize : (entry.entity table).fields.size = (entry.stored.map Prod.fst).eraseDups.length := by
    rw [Entry.entity, Record.size_ofFields, List.map_map]
    rfl
  rw [hsize, ← length_eraseDups_eq_iff, List.length_map]
  have hle := (eraseDups_sublist (entry.stored.map Prod.fst)).length_le
  rw [List.length_map] at hle
  exact ⟨hle, Iff.rfl⟩

theorem sum_size_entities (table : FieldTable) (journal : List Entry) :
    let sizes := (journal.map fun entry => (entry.entity table).fields.size).sum
    let stored := (journal.map fun entry => entry.stored.length).sum
    sizes ≤ stored ∧
      (sizes = stored ↔ ∀ entry ∈ journal, (entry.stored.map Prod.fst).Nodup) := by
  induction journal with
  | nil => exact ⟨Nat.le_refl 0, fun _ _ h => absurd h List.not_mem_nil, fun _ => rfl⟩
  | cons entry journal ih =>
    obtain ⟨hle, hiff⟩ := ih
    obtain ⟨hle₁, hiff₁⟩ := entry.size_entity table
    simp only [List.map_cons, List.sum_cons, List.forall_mem_cons] at hle hiff ⊢
    rw [← hiff₁, ← hiff]
    omega

namespace Scanner

/-- **Phase and open entity stay in step, and entities are conserved.**

After any number of lines, a scan that keeps its phase and its open entity apart stands where the
scan stands; an entity is open in a body and in a literal, and none is between entities, so a literal
that is closed is stored.  The ids of the entities are those of the headers, in order.  The tally
counts the fields that were stored, of which the entities have as many if no entity has a key twice,
and fewer otherwise; and every fallback names an entity and a key of it. -/
theorem scan_conserves (scanner : Scanner) (s : Text) :
    (∀ n, let now := Registers.run scanner ((lines s).take n)
      now = (((lines s).take n).foldl scanner.step {}).registers ∧ now.InStep ∧
      ∀ key read line, now.phase = .literal key read → (segments line).closed = true →
        ∃ e, now.open? = some e ∧
          now.step scanner line = { now with
            phase := .body
            open? := some (scanner.store e now.report key (read ++ (segments line).text)).1
            report := (scanner.store e now.report key (read ++ (segments line).text)).2 }) ∧
    (Registers.run scanner (lines s)).finish = (scanner.scan s).registers ∧
    (scanner.scan s).entities.map Entity.id = scanner.headerIds s ∧
    (scanner.scan s).entities = (scanner.journal s).map (Entry.entity scanner.fields) ∧
    (scanner.scan s).report.fields =
      ((scanner.journal s).map fun entry => entry.stored.length).sum ∧
    ((scanner.scan s).entities.map fun e => e.fields.size).sum ≤ (scanner.scan s).report.fields ∧
    (((scanner.scan s).entities.map fun e => e.fields.size).sum = (scanner.scan s).report.fields ↔
      ∀ entry ∈ scanner.journal s, (entry.stored.map Prod.fst).Nodup) ∧
    ∀ f ∈ (scanner.scan s).report.fallbacks, ∃ e ∈ (scanner.scan s).entities,
      e.id = f.entity ∧ f.key ∈ e.fields.keys := by
  have hjournal := isJournal_scan scanner s
  have hentities : (scanner.scan s).entities =
      (scanner.journal s).map (Entry.entity scanner.fields) :=
    (List.append_nil _).symm.trans hjournal.found
  obtain ⟨hle, hiff⟩ := sum_size_entities scanner.fields (scanner.journal s)
  have hsizes : ((scanner.scan s).entities.map fun e => e.fields.size) =
      (scanner.journal s).map fun entry => (entry.entity scanner.fields).fields.size := by
    rw [hentities, List.map_map]
    rfl
  refine ⟨fun n => ⟨Registers.run_eq scanner _, Registers.inStep_run scanner _, ?_⟩,
    Registers.finish_run scanner s, ?_, hentities, hjournal.count, ?_, ?_, fun f hf => ?_⟩
  · exact fun key read line => (Registers.inStep_run scanner _).step_closed scanner
  · rw [hentities, List.map_map]
    exact (scanner.map_id_journalFrom {} [] (lines s)).trans (List.nil_append _)
  · rw [hsizes, hjournal.count]
    exact hle
  · rw [hsizes, hjournal.count]
    exact hiff
  -- A fallback belongs to an entry of the journal, and an entry keeps every key it stored.
  · obtain ⟨entry, hentry, hid, hkey⟩ := hjournal.fallbacks f hf
    refine ⟨entry.entity scanner.fields, hentities ▸ List.mem_map_of_mem hentry, hid, ?_⟩
    rw [Entry.entity, Record.keys_ofFields, List.mem_eraseDups, List.map_map]
    exact hkey

/-- A table with an entity over several lines, which gets its types twice, and one on a line. -/
def sampleTable : Text :=
  unlines (["[SPECIES_A] = \x7b", "    .types = TYPE_GRASS,", "    .types = TYPE_POISON,",
    "    .description = COMPOUND_STRING(", "        \"Bulb\"", "        \"asaur\"),", "\x7d,",
    "[SPECIES_B] = \x7b .baseHP = 1 \x7d,"].map String.toList)

/-- **A literal over two lines**, closed by the sixth line of the table: it is stored in the entity
that is open.  The table stores four fields, but its entities have three, and the fallback for the
types that were stored first is still listed. -/
theorem scan_conserves_sampleTable :
    let scan := Species.scanner.scan sampleTable
    let now := Registers.run Species.scanner ((lines sampleTable).take 5)
    let lastLine := "        \"asaur\"),".toList
    (now.phase = .literal "description" "Bulb".toList ∧ (segments lastLine).closed = true ∧
      ∃ e, now.open? = some e ∧ now.step Species.scanner lastLine = { now with
        phase := .body
        open? := some (Species.scanner.store e now.report "description" "Bulbasaur".toList).1
        report := (Species.scanner.store e now.report "description" "Bulbasaur".toList).2 }) ∧
    Species.scanner.headerIds sampleTable = ["SPECIES_A", "SPECIES_B"] ∧
    scan.report.fields = 4 ∧ (scan.entities.map fun e => e.fields.size).sum = 3 ∧
    (⟨"SPECIES_A", "types", "TYPE_GRASS"⟩ ∈ scan.report.fallbacks ∧
      ∃ e ∈ scan.entities, e.id = "SPECIES_A" ∧ "types" ∈ e.fields.keys) := by
  obtain ⟨hlines, -, -, -, -, -, -, hfallbacks⟩ := scan_conserves Species.scanner sampleTable
  have hphase : (Registers.run Species.scanner ((lines sampleTable).take 5)).phase =
      .literal "description" "Bulb".toList := by
    decide +kernel
  have hclosed : (segments "        \"asaur\"),".toList).closed = true := by decide +kernel
  have hfallback : ⟨"SPECIES_A", "types", "TYPE_GRASS"⟩ ∈
      (Species.scanner.scan sampleTable).report.fallbacks := by
    decide +kernel
  exact ⟨⟨hphase, hclosed, (hlines 5).2.2 _ _ _ hphase hclosed⟩, by decide +kernel,
    by decide +kernel, by decide +kernel, hfallback, hfallbacks _ hfallback⟩

end Scanner

end TableSync
