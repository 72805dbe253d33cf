import TableSync.Proofs.Data.Record
import TableSync.Proofs.Species.Field

/-!
# The generated table, written and read

The table that is generated for species and forms is scanned entity by entity.

* `LegibleInfo` says which records of fields are meant, and `resolvedInfo` is such a record with its
  conditionals decided.
* `exists_renderFields` is the round trip of the fields of one entity, by induction on the fields,
  each by `Legible.roundTrips`.
* `exists_reads_block` is the round trip of one entity: its block is written and gone over, and the
  scan has one more entity, with the fields decided.
* `exists_scan_generatedTable` is the round trip of the whole table.  The lines before the first
  entity and after the last one open nothing and are passed over (`reads_seeking`).

Whatever can fail is shown not to: that there is a text of the table is part of the conclusions, so
none of them says only what holds if there is one.
-/

set_option autoImplicit false

namespace TableSync.Species

/-- The keys differ and stand in the order of a written species, and every field has a value of its
kind. -/
structure LegibleInfo (constants : ConstantTable) (info : Record) : Prop where
  /-- No key stands twice. -/
  unique : info.keys.Nodup
  /-- The fields stand in the order in which they are written. -/
  ordered : canonicalOrder info = info
  /-- Each field has a key that can be read and a value of its kind. -/
  fields : ∀ f ∈ info.fields, IsKey f.1.toList ∧ Legible constants f.1 f.2

/-- The name of a species or form: the stem of species and a word. -/
def IsSpeciesId (id : String) : Prop := ∃ word, IsWord word ∧ id.toList = speciesStem ++ word

/-- The fields with their conditionals decided. -/
def resolvedInfo (constants : ConstantTable) (info : Record) : Record :=
  info.mapValues fun _ v => v.resolve constants

variable {constants : ConstantTable} {info : Record} {id : String}

/-! ## One entity -/

/-- Every line of a block opens only its entity. -/
theorem isBlockOf (h : IsSpeciesId id) : IsBlockOf scanner id := by
  obtain ⟨word, hword, hid⟩ := h
  have hchars : ∀ c ∈ id.toList, isWordChar c = true := by
    intro c hc
    rw [hid] at hc
    rcases List.mem_append.1 hc with hc | hc
    · exact (show ∀ c ∈ speciesStem, isWordChar c = true by decide) c hc
    · exact hword.2 c hc
  exact {
    word := hchars
    rawHeader := search?_dexTextAt?_of_notMem (x := '(') (by decide)
      (notMem_headerLine hchars (by decide) (by decide))
    header := headerAt?_headerLine hword hid
    rawOpening := search?_dexTextAt?_of_notMem (x := '(') (by decide) (by decide)
    opening := by decide
    rawClosing := search?_dexTextAt?_of_notMem (x := '(') (by decide) (by decide)
    closing := by decide }

/-- Legible fields are written in turn, each stored and read as its value. -/
theorem exists_renderFields {fields : List (String × Value)}
    (h : ∀ f ∈ fields, IsKey f.1.toList ∧ Legible constants f.1 f.2) (id : String) :
    ∃ ws : List WrittenField,
      renderFields id constants fields = .ok (ws.map fun f => (f.key, f.written)) ∧
      (∀ f ∈ ws, f.Stores scanner) ∧
      (rawFields ws).map (fun f => (f.1, (fieldTable.parse f.1 f.2).value)) =
        fields.map fun f => (f.1, f.2.resolve constants) := by
  induction fields with
  | nil => exact ⟨[], rfl, by simp, rfl⟩
  | cons f fields ih =>
    obtain ⟨key, v⟩ := f
    obtain ⟨hkey, hv⟩ := h _ List.mem_cons_self
    obtain ⟨w, rfl, hwritten, hstores, hvalue⟩ := hv.roundTrips hkey id
    obtain ⟨ws, hrest, hstoress, hvalues⟩ := ih fun g hg => h g (List.mem_cons_of_mem _ hg)
    refine ⟨w :: ws, ?_, ?_, ?_⟩
    · rw [renderFields, hwritten, hrest]
      rfl
    · intro g hg
      rcases List.mem_cons.1 hg with rfl | hg
      · exact hstores
      · exact hstoress g hg
    · rw [rawFields, List.map_cons, List.map_cons, ← rawFields, hvalues, List.map_cons, hvalue]

/-- **An entity is read from its block** with its conditionals decided. -/
theorem exists_reads_block (hid : IsSpeciesId id) (hinfo : LegibleInfo constants info) :
    ∃ ls, block id constants info = .ok ls ∧ ∀ scan : Scan, scan.state = .seeking →
      ∃ report, scanner.Reads (unlines ls) scan { scan with
        entities := scan.entities ++ [⟨id, resolvedInfo constants info⟩], report := report } := by
  obtain ⟨ws, hwritten, hstores, hvalues⟩ := exists_renderFields hinfo.fields id
  have hblock : block id constants info =
      .ok (Emit.block id (ws.map fun f => (f.key, f.written))) := by
    rw [block, hinfo.ordered, hwritten]
    rfl
  have hunique : ((info.fields.map fun f => (f.1, f.2.resolve constants)).map Prod.fst).Nodup := by
    rw [List.map_map]
    exact hinfo.unique
  refine ⟨_, hblock, fun scan hstate => ?_⟩
  have hreads := reads_block (isBlockOf hid) hstores hstate
  have hentity : (scanner.storeAll ⟨id, .empty⟩ scan.report (rawFields ws)).1 =
      ⟨id, resolvedInfo constants info⟩ := by
    have hfields : Record.empty.insertAll
        ((rawFields ws).map fun f => (f.1, (scanner.fields.parse f.1 f.2).value)) =
          resolvedInfo constants info := by
      refine (congrArg Record.empty.insertAll hvalues).trans ?_
      exact Record.ofFields_eq hunique
    rw [storeAll_fst, hfields]
  rw [Scan.withBlock, hentity] at hreads
  exact ⟨_, hreads⟩

/-! ## The whole table -/

/-- Blocks are read in turn. -/
theorem exists_reads_infos {infos : List (String × Record)}
    (h : ∀ e ∈ infos, IsSpeciesId e.1 ∧ LegibleInfo constants e.2) :
    ∃ text, renderInfos constants infos = .ok text ∧ ∀ scan : Scan, scan.state = .seeking →
      ∃ report, scanner.Reads text scan { scan with
        entities := scan.entities ++ infos.map fun e => ⟨e.1, resolvedInfo constants e.2⟩
        report := report } := by
  induction infos with
  | nil =>
    refine ⟨[], rfl, fun scan _ => ⟨scan.report, ?_⟩⟩
    rw [List.map_nil, List.append_nil]
    exact Scanner.Reads.nil
  | cons e infos ih =>
    obtain ⟨id, info⟩ := e
    obtain ⟨hid, hinfo⟩ := h _ List.mem_cons_self
    obtain ⟨ls, hls, hblock⟩ := exists_reads_block hid hinfo
    obtain ⟨text, htext, hrest⟩ := ih fun g hg => h g (List.mem_cons_of_mem _ hg)
    refine ⟨'\n' :: unlines ls ++ text, ?_, fun scan hstate => ?_⟩
    · rw [renderInfos, hls, htext]
      rfl
    · have hempty : scanner.Reads ['\n'] scan scan :=
        Scanner.Reads.line_of_step (s := []) ⟨by simp, by simp⟩
          (Scanner.step_seeking hstate (by decide) (by decide))
      obtain ⟨report, hfirst⟩ := hblock scan hstate
      obtain ⟨report', hall⟩ := hrest { scan with
        entities := scan.entities ++ [⟨id, resolvedInfo constants info⟩], report := report } hstate
      refine ⟨report', ?_⟩
      have hreads := (hempty.append hfirst).append hall
      rw [List.map_cons]
      simpa using hreads

/-- Lines between entities that open nothing are passed over. -/
theorem reads_seeking {ls : List Text}
    (h : ∀ l ∈ ls, IsLine l ∧ scanner.rawText l = none ∧ scanner.header l = none) {scan : Scan}
    (hstate : scan.state = .seeking) : scanner.Reads (unlines ls) scan scan := by
  induction ls with
  | nil => exact Scanner.Reads.nil
  | cons l ls ih =>
    obtain ⟨hline, hraw, hheader⟩ := h l List.mem_cons_self
    rw [unlines_cons]
    exact (Scanner.Reads.line_of_step hline (Scanner.step_seeking hstate hraw hheader)).append
      (ih fun m hm => h m (List.mem_cons_of_mem l hm))

/-- **The generated table is scanned entity by entity**, each with its conditionals decided. -/
theorem exists_scan_generatedTable {records : Record}
    (h : ∀ e ∈ infos records, IsSpeciesId e.1 ∧ LegibleInfo constants e.2) :
    ∃ text, generatedTable constants records = .ok text ∧
      (scanner.scan text).entities =
        (infos records).map (fun e => ⟨e.1, resolvedInfo constants e.2⟩) ∧
      (scanner.scan text).rawTexts = [] := by
  obtain ⟨blocks, hblocks, hreads⟩ := exists_reads_infos h
  obtain ⟨report, hall⟩ := hreads {} rfl
  have hopening : scanner.Reads tableOpening {} {} := by
    have hlines : tableOpening = unlines ["#ifdef __INTELLISENSE__".toList,
        "const struct SpeciesInfo gSpeciesInfoDecompUtil[] =".toList, ['{'], "#endif".toList] := by
      decide
    rw [hlines]
    refine reads_seeking ?_ rfl
    decide
  have hclosing : ∀ scan : Scan, scan.state = .seeking →
      scanner.Reads (['\n'] ++ tableClosing) scan scan := by
    intro scan hstate
    have hlines : ['\n'] ++ tableClosing = unlines [[], "#ifdef __INTELLISENSE__".toList,
        ['}', ';'], "#endif".toList] := by decide
    rw [hlines]
    refine reads_seeking ?_ hstate
    decide
  have htext := ((hopening.append hall).append (hclosing _ rfl)).scan_eq
  refine ⟨tableOpening ++ blocks ++ (['\n'] ++ tableClosing), ?_, ?_, ?_⟩
  · rw [generatedTable, hblocks, ← List.append_assoc]
    rfl
  · rw [htext]
    simp [Scanner.finish, ScanState.open?]
  · rw [htext]
    rfl

end TableSync.Species
