import TableSync.Category.Species
import TableSync.Proofs.Data.Record
import TableSync.Proofs.Scan.Designator
import TableSync.Proofs.Text.Lines
import TableSync.Proofs.Text.Quote

/-!
# What a scan keeps

A scan that skipped no line has kept the designators of its entities, where it looks for them.  The
tally of skipped lines never falls, so if it is zero in the end it was zero all the time, and no
line was skipped on the way.

* `Scanner.grows_step` says all that a line can do to what was found: an entity is opened, or the
  one that is open gains fields, and the tally of skipped lines never falls.  There is one lemma
  before it for each kind of line, and `Scanner.found_foldl` is any number of lines.
* `BodyPart` takes the body of an entity apart into lines, literals and texts of variables, and
  `BodyPart.Holds` says which designators a part holds; `Scanner.IsPart.run` is one part.
* `EntityText` are the lines of an entity, and `Scanner.IsEntity.run` goes over them: the line of
  the header and then the parts in turn, with the tally at zero after each.
* **`Scanner.keys_of_skippedLines_eq_zero`** is the whole: the designators on the line of the header
  and in the parts of the body are keys of the entity.
* What stands after the end of a literal on its line is lost and not counted
  (`Scanner.scanLines_ignores_tail`), and `lossyTable` is a table with such a line.
-/

set_option autoImplicit false

namespace TableSync

/-! ## Fields of an entity -/

/-- An entity has become another one that has all its keys. -/
structure Entity.Gains (e e' : Entity) : Prop where
  /-- The id is the same. -/
  id : e'.id = e.id
  /-- No key is lost. -/
  keys : e.fields.keys ⊆ e'.fields.keys

theorem Entity.Gains.refl (e : Entity) : e.Gains e := ⟨rfl, List.Subset.refl _⟩

theorem Entity.Gains.trans {a b c : Entity} (h : a.Gains b) (h' : b.Gains c) : a.Gains c :=
  ⟨h'.id.trans h.id, List.Subset.trans h.keys h'.keys⟩

theorem Record.keys_subset_insert (r : Record) (key : String) (v : Value) :
    r.keys ⊆ (r.insert key v).keys ∧ key ∈ (r.insert key v).keys :=
  ⟨fun _ hk => mem_keys_insert.2 (Or.inr hk), mem_keys_insert.2 (Or.inl rfl)⟩

section Store

variable (scanner : Scanner) (e : Entity) (report : Report)

theorem Scanner.gains_store (key : String) (raw : Text) :
    e.Gains (scanner.store e report key raw).1 ∧
      key ∈ (scanner.store e report key raw).1.fields.keys :=
  have h := Record.keys_subset_insert e.fields key (scanner.fields.parse key raw).value
  ⟨⟨rfl, h.1⟩, h.2⟩

/-- Every field of a line is a key of the entity afterwards. -/
theorem Scanner.gains_storeAll (fields : List (String × Text)) :
    e.Gains (scanner.storeAll e report fields).1 ∧
      fields.map Prod.fst ⊆ (scanner.storeAll e report fields).1.fields.keys ∧
      (scanner.storeAll e report fields).2.skippedLines = report.skippedLines := by
  induction fields generalizing e report with
  | nil => exact ⟨.refl e, List.nil_subset _, rfl⟩
  | cons f fields ih =>
    obtain ⟨key, raw⟩ := f
    obtain ⟨hgains, hkey⟩ := scanner.gains_store e report key raw
    obtain ⟨hrest, hkeys, hskip⟩ :=
      ih (scanner.store e report key raw).1 (scanner.store e report key raw).2
    exact ⟨hgains.trans hrest, List.cons_subset.2 ⟨hrest.keys hkey, hkeys⟩, hskip⟩

end Store

/-! ## What one line does to what was found

What was found includes the entity that is open, which may be closed at any time without changing
this; so the end of an entity is no case of its own. -/

/-- The entities that were found, the one that is open included. -/
def Scan.found (scan : Scan) : List Entity := scan.entities ++ scan.state.open?.toList

/-- What the lines after `scan` do to what was found up to it: entities are opened, or the last
one gains fields. -/
inductive Scan.Grows (scan scan' : Scan) : Prop
  | opened (later : List Entity) (found : scan'.found = scan.found ++ later)
      (skipped : scan.report.skippedLines ≤ scan'.report.skippedLines)
  | gained (done : List Entity) (e e' : Entity) (found : scan.found = done ++ [e])
      (found' : scan'.found = done ++ [e']) (gains : e.Gains e')
      (skipped : scan.report.skippedLines ≤ scan'.report.skippedLines)

theorem Scan.Grows.skippedLines_le {scan scan' : Scan} (h : scan.Grows scan') :
    scan.report.skippedLines ≤ scan'.report.skippedLines := by
  cases h <;> assumption

theorem Scan.Grows.of_found {scan scan' : Scan} (h : scan'.found = scan.found)
    (hreport : scan'.report = scan.report) : scan.Grows scan' :=
  .opened [] (by rw [h, List.append_nil]) (Nat.le_of_eq (congrArg Report.skippedLines hreport.symm))

theorem Scan.found_eq {scan : Scan} {open? : Option Entity} (h : scan.state.open? = open?) :
    scan.found = scan.entities ++ open?.toList := by
  rw [found, h]

theorem ScanState.open?_resume (open? : Option Entity) : (resume open?).open? = open? := by
  cases open? <;> rfl

namespace Scanner

variable {scanner : Scanner} {scan : Scan} {open? : Option Entity} {e : Entity}

theorem grows_openVariable (hopen : scan.state.open? = open?) (name : String) (rest : Text) :
    scan.Grows (openVariable scan open? name rest) := by
  rw [openVariable]
  split
  · exact .of_found (by rw [Scan.found_eq hopen, Scan.found, ScanState.open?_resume]) rfl
  · exact .of_found (Scan.found_eq hopen).symm rfl

/-- The fields on the line of a header. -/
def inlineFields (rest : Text) : List (String × Text) :=
  let inline := inlineBody (trim rest)
  if inline.contains '=' then splitFields inline else []

/-- Whether the entity is complete with the line of its header. -/
def endsInline (rest : Text) : Bool :=
  (endsWith ['}', ','] (trim rest) || endsWith ['}'] (trim rest)) &&
    !(inlineBody (trim rest)).isEmpty

/-- The entity on the line of a header. -/
def headEntity (scanner : Scanner) (report : Report) (id : String) (rest : Text) :
    Entity × Report :=
  scanner.storeAll ⟨id, .empty⟩ report (inlineFields rest)

theorem openEntity_eq (id : String) (rest : Text) :
    scanner.openEntity scan open? id rest =
      if endsInline rest then
        { scan with
          state := .seeking
          entities := scan.entities ++ open?.toList ++ [(scanner.headEntity scan.report id rest).1]
          report := (scanner.headEntity scan.report id rest).2 }
      else
        { scan with
          state := .body (scanner.headEntity scan.report id rest).1
          entities := scan.entities ++ open?.toList
          report := (scanner.headEntity scan.report id rest).2 } := by
  rw [openEntity]
  simp only
  rw [← inlineFields, ← headEntity, ← endsInline]

theorem gains_headEntity (scanner : Scanner) (report : Report) (id : String) (rest : Text) :
    (scanner.headEntity report id rest).1.id = id ∧
      (inlineFields rest).map Prod.fst ⊆ (scanner.headEntity report id rest).1.fields.keys ∧
      (scanner.headEntity report id rest).2.skippedLines = report.skippedLines := by
  obtain ⟨hgains, hkeys, hskip⟩ := scanner.gains_storeAll ⟨id, .empty⟩ report (inlineFields rest)
  rw [headEntity]
  exact ⟨hgains.id, hkeys, hskip⟩

theorem found_openEntity (scanner : Scanner) (hopen : scan.state.open? = open?) (id : String)
    (rest : Text) :
    (scanner.openEntity scan open? id rest).found =
        scan.found ++ [(scanner.headEntity scan.report id rest).1] ∧
      (scanner.openEntity scan open? id rest).report.skippedLines = scan.report.skippedLines := by
  obtain ⟨-, -, hskip⟩ := scanner.gains_headEntity scan.report id rest
  generalize hhead : scanner.headEntity scan.report id rest = head at hskip
  rw [Scan.found_eq hopen, openEntity_eq, hhead]
  split
  · exact ⟨List.append_nil _, hskip⟩
  · exact ⟨rfl, hskip⟩

/-- The fields on a line of a body go to the open entity; a line that starts with no dot is counted,
unless there is nothing to lose on it. -/
theorem bodyFields_cases (scanner : Scanner) (scan : Scan) (e : Entity) (line : Text) :
    ∃ e', (scanner.bodyFields scan e line).state = .body e' ∧
      (scanner.bodyFields scan e line).entities = scan.entities ∧ e.Gains e' ∧
      scan.report.skippedLines ≤ (scanner.bodyFields scan e line).report.skippedLines ∧
      (startsWith ['.'] line = true → (splitFields line).map Prod.fst ⊆ e'.fields.keys) ∧
      (startsWith ['.'] line = false → isStructural line = false →
        scan.report.skippedLines < (scanner.bodyFields scan e line).report.skippedLines) := by
  cases hdot : startsWith ['.'] line with
  | true =>
    obtain ⟨hgains, hkeys, hskip⟩ := scanner.gains_storeAll e
      (if (splitFields line).isEmpty then scan.report.skipLine else scan.report) (splitFields line)
    rw [bodyFields, if_pos hdot]
    refine ⟨_, rfl, rfl, hgains, ?_, fun _ => hkeys, fun h => Bool.noConfusion h⟩
    refine Nat.le_trans ?_ (Nat.le_of_eq hskip.symm)
    split
    · exact Nat.le_succ _
    · exact Nat.le_refl _
  | false =>
    rw [bodyFields, if_neg (by simp [hdot])]
    refine ⟨e, rfl, rfl, .refl e, ?_, fun h => Bool.noConfusion h, fun _ hline => ?_⟩
    · show _ ≤ (if isStructural line then scan.report else scan.report.skipLine).skippedLines
      split
      · exact Nat.le_refl _
      · exact Nat.le_succ _
    · simp only [hline]
      exact Nat.lt_succ_self _

theorem grows_bodyFields (hopen : scan.state.open? = some e) (line : Text) :
    scan.Grows (scanner.bodyFields scan e line) := by
  obtain ⟨e', hstate, hentities, hgains, hskip, -⟩ := bodyFields_cases scanner scan e line
  refine .gained scan.entities e e' (Scan.found_eq hopen) ?_ hgains hskip
  rw [Scan.found, hstate, hentities]
  rfl

theorem grows_bodyLine (hopen : scan.state.open? = some e) (line : Text) :
    scan.Grows (scanner.bodyLine scan e line) := by
  have hfound := Scan.found_eq hopen
  rw [bodyLine]
  split
  · exact .of_found (by rw [hfound]; exact List.append_nil _) rfl
  · split
    · simp only
      split
      · exact grows_bodyFields hopen _
      · exact .of_found hfound.symm rfl
    · exact grows_bodyFields hopen _

theorem grows_plainLine (hopen : scan.state.open? = open?) (line : Text) :
    scan.Grows (scanner.plainLine scan open? line) := by
  cases hraw : scanner.rawText line with
  | some opener =>
    simp only [plainLine, hraw]
    exact grows_openVariable hopen _ _
  | none =>
    cases hheader : scanner.header line with
    | some head =>
      simp only [plainLine, hraw, hheader]
      have h := found_openEntity scanner hopen head.1 head.2
      exact .opened _ h.1 (Nat.le_of_eq h.2.symm)
    | none =>
      simp only [plainLine, hraw, hheader]
      cases open? with
      | none => exact .of_found (Scan.found_eq hopen).symm rfl
      | some e => exact grows_bodyLine hopen _

/-- **All that a line does to what was found.** -/
theorem grows_step (scanner : Scanner) (scan : Scan) (line : Text) :
    scan.Grows (scanner.step scan line) := by
  rw [step]
  cases hstate : scan.state with
  | seeking => exact grows_plainLine (congrArg ScanState.open? hstate) line
  | body e => exact grows_plainLine (congrArg ScanState.open? hstate) line
  | literal e key read =>
    have hfound : scan.found = scan.entities ++ [e] := Scan.found_eq (congrArg ScanState.open? hstate)
    simp only
    split
    · exact .gained scan.entities e _ hfound rfl (scanner.gains_store e scan.report key _).1
        (Nat.le_refl _)
    · exact .of_found hfound.symm rfl
  | «variable» open? name read =>
    have hfound : scan.found = scan.entities ++ open?.toList :=
      Scan.found_eq (congrArg ScanState.open? hstate)
    simp only
    split
    · exact .of_found (by rw [hfound, Scan.found, ScanState.open?_resume]) rfl
    · exact .of_found hfound.symm rfl

/-! ## What a run does to what was found -/

theorem skippedLines_le_foldl (scanner : Scanner) (ls : List Text) (scan : Scan) :
    scan.report.skippedLines ≤ (ls.foldl scanner.step scan).report.skippedLines := by
  induction ls generalizing scan with
  | nil => exact Nat.le_refl _
  | cons l ls ih => exact Nat.le_trans (scanner.grows_step scan l).skippedLines_le (ih _)

/-- An entity that was found after others stays there, and keeps its keys. -/
theorem found_foldl (scanner : Scanner) {done later : List Entity} (ls : List Text)
    (h : scan.found = done ++ e :: later) :
    ∃ e' later', (ls.foldl scanner.step scan).found = done ++ e' :: later' ∧ e.Gains e' := by
  induction ls generalizing scan e later with
  | nil => exact ⟨e, later, h, .refl e⟩
  | cons l ls ih =>
    obtain ⟨e₁, later₁, h₁, hgains₁⟩ : ∃ e₁ later₁,
        (scanner.step scan l).found = done ++ e₁ :: later₁ ∧ e.Gains e₁ := by
      cases scanner.grows_step scan l with
      | opened new found _ =>
        exact ⟨e, later ++ new, by rw [found, h, List.append_assoc]; rfl, .refl e⟩
      | gained all last last' found found' gains _ =>
        rw [h] at found
        rcases List.eq_nil_or_concat later with rfl | ⟨init, c, rfl⟩
        · obtain ⟨rfl, hlast⟩ := List.append_inj' found rfl
          obtain rfl : e = last := (List.cons.inj hlast).1
          exact ⟨last', [], found', gains⟩
        · rw [List.concat_eq_append, ← List.cons_append, ← List.append_assoc] at found
          obtain ⟨rfl, -⟩ := List.append_inj' found rfl
          exact ⟨e, init ++ [last'], by rw [found', List.append_assoc]; rfl, .refl e⟩
    obtain ⟨e', later', h', hgains'⟩ := ih h₁
    exact ⟨e', later', h', hgains₁.trans hgains'⟩

end Scanner

/-! ## The parts of a body

The parts are those of the text and not of the scan: which lines belong to a literal is said by the
line that opens it and the one that closes it. -/

/-- A line of a body without its comment. -/
def bodyText (line : Text) : Text := trim (stripComment line)

/-- A part of the body of an entity. -/
inductive BodyPart
  /-- A line with fields, or without any data. -/
  | fields (line : Text)
  /-- A string literal: the line that opens it, those inside, and the one that closes it. -/
  | literal (key : String) (opener : Text) (inner : List Text) (closing : Text)
  /-- The text of a variable: the line that opens it, those inside, and the one that closes it. -/
  | text (opener : Text) (inner : List Text) (closing : Text)

namespace BodyPart

/-- The lines of a part. -/
def lines : BodyPart → List Text
  | fields line => [line]
  | literal _ opener inner closing => opener :: (inner ++ [closing])
  | text opener inner closing => opener :: (inner ++ [closing])

/-- The part holds a designator under `key`: that of its literal, or one on its line.  On a line
that starts with a dot only a place counts where a field starts, and a directive of the
preprocessor holds none. -/
def Holds (key : String) : BodyPart → Prop
  | fields line => ∃ before, IsDesignatorAfter key before (bodyText line) ∧
      startsWith ['#'] (bodyText line) = false ∧
      (startsWith ['.'] (bodyText line) = true → StartsField before)
  | literal k _ _ _ => k = key
  | text _ _ _ => False

end BodyPart

namespace Scanner

/-- The scanner reads the lines as a part of a body. -/
def IsPart (scanner : Scanner) : BodyPart → Prop
  | .fields line =>
      scanner.rawText line = none ∧ scanner.header line = none ∧ endsBody (bodyText line) = false ∧
      ∀ o ∈ literalOpenerAt? (bodyText line), (segments o.2).closed = true
  | .literal key opener inner closing =>
      scanner.rawText opener = none ∧ scanner.header opener = none ∧
      (literalOpenerAt? (bodyText opener)).map Prod.fst = some key ∧
      (∀ o ∈ literalOpenerAt? (bodyText opener), (segments o.2).closed = false) ∧
      (∀ l ∈ inner, (segments l).closed = false) ∧ (segments closing).closed = true
  | .text opener inner closing =>
      scanner.rawText opener ≠ none ∧
      (∀ o ∈ scanner.rawText opener, (segments o.2).closed = false) ∧
      (∀ l ∈ inner, endsVariable (segments l) l = false) ∧
      endsVariable (segments closing) closing = true

instance (scanner : Scanner) : DecidablePred scanner.IsPart
  | .fields _ => inferInstanceAs (Decidable (_ ∧ _))
  | .literal .. => inferInstanceAs (Decidable (_ ∧ _))
  | .text .. => inferInstanceAs (Decidable (_ ∧ _))

/-- Between two points of a scan the open entity has stayed open and has gained fields. -/
structure Stays (scan scan' : Scan) (e e' : Entity) : Prop where
  /-- The entity is still open. -/
  state : scan'.state = .body e'
  /-- No other entity has been closed. -/
  entities : scan'.entities = scan.entities
  /-- The entity has kept its keys. -/
  gains : e.Gains e'

variable {scanner : Scanner} {scan : Scan} {e : Entity}

theorem step_body {line : Text} (hstate : scan.state = .body e)
    (hraw : scanner.rawText line = none) (hheader : scanner.header line = none) :
    scanner.step scan line = scanner.bodyLine scan e (bodyText line) := by
  rw [step, hstate]
  simp only [plainLine, hraw, hheader, bodyText]

/-- The lines inside a literal or the text of a variable leave it open. -/
theorem foldl_inside (scanner : Scanner) (scan : Scan) (state : Text → ScanState)
    {inner : List Text} (h : ∀ l ∈ inner, ∀ read, scanner.step { scan with state := state read } l =
      { scan with state := state (read ++ (segments l).text) }) (read : Text) :
    ∃ read', inner.foldl scanner.step { scan with state := state read } =
      { scan with state := state read' } := by
  induction inner generalizing read with
  | nil => exact ⟨read, rfl⟩
  | cons l inner ih =>
    rw [List.foldl_cons, h l List.mem_cons_self]
    exact ih (fun m hm => h m (List.mem_cons_of_mem l hm)) _

/-- A literal or the text of a variable, from the line that opens it to the one that closes it. -/
theorem foldl_opened (state : Text → ScanState) (first : Text) {opener closing : Text}
    {inner : List Text} {closed : Text → Scan}
    (hopener : scanner.step scan opener = { scan with state := state first })
    (hinner : ∀ l ∈ inner, ∀ read, scanner.step { scan with state := state read } l =
      { scan with state := state (read ++ (segments l).text) })
    (hclosing : ∀ read, scanner.step { scan with state := state read } closing = closed read) :
    ∃ read, (opener :: (inner ++ [closing])).foldl scanner.step scan = closed read := by
  obtain ⟨read, hread⟩ := foldl_inside scanner scan state hinner first
  refine ⟨read, ?_⟩
  rw [List.foldl_cons, hopener, List.foldl_append, hread, List.foldl_cons, List.foldl_nil, hclosing]

theorem endsBody_of_startsWith_dot {line : Text} (h : startsWith ['.'] line = true) :
    endsBody line = false := by
  obtain ⟨r, rfl⟩ := startsWith_iff.1 h
  simp [endsBody]

theorem startsWith_dot_of_literalOpenerAt? {line : Text} {opener : String × Text}
    (h : literalOpenerAt? line = some opener) : startsWith ['.'] line = true := by
  rw [literalOpenerAt?, Option.bind_eq_bind, Option.bind_eq_some_iff] at h
  obtain ⟨r, hr, -⟩ := h
  rw [startsWith, hr]
  rfl

/-- A line that holds a designator has something to lose. -/
theorem isStructural_eq_false {key : String} {before line : Text}
    (h : IsDesignatorAfter key before line) (hdirective : startsWith ['#'] line = false) :
    isStructural line = false := by
  obtain ⟨-, rest, hrest, rfl⟩ := h
  have hne := hrest.ne_nil
  cases before with
  | nil => simp [isStructural, startsWith, dropStart?]
  | cons c before =>
    rw [isStructural, hdirective]
    simp

theorem IsPart.foldl_fields {line : Text} (hp : scanner.IsPart (.fields line))
    (hstate : scan.state = .body e) :
    (BodyPart.lines (.fields line)).foldl scanner.step scan =
      scanner.bodyFields scan e (bodyText line) := by
  obtain ⟨hraw, hheader, hends, hliteral⟩ := hp
  show scanner.step scan line = _
  rw [step_body hstate hraw hheader, bodyLine, hends]
  cases hopen : literalOpenerAt? (bodyText line) with
  | none => rfl
  | some opener => simp only [hliteral _ hopen, Bool.false_eq_true, if_false, if_true]

/-- A literal is stored as a field. -/
theorem IsPart.exists_foldl_literal {key : String} {opener closing : Text} {inner : List Text}
    (hp : scanner.IsPart (.literal key opener inner closing)) (hstate : scan.state = .body e) :
    ∃ read, (BodyPart.lines (.literal key opener inner closing)).foldl scanner.step scan =
      { scan with
        state := .body (scanner.store e scan.report key (read ++ (segments closing).text)).1
        report := (scanner.store e scan.report key (read ++ (segments closing).text)).2 } := by
  obtain ⟨hraw, hheader, hkey, hunclosed, hinner, hclosing⟩ := hp
  obtain ⟨⟨k, rest⟩, hopener, hfst⟩ := Option.map_eq_some_iff.1 hkey
  obtain rfl : k = key := hfst
  have hopen := hunclosed _ hopener
  have hends := endsBody_of_startsWith_dot (startsWith_dot_of_literalOpenerAt? hopener)
  refine foldl_opened (.literal e k) (segments rest).text ?_ ?_ ?_
  · rw [step_body hstate hraw hheader, bodyLine, hends, hopener]
    simp only [hopen, Bool.false_eq_true, if_false]
  · intro l hl _
    simp only [step, hinner l hl, Bool.false_eq_true, if_false]
  · intro _
    simp only [step, hclosing, if_true]

/-- The text of a variable leaves the entity as it is. -/
theorem IsPart.exists_foldl_text {opener closing : Text} {inner : List Text}
    (hp : scanner.IsPart (.text opener inner closing)) (hstate : scan.state = .body e) :
    ∃ name read, (BodyPart.lines (.text opener inner closing)).foldl scanner.step scan =
      { scan with
        state := .body e
        rawTexts := insertText name (read ++ (segments closing).text) scan.rawTexts } := by
  obtain ⟨hsome, hunclosed, hinner, hclosing⟩ := hp
  obtain ⟨⟨name, rest⟩, hopener⟩ := Option.ne_none_iff_exists'.1 hsome
  have hopen := hunclosed _ hopener
  refine ⟨name, foldl_opened (.variable (some e) name) (segments rest).text ?_ ?_ ?_⟩
  · simp only [step, hstate, plainLine, hopener, openVariable, hopen, Bool.false_eq_true, if_false]
  · intro l hl _
    simp only [step, hinner l hl, Bool.false_eq_true, if_false]
  · intro _
    simp only [step, hclosing, if_true, ScanState.resume]

/-- **A part of a body.**  The entity stays open, and when the tally of skipped lines is still zero
after the part, every designator that the part holds is a key of it. -/
theorem IsPart.run {p : BodyPart} (hp : scanner.IsPart p) (hstate : scan.state = .body e) :
    ∃ e', Stays scan (p.lines.foldl scanner.step scan) e e' ∧
      ((p.lines.foldl scanner.step scan).report.skippedLines = 0 →
        ∀ key, p.Holds key → key ∈ e'.fields.keys) := by
  cases p with
  | fields line =>
    obtain ⟨e', hstate', hentities, hgains, -, hkeys, hskip⟩ :=
      bodyFields_cases scanner scan e (bodyText line)
    rw [hp.foldl_fields hstate]
    refine ⟨e', ⟨hstate', hentities, hgains⟩,
      fun hzero key ⟨before, hdesignator, hdirective, hstart⟩ => ?_⟩
    cases hdot : startsWith ['.'] (bodyText line) with
    | true =>
      refine hkeys hdot (mem_splitFields ?_ (hstart hdot))
      rwa [bodyText, trim_trim, ← bodyText]
    | false =>
      have hlt := hskip hdot (isStructural_eq_false hdesignator hdirective)
      omega
  | literal key opener inner closing =>
    obtain ⟨read, hfold⟩ := hp.exists_foldl_literal hstate
    obtain ⟨hgains, hmem⟩ :=
      scanner.gains_store e scan.report key (read ++ (segments closing).text)
    rw [hfold]
    exact ⟨_, ⟨rfl, rfl, hgains⟩, fun _ _ hk => hk ▸ hmem⟩
  | text opener inner closing =>
    obtain ⟨name, read, hfold⟩ := hp.exists_foldl_text hstate
    rw [hfold]
    exact ⟨e, ⟨rfl, rfl, .refl e⟩, fun _ _ h => h.elim⟩

/-- The parts of a body in turn. -/
theorem run_parts {parts : List BodyPart} (hparts : ∀ p ∈ parts, scanner.IsPart p)
    (hstate : scan.state = .body e) :
    ∃ e', Stays scan ((parts.flatMap BodyPart.lines).foldl scanner.step scan) e e' ∧
      (((parts.flatMap BodyPart.lines).foldl scanner.step scan).report.skippedLines = 0 →
        ∀ key, ∀ p ∈ parts, p.Holds key → key ∈ e'.fields.keys) := by
  induction parts generalizing scan e with
  | nil => exact ⟨e, ⟨hstate, rfl, .refl e⟩, fun _ _ p hp => absurd hp List.not_mem_nil⟩
  | cons p parts ih =>
    obtain ⟨e₁, hstays, hkeys⟩ := (hparts p List.mem_cons_self).run hstate
    obtain ⟨e', hrest, hkeys'⟩ := ih (fun q hq => hparts q (List.mem_cons_of_mem p hq)) hstays.state
    rw [List.flatMap_cons, List.foldl_append]
    refine ⟨e', ⟨hrest.state, hrest.entities.trans hstays.entities, hstays.gains.trans hrest.gains⟩,
      fun hzero key q hq hholds => ?_⟩
    rcases List.mem_cons.1 hq with rfl | hq
    · have hfirst := Nat.le_trans (skippedLines_le_foldl scanner (parts.flatMap BodyPart.lines) _)
        (Nat.le_of_eq hzero)
      exact hrest.gains.keys (hkeys (Nat.le_zero.1 hfirst) key hholds)
    · exact hkeys' hzero key q hq hholds

end Scanner

/-! ## Entities -/

/-- A designator under `key` stands behind a header where a field starts. -/
def HoldsInline (rest : Text) (key : String) : Prop :=
  ∃ before, IsDesignatorAfter key before (Scanner.inlineBody (trim rest)) ∧ StartsField before

/-- The lines of an entity: that of its header, with the id and what follows the header, and the
parts of its body. -/
structure EntityText where
  /-- The line of the header. -/
  head : Text
  /-- The id in the header. -/
  id : String
  /-- What follows the header on its line. -/
  rest : Text
  /-- The parts of the body. -/
  parts : List BodyPart

namespace EntityText

def lines (t : EntityText) : List Text := t.head :: t.parts.flatMap BodyPart.lines

/-- A designator under `key` stands on the line of the header or in a part of the body. -/
def Holds (t : EntityText) (key : String) : Prop :=
  HoldsInline t.rest key ∨ ∃ p ∈ t.parts, p.Holds key

end EntityText

/-- The next line is read as one that stands outside literals and texts of variables. -/
def ScanState.isOutside : ScanState → Bool
  | .seeking => true
  | .body _ => true
  | .literal _ _ _ => false
  | .variable _ _ _ => false

namespace Scanner

/-- The scanner reads the lines as those of an entity.  Parts follow the line of the header only if
the entity is not complete with it. -/
structure IsEntity (scanner : Scanner) (t : EntityText) : Prop where
  /-- The line of the header opens no text of a variable. -/
  rawText : scanner.rawText t.head = none
  /-- The header is found on its line. -/
  header : scanner.header t.head = some (t.id, t.rest)
  /-- The entity is not complete with that line, or nothing follows it. -/
  inline : t.parts = [] ∨ endsInline t.rest = false
  /-- The lines of every part are read as that part. -/
  parts : ∀ p ∈ t.parts, scanner.IsPart p

variable {scanner : Scanner} {scan : Scan}

/-- The line of a header outside literals opens an entity with its inline fields. -/
theorem step_header {line rest : Text} {id : String} (houtside : scan.state.isOutside = true)
    (hraw : scanner.rawText line = none) (hheader : scanner.header line = some (id, rest)) :
    scanner.step scan line = scanner.openEntity scan scan.state.open? id rest := by
  rw [step]
  cases hstate : scan.state with
  | seeking => simp only [plainLine, hraw, hheader, ScanState.open?]
  | body e => simp only [plainLine, hraw, hheader, ScanState.open?]
  | literal e key read =>
    rw [hstate] at houtside
    exact absurd houtside Bool.false_ne_true
  | «variable» open? name read =>
    rw [hstate] at houtside
    exact absurd houtside Bool.false_ne_true

theorem keys_headEntity (scanner : Scanner) (report : Report) (id : String) {rest : Text}
    {key : String} (h : HoldsInline rest key) :
    key ∈ (scanner.headEntity report id rest).1.fields.keys := by
  obtain ⟨before, h, hstart⟩ := h
  have hequals : (inlineBody (trim rest)).contains '=' = true := by
    obtain ⟨-, value, ⟨gap, v, -, rfl⟩, heq⟩ := h
    simp [heq]
  have hfields : inlineFields rest = splitFields (inlineBody (trim rest)) := by
    rw [inlineFields]
    simp only [hequals, if_true]
  have htrim : trim (inlineBody (trim rest)) = inlineBody (trim rest) := trim_trim _
  obtain ⟨-, hkeys, -⟩ := scanner.gains_headEntity report id rest
  refine hkeys ?_
  rw [hfields]
  exact mem_splitFields (by rwa [htrim]) hstart

/-- The lines of an entity add it to what was found; when the tally of skipped lines is zero after
them, its keys are those of all designators in them. -/
theorem IsEntity.run {t : EntityText} (ht : scanner.IsEntity t)
    (houtside : scan.state.isOutside = true) :
    ∃ e, (t.lines.foldl scanner.step scan).found = scan.found ++ [e] ∧ e.id = t.id ∧
      ((t.lines.foldl scanner.step scan).report.skippedLines = 0 →
        ∀ key, t.Holds key → key ∈ e.fields.keys) := by
  have hstep := step_header houtside ht.rawText ht.header
  have hinline : ∀ key, HoldsInline t.rest key →
      key ∈ (scanner.headEntity scan.report t.id t.rest).1.fields.keys :=
    fun _ => keys_headEntity scanner scan.report t.id
  obtain ⟨hid, -, -⟩ := scanner.gains_headEntity scan.report t.id t.rest
  obtain ⟨hopened, -⟩ := found_openEntity scanner (Eq.refl scan.state.open?) t.id t.rest
  rw [EntityText.lines, List.foldl_cons, hstep]
  generalize hhead : (scanner.headEntity scan.report t.id t.rest).1 = head at hid hinline hopened
  rcases ht.inline with hnil | hopen
  · refine ⟨head, ?_, hid, fun _ key hholds => ?_⟩
    · rw [hnil, List.flatMap_nil, List.foldl_nil]
      exact hopened
    · rcases hholds with hholds | ⟨p, hp, -⟩
      · exact hinline key hholds
      · rw [hnil] at hp
        exact absurd hp List.not_mem_nil
  · have hstate : (scanner.openEntity scan scan.state.open? t.id t.rest).state = .body head := by
      rw [openEntity_eq, hopen, if_neg Bool.false_ne_true, hhead]
    have hentities : (scanner.openEntity scan scan.state.open? t.id t.rest).entities =
        scan.found := by
      rw [openEntity_eq, hopen, if_neg Bool.false_ne_true, Scan.found]
    obtain ⟨e, hstays, hkeys⟩ := run_parts ht.parts hstate
    refine ⟨e, ?_, hstays.gains.id.trans hid, fun hzero key hholds => ?_⟩
    · rw [Scan.found, hstays.state, hstays.entities, hentities]
      rfl
    · rcases hholds with hholds | ⟨p, hp, hholds⟩
      · exact hstays.gains.keys (hinline key hholds)
      · exact hkeys hzero key p hp hholds

/-- **A scan that skipped no line has kept the designators of every entity.**  Whatever precedes
the lines of the entity, as long as no literal is open there, and whatever follows them. -/
theorem keys_of_skippedLines_eq_zero {s : Text} {before after : List Text} {t : EntityText}
    (hs : lines s = before ++ (t.lines ++ after))
    (hbefore : (before.foldl scanner.step {}).state.isOutside = true) (ht : scanner.IsEntity t)
    (hzero : (scanner.scan s).report.skippedLines = 0) :
    ∃ e later, (scanner.scan s).entities = (scanner.scanLines before).entities ++ e :: later ∧
      e.id = t.id ∧ ∀ key, t.Holds key → key ∈ e.fields.keys := by
  obtain ⟨e, hfound, hid, hkeys⟩ := ht.run hbefore
  obtain ⟨e', later, hfound', hgains⟩ := found_foldl scanner after hfound
  have hscan : scanner.scan s =
      finish (after.foldl scanner.step (t.lines.foldl scanner.step (before.foldl scanner.step {}))) := by
    rw [scan, scanLines, hs, List.foldl_append, List.foldl_append]
  have hle := skippedLines_le_foldl scanner after
    (t.lines.foldl scanner.step (before.foldl scanner.step {}))
  rw [hscan] at hzero ⊢
  refine ⟨e', later, hfound', hgains.id.trans hid, fun key hholds => hgains.keys ?_⟩
  exact hkeys (Nat.le_zero.1 (Nat.le_trans hle (Nat.le_of_eq hzero))) key hholds

/-- An entity with a field on the line of its header, two on a line of its body and a description on
several lines. -/
def keptEntity : EntityText where
  head := "[SPECIES_A] = \x7b .baseHP = 45,".toList
  id := "SPECIES_A"
  rest := " \x7b .baseHP = 45,".toList
  parts :=
    [.fields "  .types = \x7b X \x7d, .height = 7, // dm".toList,
     .literal "description" "  .description = COMPOUND_STRING(".toList ["    \"One\\n\"".toList]
      "    \"two.\"),".toList]

def keptTable : Text := unlines (keptEntity.lines ++ ["\x7d,".toList])

theorem keptEntity_holds :
    ∀ key ∈ ["baseHP", "types", "height", "description"], keptEntity.Holds key := by
  have hline : BodyPart.fields "  .types = \x7b X \x7d, .height = 7, // dm".toList ∈
      keptEntity.parts := List.mem_cons_self
  have hliteral : BodyPart.literal "description" "  .description = COMPOUND_STRING(".toList
      ["    \"One\\n\"".toList] "    \"two.\"),".toList ∈ keptEntity.parts :=
    List.mem_cons_of_mem _ List.mem_cons_self
  have hdirective : startsWith ['#']
      (bodyText "  .types = \x7b X \x7d, .height = 7, // dm".toList) = false := by
    decide +kernel
  simp only [List.forall_mem_cons]
  refine ⟨.inl ⟨[], ?_, .inl rfl⟩, .inr ⟨_, hline, [], ?_, hdirective, fun _ => .inl rfl⟩,
    .inr ⟨_, hline, ".types = \x7b X \x7d, ".toList, ?_, hdirective, fun _ => .inr ?_⟩,
    .inr ⟨_, hliteral, rfl⟩, by simp⟩
  · exact ⟨by decide, "baseHP = 45".toList, ⟨[' '], " 45".toList, by decide, rfl⟩, by decide +kernel⟩
  · exact ⟨by decide, "types = \x7b X \x7d, .height = 7,".toList,
      ⟨[' '], " \x7b X \x7d, .height = 7,".toList, by decide, by decide +kernel⟩, by decide +kernel⟩
  · exact ⟨by decide, "height = 7,".toList, ⟨[' '], " 7,".toList, by decide, rfl⟩, by decide +kernel⟩
  · exact ⟨".types = \x7b X \x7d".toList, by decide +kernel, by decide⟩

theorem keys_of_skippedLines_eq_zero_keptTable :
    (Species.scanner.scan keptTable).report.skippedLines = 0 ∧
      ∃ e later, (Species.scanner.scan keptTable).entities = e :: later ∧ e.id = "SPECIES_A" ∧
        ∀ key ∈ ["baseHP", "types", "height", "description"], key ∈ e.fields.keys := by
  have hzero : (Species.scanner.scan keptTable).report.skippedLines = 0 := by decide +kernel
  have hlines : lines keptTable = [] ++ (keptEntity.lines ++ ["\x7d,".toList]) := by decide +kernel
  have hentity : Species.scanner.IsEntity keptEntity := by
    refine ⟨?_, ?_, .inr ?_, ?_⟩ <;> decide +kernel
  obtain ⟨e, later, hentities, hid, hkeys⟩ :=
    keys_of_skippedLines_eq_zero hlines (Eq.refl true) hentity hzero
  exact ⟨hzero, e, later, hentities, hid, fun key hkey => hkeys key (keptEntity_holds key hkey)⟩

/-! ## The end of a literal -/

/-- **What stands after the end of a literal on its line is lost and not counted**: the scan is the
same without it. -/
theorem scanLines_ignores_tail {before after : List Text} {closing tail read : Text} {e : Entity}
    {key : String} (hbefore : (before.foldl scanner.step {}).state = .literal e key read)
    (hclosing : (segments closing).closed = true) (htail : '"' ∉ tail) :
    scanner.scanLines (before ++ (closing ++ tail) :: after) =
      scanner.scanLines (before ++ closing :: after) := by
  have hstep : scanner.step (before.foldl scanner.step {}) (closing ++ tail) =
      scanner.step (before.foldl scanner.step {}) closing := by
    simp only [step, hbefore, segments_append_of_closed hclosing htail]
  simp only [scanLines, List.foldl_append, List.foldl_cons, hstep]

/-- A table in which a field stands after the end of a literal. -/
def lossyTable : Text := unlines
  ["[SPECIES_A] =".toList, "\x7b".toList, "    .description = COMPOUND_STRING(".toList,
    "        \"Text.\"), .height = 7,".toList, "\x7d,".toList]

/-- No line of the table is skipped, and its entity has no height. -/
theorem scan_lossyTable :
    (Species.scanner.scan lossyTable).report.skippedLines = 0 ∧
      contains ".height = 7".toList lossyTable = true ∧
      (Species.scanner.scan lossyTable).entities.map (fun e => (e.id, e.fields.keys)) =
        [("SPECIES_A", ["description"])] := by
  decide +kernel

end Scanner

end TableSync
