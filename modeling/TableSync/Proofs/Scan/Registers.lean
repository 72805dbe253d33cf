import TableSync.Proofs.Scan.Accounting

/-!
# A scan with the open entity kept apart

The state of a scan holds the entity that is open.  A machine with two registers, one for the phase
of the scan and one for an entity that may be open, could come to stand in a body without an entity,
or between entities with one.  It never does, and this file says so by running both side by side.

* `Registers.step` is a line for this machine, which asks whether an entity is open wherever it
  needs one.  It has a branch for each of the cases that should not come up: a literal that is
  closed while no entity is open would lose its text.
* `Scan.registers` reads the two registers off the state of a scan, and `registers_step` says that a
  line does the same to both; `Registers.run_eq` is any number of lines, and `Registers.finish_run`
  the end of the text.
* `Registers.InStep` is how phase and open entity go together.  It is not shown by an invariant of
  the machine: registers that were read off a scan are in step, whatever the scan is
  (`inStep_registers`), and by `run_eq` there are no others.
* `Registers.InStep.step_closed` draws the conclusion for the end of a literal.

So the branches of the machine that ask for an open entity in vain are never taken, and the state of
`Scanner.step`, in which they cannot be written down, loses nothing.
-/

set_option autoImplicit false

namespace TableSync

/-- Where a scan stands, whatever entity is open. -/
inductive ScanPhase
  | seeking
  | body
  | literal (key : String) (read : Text)
  | variable (name : String) (read : Text)
  deriving DecidableEq

/-- A scan whose phase and whose open entity are kept apart. -/
structure Registers where
  /-- What the next line is read as; no entity is kept in it. -/
  phase : ScanPhase := .seeking
  /-- The entity whose fields are being read. -/
  open? : Option Entity := none
  /-- The entities that are finished, in the order of the text. -/
  entities : List Entity := []
  /-- The texts of variables by their names. -/
  rawTexts : List (String × Text) := []
  /-- The tally so far. -/
  report : Report := {}

/-- The phase after the text of a variable has ended. -/
def ScanPhase.resume (open? : Option Entity) : ScanPhase := if open?.isSome then .body else .seeking

namespace Registers

variable (scanner : Scanner)

/-- A line in which a variable opens. -/
def openVariable (now : Registers) (name : String) (rest : Text) : Registers :=
  let seg := segments rest
  if seg.closed then
    { now with phase := .resume now.open?, rawTexts := insertText name seg.text now.rawTexts }
  else { now with phase := .variable name seg.text }

/-- The line of a header. -/
def openEntity (now : Registers) (id : String) (rest : Text) : Registers :=
  let entities := now.entities ++ now.open?.toList
  let head := scanner.headEntity now.report id rest
  if Scanner.endsInline rest then
    { now with
      phase := .seeking
      open? := none
      entities := entities ++ [head.1]
      report := head.2 }
  else { now with phase := .body, open? := some head.1, entities, report := head.2 }

/-- The fields on a line of a body go to the open entity, if there is one. -/
def bodyFields (now : Registers) (line : Text) : Registers :=
  match startsWith ['.'] line, now.open? with
  | true, some e =>
    let fields := splitFields line
    let report := if fields.isEmpty then now.report.skipLine else now.report
    let (e, report) := scanner.storeAll e report fields
    { now with phase := .body, open? := some e, report }
  | _, _ =>
    { now with
      phase := .body
      report := if Scanner.isStructural line then now.report else now.report.skipLine }

/-- A line of a body, trimmed and without its comment. -/
def bodyLine (now : Registers) (line : Text) : Registers :=
  if Scanner.endsBody line then
    { now with phase := .seeking, open? := none, entities := now.entities ++ now.open?.toList }
  else
    match literalOpenerAt? line with
    | some (key, rest) =>
      let seg := segments rest
      if seg.closed then now.bodyFields scanner line
      else { now with phase := .literal key seg.text }
    | none => now.bodyFields scanner line

/-- A line outside string literals. -/
def plainLine (now : Registers) (line : Text) : Registers :=
  match scanner.rawText line with
  | some (name, rest) => now.openVariable name rest
  | none =>
    match scanner.header line with
    | some (id, rest) => now.openEntity scanner id rest
    | none =>
      if now.open?.isNone then { now with phase := .seeking }
      else now.bodyLine scanner (trim (stripComment line))

/-- A field is stored in the open entity, if there is one. -/
def store (now : Registers) (key : String) (raw : Text) : Registers :=
  match now.open? with
  | some e =>
    let (e, report) := scanner.store e now.report key raw
    { now with phase := .body, open? := some e, report }
  | none => { now with phase := .body }

/-- One line. -/
def step (now : Registers) (line : Text) : Registers :=
  match now.phase with
  | .seeking => now.plainLine scanner line
  | .body => now.plainLine scanner line
  | .literal key read =>
    let seg := segments line
    let read := read ++ seg.text
    if seg.closed then now.store scanner key read else { now with phase := .literal key read }
  | .variable name read =>
    let seg := segments line
    let read := read ++ seg.text
    if Scanner.endsVariable seg line then
      { now with phase := .resume now.open?, rawTexts := insertText name read now.rawTexts }
    else { now with phase := .variable name read }

/-- The end of the text. -/
def finish (now : Registers) : Registers where
  entities := now.entities ++ now.open?.toList
  rawTexts :=
    match now.phase with
    | .variable name read => insertText name read now.rawTexts
    | _ => now.rawTexts
  report := now.report

/-- Lines in turn. -/
def run (ls : List Text) : Registers := ls.foldl (step scanner) {}

end Registers

/-! ## The registers of a scan

The simulation follows the functions that a line goes through, one lemma for each of them.  The
hypothesis `scan.state.open? = …` is how a lemma gets the entity that the caller has found in the
state. -/

/-- The phase of a state. -/
def ScanState.phase : ScanState → ScanPhase
  | .seeking => .seeking
  | .body _ => .body
  | .literal _ key read => .literal key read
  | .variable _ name read => .variable name read

namespace ScanState

@[simp] theorem open?_seeking : seeking.open? = none := rfl

@[simp] theorem open?_body (e : Entity) : (body e).open? = some e := rfl

@[simp] theorem open?_literal (e : Entity) (key : String) (read : Text) :
    (literal e key read).open? = some e := rfl

@[simp] theorem open?_variable (open? : Option Entity) (name : String) (read : Text) :
    (ScanState.variable open? name read).open? = open? := rfl

@[simp] theorem phase_seeking : seeking.phase = .seeking := rfl

@[simp] theorem phase_body (e : Entity) : (body e).phase = .body := rfl

@[simp] theorem phase_literal (e : Entity) (key : String) (read : Text) :
    (literal e key read).phase = .literal key read := rfl

@[simp] theorem phase_variable (open? : Option Entity) (name : String) (read : Text) :
    (ScanState.variable open? name read).phase = .variable name read := rfl

@[simp] theorem phase_resume (open? : Option Entity) : (resume open?).phase = .resume open? := by
  cases open? <;> rfl

end ScanState

/-- The registers of a scan. -/
def Scan.registers (scan : Scan) : Registers where
  phase := scan.state.phase
  open? := scan.state.open?
  entities := scan.entities
  rawTexts := scan.rawTexts
  report := scan.report

namespace Scanner

variable {scan : Scan} {open? : Option Entity} {e : Entity}

theorem registers_openVariable (hopen : scan.state.open? = open?) (name : String) (rest : Text) :
    (openVariable scan open? name rest).registers = scan.registers.openVariable name rest := by
  rw [openVariable, Registers.openVariable]
  split
  · simp [Scan.registers, hopen, ScanState.open?_resume]
  · simp [Scan.registers, hopen]

theorem registers_openEntity (scanner : Scanner) (hopen : scan.state.open? = open?) (id : String)
    (rest : Text) :
    (scanner.openEntity scan open? id rest).registers =
      scan.registers.openEntity scanner id rest := by
  have hregister : scan.registers.open? = open? := hopen
  rw [openEntity_eq, Registers.openEntity, hregister]
  split <;> simp [Scan.registers]

theorem registers_bodyFields (scanner : Scanner) (hopen : scan.state.open? = some e) (line : Text) :
    (scanner.bodyFields scan e line).registers = scan.registers.bodyFields scanner line := by
  have hregister : scan.registers.open? = some e := hopen
  rw [bodyFields, Registers.bodyFields, hregister]
  cases startsWith ['.'] line with
  | true => rfl
  | false => simp [Scan.registers, hopen]

theorem registers_bodyLine (scanner : Scanner) (hopen : scan.state.open? = some e) (line : Text) :
    (scanner.bodyLine scan e line).registers = scan.registers.bodyLine scanner line := by
  have hfields := registers_bodyFields scanner hopen line
  rw [bodyLine, Registers.bodyLine]
  split
  · simp [Scan.registers, hopen]
  · cases literalOpenerAt? line with
    | some opener =>
      dsimp only
      split
      · exact hfields
      · simp [Scan.registers, hopen]
    | none => exact hfields

theorem registers_plainLine (scanner : Scanner) (hopen : scan.state.open? = open?) (line : Text) :
    (scanner.plainLine scan open? line).registers = scan.registers.plainLine scanner line := by
  have hregister : scan.registers.open? = open? := hopen
  cases hraw : scanner.rawText line with
  | some opener =>
    simp only [plainLine, Registers.plainLine, hraw]
    exact registers_openVariable hopen _ _
  | none =>
    cases hheader : scanner.header line with
    | some head =>
      simp only [plainLine, Registers.plainLine, hraw, hheader]
      exact registers_openEntity scanner hopen _ _
    | none =>
      simp only [plainLine, Registers.plainLine, hraw, hheader, hregister]
      cases open? with
      | none => simp [Scan.registers, hopen]
      | some e => exact registers_bodyLine scanner hopen _

/-- **A line does the same to a scan and to its registers.** -/
theorem registers_step (scanner : Scanner) (scan : Scan) (line : Text) :
    (scanner.step scan line).registers = scan.registers.step scanner line := by
  have hphase : scan.registers.phase = scan.state.phase := rfl
  have hregister : scan.registers.open? = scan.state.open? := rfl
  rw [step, Registers.step, hphase]
  cases hstate : scan.state with
  | seeking => exact registers_plainLine scanner (congrArg ScanState.open? hstate) line
  | body e => exact registers_plainLine scanner (congrArg ScanState.open? hstate) line
  | literal e key read =>
    rw [hstate] at hregister
    simp only [ScanState.phase_literal]
    split
    · rw [Registers.store, hregister]
      rfl
    · simp [Scan.registers, hstate]
  | «variable» open? name read =>
    simp only [ScanState.phase_variable]
    split
    · simp [Scan.registers, hstate, ScanState.open?_resume]
    · simp [Scan.registers, hstate]

end Scanner

namespace Registers

variable (scanner : Scanner)

/-- The machine with two registers goes through the lines as the scan does. -/
theorem run_eq (ls : List Text) : run scanner ls = (ls.foldl scanner.step {}).registers := by
  have hfrom : ∀ scan : Scan,
      ls.foldl (step scanner) scan.registers = (ls.foldl scanner.step scan).registers := by
    induction ls with
    | nil => exact fun _ => rfl
    | cons line ls ih =>
      intro scan
      rw [List.foldl_cons, ← scanner.registers_step, ih, List.foldl_cons]
  exact hfrom {}

/-- At the end of the text both have the same entities, texts and tally. -/
theorem finish_run (s : Text) : (run scanner (lines s)).finish = (scanner.scan s).registers := by
  rw [run_eq, Scanner.scan, Scanner.scanLines, Scanner.finish, finish]
  cases hstate : ((lines s).foldl scanner.step {}).state <;>
    simp [Scan.registers, hstate]

/-- An entity is open in the phases that need one, and none is between entities. -/
structure InStep (now : Registers) : Prop where
  /-- Between entities none is open. -/
  seeking : now.phase = .seeking → now.open? = none
  /-- In a body there is an entity that its fields go to. -/
  body : now.phase = .body → now.open?.isSome = true
  /-- In a literal there is an entity that takes its text. -/
  literal : ∀ key read, now.phase = .literal key read → now.open?.isSome = true

/-- The state of a scan holds no entity, or the one that is open. -/
theorem inStep_registers (scan : Scan) : scan.registers.InStep := by
  rw [Scan.registers]
  cases scan.state with
  | seeking => exact ⟨fun _ => rfl, ScanPhase.noConfusion, fun _ _ => ScanPhase.noConfusion⟩
  | body e => exact ⟨ScanPhase.noConfusion, fun _ => rfl, fun _ _ _ => rfl⟩
  | literal e key read => exact ⟨ScanPhase.noConfusion, fun _ => rfl, fun _ _ _ => rfl⟩
  | «variable» open? name read =>
    exact ⟨ScanPhase.noConfusion, ScanPhase.noConfusion, fun _ _ => ScanPhase.noConfusion⟩

/-- **Phase and open entity stay in step**, after any lines. -/
theorem inStep_run (ls : List Text) : (run scanner ls).InStep := by
  rw [run_eq]
  exact inStep_registers _

/-- **A literal that is closed is stored**: there is an entity that takes the field. -/
theorem InStep.step_closed {now : Registers} (h : now.InStep) {key : String} {read line : Text}
    (hphase : now.phase = .literal key read) (hclosed : (segments line).closed = true) :
    ∃ e, now.open? = some e ∧
      now.step scanner line = { now with
        phase := .body
        open? := some (scanner.store e now.report key (read ++ (segments line).text)).1
        report := (scanner.store e now.report key (read ++ (segments line).text)).2 } := by
  obtain ⟨e, he⟩ := Option.isSome_iff_exists.1 (h.literal key read hphase)
  refine ⟨e, he, ?_⟩
  rw [step, hphase]
  simp only [hclosed, if_true]
  rw [store, he]

end Registers

end TableSync
