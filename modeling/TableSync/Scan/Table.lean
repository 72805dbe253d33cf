import TableSync.Scan.Line
import TableSync.Scan.Report

/-!
# Scanning tables of designated initializers

A table is read line by line with an explicit state:

    seeking --[NAME] =--> body --.key = COMPOUND_STRING( --> literal
       ^                   |  ^                                |
       +------- }, --------+  +------------ ") ----------------+

and in the states `seeking` and `body` a variable `... = _(` may open, whose text is collected by
name until `);`.  The state holds the entity that is open, so an entity is open exactly in the
states that say so.

`Scanner.scan` reads a whole text; `Scanner.step` is one line.
-/

set_option autoImplicit false

namespace TableSync

/-- An entity of a table, with its fields in the order of the source. -/
structure Entity where
  /-- The name in the header. -/
  id : String
  /-- The fields that were stored. -/
  fields : Record

/-- Where a scan stands. -/
inductive ScanState
  /-- Between entities. -/
  | seeking
  /-- In the body of an entity. -/
  | body (open_ : Entity)
  /-- In a string literal that is the value of a field. -/
  | literal (open_ : Entity) (key : String) (read : Text)
  /-- In the text of a variable, possibly inside the body of an entity. -/
  | variable (open? : Option Entity) (name : String) (read : Text)

/-- The state after the text of a variable has ended. -/
def ScanState.resume : Option Entity → ScanState
  | none => .seeking
  | some e => .body e

/-- The entity that is open. -/
def ScanState.open? : ScanState → Option Entity
  | .seeking => none
  | .body e => some e
  | .literal e _ _ => some e
  | .variable e? _ _ => e?

/-- A scan in progress: the state, the entities that are complete, the texts of variables, and the
tally. -/
structure Scan where
  /-- Where the scan stands, with the entity that is open. -/
  state : ScanState := .seeking
  /-- The entities that are complete, in their order. -/
  entities : List Entity := []
  /-- The texts of variables by their names. -/
  rawTexts : List (String × Text) := []
  /-- The tally so far. -/
  report : Report := {}

/-- Puts a text under a name, in place of the one there. -/
def insertText (name : String) (text : Text) : List (String × Text) → List (String × Text)
  | [] => [(name, text)]
  | (n, t) :: rest => if n = name then (n, text) :: rest else (n, t) :: insertText name text rest

/-- How a table is scanned: which lines are headers of entities and which open the text of a
variable (each gives a name and the rest of the line), and how fields are read. -/
structure Scanner where
  /-- The id of the entity that opens on a line. -/
  header : Text → Option (String × Text)
  /-- The name of the variable whose text opens on a line. -/
  rawText : Text → Option (String × Text) := fun _ => none
  /-- The parsers of the fields. -/
  fields : FieldTable

namespace Scanner

/-- Reads a field of an entity. -/
def store (scanner : Scanner) (e : Entity) (report : Report) (key : String) (raw : Text) :
    Entity × Report :=
  let field := scanner.fields.parse key raw
  (⟨e.id, e.fields.insert field.key field.value⟩, report.note e.id field)

/-- Reads fields of an entity one after the other. -/
def storeAll (scanner : Scanner) (e : Entity) (report : Report) (fields : List (String × Text)) :
    Entity × Report :=
  fields.foldl (fun (e, report) (key, raw) => scanner.store e report key raw) (e, report)

/-- Whether a line ends the text of a variable. -/
def endsVariable (seg : Segments) (line : Text) : Bool :=
  seg.closed || endsWith ");".toList (trimEnd line)

/-- A line in which a variable opens. -/
def openVariable (scan : Scan) (open? : Option Entity) (name : String) (rest : Text) : Scan :=
  let seg := segments rest
  if seg.closed then
    { scan with state := .resume open?, rawTexts := insertText name seg.text scan.rawTexts }
  else { scan with state := .variable open? name seg.text }

/-- What stands on the line of a header within the braces of the body. -/
def inlineBody (rest : Text) : Text :=
  trim ((dropEndWhile (· = '}') (dropEndWhile (· = ',') rest)).dropWhile (· = '{'))

/-- The line of a header.  An entity that was open is complete; the new one may be complete with
this line, too. -/
def openEntity (scanner : Scanner) (scan : Scan) (open? : Option Entity) (id : String)
    (rest : Text) : Scan :=
  let rest := trim rest
  let inline := inlineBody rest
  let closed := endsWith ['}', ','] rest || endsWith ['}'] rest
  let fields := if inline.contains '=' then splitFields inline else []
  let (e, report) := scanner.storeAll ⟨id, .empty⟩ scan.report fields
  let entities := scan.entities ++ open?.toList
  if closed && !inline.isEmpty then
    { scan with state := .seeking, entities := entities ++ [e], report }
  else { scan with state := .body e, entities, report }

/-- Whether a line of a body holds no data. -/
def isStructural (line : Text) : Bool :=
  line.isEmpty || line = ['{'] || startsWith ['#'] line

/-- Whether a line ends a body. -/
def endsBody (line : Text) : Bool :=
  line = ['}', ','] || line = ['}'] || line = ['}', ';']

/-- The fields on a line of a body. -/
def bodyFields (scanner : Scanner) (scan : Scan) (e : Entity) (line : Text) : Scan :=
  if startsWith ['.'] line then
    let fields := splitFields line
    let report := if fields.isEmpty then scan.report.skipLine else scan.report
    let (e, report) := scanner.storeAll e report fields
    { scan with state := .body e, report }
  else
    { scan with
      state := .body e
      report := if isStructural line then scan.report else scan.report.skipLine }

/-- A line of a body, trimmed and without its comment. -/
def bodyLine (scanner : Scanner) (scan : Scan) (e : Entity) (line : Text) : Scan :=
  if endsBody line then { scan with state := .seeking, entities := scan.entities ++ [e] }
  else
    match literalOpenerAt? line with
    | some (key, rest) =>
      let seg := segments rest
      if seg.closed then scanner.bodyFields scan e line
      else { scan with state := .literal e key seg.text }
    | none => scanner.bodyFields scan e line

/-- A line outside string literals. -/
def plainLine (scanner : Scanner) (scan : Scan) (open? : Option Entity) (line : Text) : Scan :=
  match scanner.rawText line with
  | some (name, rest) => openVariable scan open? name rest
  | none =>
    match scanner.header line with
    | some (id, rest) => scanner.openEntity scan open? id rest
    | none =>
      match open? with
      | none => { scan with state := .seeking }
      | some e => scanner.bodyLine scan e (trim (stripComment line))

/-- One line. -/
def step (scanner : Scanner) (scan : Scan) (line : Text) : Scan :=
  match scan.state with
  | .seeking => scanner.plainLine scan none line
  | .body e => scanner.plainLine scan (some e) line
  | .literal e key read =>
    let seg := segments line
    let read := read ++ seg.text
    if seg.closed then
      let (e, report) := scanner.store e scan.report key read
      { scan with state := .body e, report }
    else { scan with state := .literal e key read }
  | .variable open? name read =>
    let seg := segments line
    let read := read ++ seg.text
    if endsVariable seg line then
      { scan with state := .resume open?, rawTexts := insertText name read scan.rawTexts }
    else { scan with state := .variable open? name read }

/-- The end of the text: what is still open is complete, but a literal that was not closed gives
no field. -/
def finish (scan : Scan) : Scan :=
  { scan with
    state := .seeking
    entities := scan.entities ++ scan.state.open?.toList
    rawTexts :=
      match scan.state with
      | .variable _ name read => insertText name read scan.rawTexts
      | _ => scan.rawTexts }

/-- Lines in turn. -/
def scanLines (scanner : Scanner) (ls : List Text) : Scan :=
  finish (ls.foldl scanner.step {})

/-- A whole text. -/
def scan (scanner : Scanner) (s : Text) : Scan := scanner.scanLines (lines s)

end Scanner

end TableSync
