import TableSync.Category.Moves

/-!
# The texts of descriptions are those of a scan

Descriptions are read by a state machine of their own.  As far as the texts of variables go, it is
the scanner of tables: the two agree after every line, and at the end of the text.  The scanner also
knows entities and fields, and the reader of descriptions knows moves; neither matters to the texts,
as long as the scanner meets no header.

* `unescapedTexts` are the texts of a scan as the record that descriptions keep: a scan has them as
  they stand in the source, and descriptions with their escapes read.
* `textScanner` is the scanner with the same opener, and `scanState` its state for the variable that
  is open, if one is.
* `Descriptions.Agrees` relates the states of the two.  It is what every line keeps:
  `Descriptions.Agrees.step` is one line, with a case for a variable that is open and one for none,
  and `Descriptions.Agrees.foldl` any number of them.
* `Descriptions.Agrees.finish` is the end of the text, where a variable that is still open is closed
  in both.
* **`read_texts_eq_scan`** compares the texts that both have collected in the end.
-/

set_option autoImplicit false

namespace TableSync.Moves

/-! ## Texts of variables -/

/-- The texts of variables as a record, with their escapes read. -/
def unescapedTexts (texts : List (String × Text)) : Record :=
  ⟨texts.map fun (name, text) => (name, .ofText (unescape text))⟩

/-- Text that replaces another one in the scan replaces it in the record. -/
theorem unescapedTexts_insertText (name : String) (text : Text) (texts : List (String × Text)) :
    unescapedTexts (insertText name text texts) =
      (unescapedTexts texts).insert name (.ofText (unescape text)) := by
  refine congrArg Record.mk ?_
  show _ = insertField name _ (texts.map _)
  induction texts with
  | nil => rfl
  | cons t texts ih =>
    obtain ⟨n, t⟩ := t
    by_cases hname : n = name
    · simp [insertText, insertField, hname]
    · simp [insertText, insertField, hname, ih]

theorem get?_unescapedTexts (texts : List (String × Text)) (name : String) :
    (unescapedTexts texts).get? name =
      (texts.lookup name).map fun text => .ofText (unescape text) := by
  show findField name (texts.map fun (name, text) => (name, .ofText (unescape text))) = _
  induction texts with
  | nil => rfl
  | cons t texts ih =>
    obtain ⟨n, t⟩ := t
    by_cases hname : n = name
    · simp [findField, hname]
    · have hne : (name == n) = false := beq_false_of_ne (Ne.symm hname)
      rw [List.map_cons, findField, if_neg hname, ih, List.lookup_cons, hne]

/-! ## One line

A line that goes on with a text and one that closes it are told apart in the same way by both, so
the cases of one step are those of the other. -/

/-- The scanner that collects the texts of variables as descriptions do, whatever its headers and
fields are. -/
def textScanner (header : Text → Option (String × Text)) (fields : FieldTable) : Scanner where
  header := header
  rawText := textOpener?
  fields := fields

/-- Where a scan without entities stands if the text of a variable is open, or none is. -/
def scanState : Option (String × Text) → ScanState
  | none => .seeking
  | some (name, read) => .variable none name read

namespace Descriptions

variable {header : Text → Option (String × Text)} {fields : FieldTable} {d : Descriptions}
  {scan : Scan} {name : String} {read line : Text}

/-- The same variable is open in both, with the same text so far, and both have the same texts. -/
structure Agrees (d : Descriptions) (scan : Scan) : Prop where
  /-- The same variable is open with the same text, or none is in either. -/
  state : scan.state = scanState d.open?
  /-- The same texts have been collected, with their escapes read. -/
  texts : d.texts = unescapedTexts scan.rawTexts

namespace Agrees

/-- The text of a variable is closed in both. -/
theorem close (h : d.Agrees scan) (name : String) (read : Text) :
    (d.close name read).Agrees
      { scan with state := .resume none, rawTexts := insertText name read scan.rawTexts } where
  state := rfl
  texts := by rw [unescapedTexts_insertText, ← h.texts]; rfl

/-- The text of a variable goes on in both. -/
theorem goOn (h : d.Agrees scan) (name : String) (read : Text) :
    ({ d with open? := some (name, read) } : Descriptions).Agrees
      { scan with state := .variable none name read } where
  state := rfl
  texts := h.texts

/-- A line while the text of a variable is open. -/
theorem step_open (h : d.Agrees scan) (hopen : d.open? = some (name, read)) :
    (d.step line).Agrees ((textScanner header fields).step scan line) := by
  have hstate : scan.state = .variable none name read := by rw [h.state, hopen]; rfl
  rw [Descriptions.step, hopen, Scanner.step, hstate]
  by_cases hends : Scanner.endsVariable (segments line) line = true
  · simp only [hends, if_true]
    exact h.close name _
  · simp only [hends]
    exact h.goOn name _

/-- A line while no text is open.  What it says of a move is not seen by the scan. -/
theorem step_seeking (h : d.Agrees scan) (hopen : d.open? = none) (hheader : header line = none) :
    (d.step line).Agrees ((textScanner header fields).step scan line) := by
  have hstate : scan.state = .seeking := by rw [h.state, hopen]; rfl
  have hheader' : (textScanner header fields).header line = none := hheader
  have hraw : (textScanner header fields).rawText line = textOpener? line := rfl
  rw [Descriptions.step, hopen, Scanner.step, hstate]
  simp only [Scanner.plainLine, hraw, hheader']
  cases textOpener? line with
  | some opened =>
    obtain ⟨name, rest⟩ := opened
    simp only [Scanner.openVariable]
    by_cases hclosed : (segments rest).closed = true
    · simp only [hclosed, if_true]
      exact h.close name _
    · simp only [hclosed]
      exact h.goOn name _
  | none =>
    have hsame : ∀ (moves : Record) (report : Report),
        Descriptions.Agrees { open? := none, texts := d.texts, moves, report }
          { scan with state := .seeking } :=
      fun _ _ => ⟨rfl, h.texts⟩
    cases descriptionEntry? line with
    | none => exact ⟨by rw [hopen]; rfl, h.texts⟩
    | some entry =>
      obtain ⟨move, text⟩ := entry
      dsimp only
      split
      · exact hsame _ _
      · exact hsame d.moves _

/-- One line. -/
theorem step (h : d.Agrees scan) (hheader : header line = none) :
    (d.step line).Agrees ((textScanner header fields).step scan line) := by
  cases hopen : d.open? with
  | none => exact h.step_seeking hopen hheader
  | some opened => exact h.step_open hopen

/-- Any number of lines. -/
theorem foldl {ls : List Text} (h : d.Agrees scan) (hheader : ∀ line ∈ ls, header line = none) :
    (ls.foldl Descriptions.step d).Agrees (ls.foldl (textScanner header fields).step scan) := by
  induction ls generalizing d scan with
  | nil => exact h
  | cons line ls ih =>
    exact ih (h.step (hheader line List.mem_cons_self))
      fun other hother => hheader other (List.mem_cons_of_mem line hother)

/-- The end of the text: a variable that is still open is closed in both. -/
theorem finish (h : d.Agrees scan) :
    d.finish.texts = unescapedTexts (Scanner.finish scan).rawTexts := by
  rw [Descriptions.finish, Scanner.finish, h.state]
  cases d.open? with
  | none => exact h.texts
  | some opened =>
    obtain ⟨name, read⟩ := opened
    exact (h.close name read).texts

end Agrees

end Descriptions

/-! ## A whole text -/

/-- **The texts of descriptions are those of a scan** with the same opener, names as they stand and
headers that are met nowhere, with their escapes read.  The two readers agree after every line. -/
theorem read_texts_eq_scan {text : Text} {header : Text → Option (String × Text)}
    (hheader : ∀ line ∈ lines text, header line = none) (fields : FieldTable) (moves : Record) :
    (∀ n, Descriptions.Agrees (((lines text).take n).foldl Descriptions.step { moves })
      (((lines text).take n).foldl (textScanner header fields).step {})) ∧
    (Descriptions.read text moves).texts =
      unescapedTexts ((textScanner header fields).scan text).rawTexts ∧
    ∀ name, (Descriptions.read text moves).texts.get? name =
      (((textScanner header fields).scan text).rawTexts.lookup name).map
        fun read => .ofText (unescape read) := by
  have hstart : Descriptions.Agrees { moves } {} := ⟨rfl, rfl⟩
  have htexts : (Descriptions.read text moves).texts =
      unescapedTexts ((textScanner header fields).scan text).rawTexts :=
    (hstart.foldl hheader).finish
  refine ⟨fun n => hstart.foldl fun line hline => hheader line (List.mem_of_mem_take hline), htexts,
    fun name => ?_⟩
  rw [htexts, get?_unescapedTexts]

/-- Descriptions with a text on two lines, an opener inside an open text of the same variable, a
parenthesis on a line of its own, and a text that is not closed. -/
def sampleDescriptions : Text :=
  ("static const u8 s[] = _(\n\"1\\n\"\n\"2\");\nstatic const u8 s[] = _(\n" ++
    "static const u8 t[] = _(\n\"3\"\n);\nstatic const u8 u[] = _(\n\"4\"\n").toList

/-- No line of the sample is the header of battle data. -/
theorem read_texts_eq_scan_sample :
    (∀ line ∈ lines sampleDescriptions, headerAt? stem line = none) ∧
      (Descriptions.read sampleDescriptions .empty).texts =
        unescapedTexts ((textScanner (headerAt? stem) []).scan sampleDescriptions).rawTexts ∧
      (Descriptions.read sampleDescriptions .empty).texts =
        ⟨[("s", .str "3"), ("u", .str "4")]⟩ := by
  have hheader : ∀ line ∈ lines sampleDescriptions, headerAt? stem line = none := by decide +kernel
  exact ⟨hheader, (read_texts_eq_scan hheader [] .empty).2.1, by decide +kernel⟩

end TableSync.Moves
