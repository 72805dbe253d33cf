import TableSync.Category.Species
import TableSync.Proofs.Scan.Block

/-!
# Literals on several lines

A string literal on several lines is read segment by segment, and where its lines are broken makes
no difference (`scanLines_layout`).  What does make one is where it ends: with a parenthesis that
comes next after a segment *of its line*.  A parenthesis on a line of its own does not end it, and
the lines of the rest of the table are then read for segments of the literal that is still open.

* `foldl_literal` and `foldl_literal_closed` are the lines of a literal up to its end.  The first is
  by induction on the lines; it keeps everything of the scan but the text that was read.
* **`scanLines_parenthesis`** compares a parenthesis on the line of the last segment with one on a
  line of its own: they end the literal alike if a segment stands on that line, too, and otherwise
  the line is passed over and the literal goes on.
* A literal that no line ends swallows all that follows (`scanLines_of_open`): the scan finds what
  it would find if the text stopped where the literal opens.  `scan_ownLine` is a table to which
  that happens.
* For the text of a variable the place of the parenthesis makes no difference
  (`scanLines_variable_parenthesis`), since `endsVariable` looks at the end of the line, too.

All statements are about a scan of lines `before ++ … ++ after`, of which `before` leads into the
literal and `after` is arbitrary; `before` may hold any number of entities.
-/

set_option autoImplicit false

namespace TableSync.Scanner

variable (scanner : Scanner) {scan : Scan} {e : Entity} {key : String} {read : Text}

/-! ## The lines of a literal

While a literal is open a line is looked through for segments and for nothing else: neither headers
nor closing braces of a body are seen. -/

/-- The text of the segments on some lines. -/
def literalText (ls : List Text) : Text := ls.flatMap fun l => (segments l).text

theorem literalText_cons (l : Text) (ls : List Text) :
    literalText (l :: ls) = (segments l).text ++ literalText ls :=
  List.flatMap_cons

theorem literalText_concat (ls : List Text) (l : Text) :
    literalText (ls ++ [l]) = literalText ls ++ (segments l).text := by
  simp [literalText]

theorem step_literal_open {l : Text} (hstate : scan.state = .literal e key read)
    (h : (segments l).closed = false) :
    scanner.step scan l = { scan with state := .literal e key (read ++ (segments l).text) } := by
  rw [step, hstate]
  simp only [h, Bool.false_eq_true, if_false]

theorem step_literal_closed {l : Text} (hstate : scan.state = .literal e key read)
    (h : (segments l).closed = true) :
    scanner.step scan l = scan.stored scanner e key (read ++ (segments l).text) := by
  rw [step, hstate]
  simp only [h, if_true]
  rfl

/-- Lines that do not end the literal are collected. -/
theorem foldl_literal {inner : List Text} (hinner : ∀ l ∈ inner, (segments l).closed = false)
    (scan : Scan) (hstate : scan.state = .literal e key read) :
    inner.foldl scanner.step scan =
      { scan with state := .literal e key (read ++ literalText inner) } := by
  induction inner generalizing scan read with
  | nil =>
    obtain ⟨state, entities, rawTexts, report⟩ := scan
    obtain rfl : state = .literal e key read := hstate
    rw [literalText, List.flatMap_nil, List.append_nil]
    rfl
  | cons l inner ih =>
    have hrest := ih (fun m hm => hinner m (List.mem_cons_of_mem l hm))
      { scan with state := .literal e key (read ++ (segments l).text) } rfl
    rw [List.foldl_cons, step_literal_open scanner hstate (hinner l List.mem_cons_self), hrest,
      literalText_cons, List.append_assoc]

/-- Up to the line that ends it, a literal is the text of its segments. -/
theorem foldl_literal_closed {inner : List Text} {closing : Text}
    (hinner : ∀ l ∈ inner, (segments l).closed = false) (hclosing : (segments closing).closed = true)
    (hstate : scan.state = .literal e key read) :
    (inner ++ [closing]).foldl scanner.step scan =
      scan.stored scanner e key (read ++ literalText (inner ++ [closing])) := by
  rw [List.foldl_append, foldl_literal scanner hinner scan hstate, List.foldl_cons, List.foldl_nil,
    step_literal_closed scanner rfl hclosing, literalText_concat, List.append_assoc]
  rfl

/-! ## Where a literal ends -/

section End

variable {scanner} {before after : List Text}

/-- **Where the lines of a literal are broken makes no difference.** -/
theorem scanLines_layout {inner inner' : List Text} {closing closing' : Text}
    (hbefore : (before.foldl scanner.step {}).state = .literal e key read)
    (hinner : ∀ l ∈ inner, (segments l).closed = false) (hclosing : (segments closing).closed = true)
    (hinner' : ∀ l ∈ inner', (segments l).closed = false)
    (hclosing' : (segments closing').closed = true)
    (htext : literalText (inner ++ [closing]) = literalText (inner' ++ [closing'])) :
    scanner.scanLines (before ++ ((inner ++ [closing]) ++ after)) =
      scanner.scanLines (before ++ ((inner' ++ [closing']) ++ after)) := by
  have hfold := foldl_literal_closed scanner hinner hclosing hbefore
  have hfold' := foldl_literal_closed scanner hinner' hclosing' hbefore
  rw [scanLines, scanLines, List.foldl_append, List.foldl_append, hfold, List.foldl_append,
    List.foldl_append, hfold', htext]

/-- What follows is lost while no line of it ends the literal, and so is the literal. -/
theorem scanLines_of_open (hbefore : (before.foldl scanner.step {}).state = .literal e key read)
    (hafter : ∀ l ∈ after, (segments l).closed = false) :
    scanner.scanLines (before ++ after) = scanner.scanLines before := by
  rw [scanLines, scanLines, List.foldl_append, foldl_literal scanner hafter _ hbefore, finish, finish,
    hbefore]
  rfl

/-- **The parenthesis that ends a literal, on a line without text of its own.**  If a segment, which
is empty then, stands before it on that line, the scan is the one in which the parenthesis stands on
the line of the last segment.  If there is none, the scan is the one in which it does not stand
anywhere: the literal goes on. -/
theorem scanLines_parenthesis {last own : Text}
    (hbefore : (before.foldl scanner.step {}).state = .literal e key read)
    (hopen : (segments last).closed = false)
    (hclosed : (segments (last ++ "),".toList)).closed = true) (hown : (segments own).text = []) :
    scanner.scanLines (before ++ last :: own :: after) =
      if (segments own).closed then scanner.scanLines (before ++ (last ++ "),".toList) :: after)
      else scanner.scanLines (before ++ last :: after) := by
  cases hends : (segments own).closed with
  | true =>
    have hlast : ∀ l ∈ [last], (segments l).closed = false := by simpa using hopen
    have hnone : ∀ l ∈ ([] : List Text), (segments l).closed = false := by simp
    have htext : literalText ([last] ++ [own]) = literalText ([] ++ [last ++ "),".toList]) := by
      rw [literalText_concat, hown, List.append_nil, List.nil_append, literalText_cons,
        literalText_cons, text_segments_append (by decide) hclosed]
    exact scanLines_layout hbefore hlast hends hnone hclosed htext
  | false =>
    -- the line adds nothing to what is read
    have hlast := step_literal_open scanner hbefore hopen
    have hstep := step_literal_open scanner (congrArg Scan.state hlast) hends
    rw [hown, List.append_nil, hlast] at hstep
    simp only [scanLines, List.foldl_append, List.foldl_cons, hlast, hstep, Bool.false_eq_true,
      if_false]

/-- The lines of a table up to a literal. -/
def literalHead : List Text :=
  ["[SPECIES_A] =".toList, "\x7b".toList, "    .description = COMPOUND_STRING(".toList]

/-- The lines of a table after a literal. -/
def literalTail : List Text :=
  ["    .height = 7,".toList, "\x7d,".toList, "[SPECIES_B] =".toList, "\x7b".toList,
    "    .height = 8,".toList, "\x7d,".toList]

/-- With an empty segment before it the parenthesis may stand on a line of its own. -/
theorem scanLines_parenthesis_emptySegment :
    let last := "        \"One.\"".toList
    let own := "    \"\"),".toList
    (segments own).text = [] ∧ (segments own).closed = true ∧
      Species.scanner.scanLines (literalHead ++ last :: own :: literalTail) =
        Species.scanner.scanLines (literalHead ++ (last ++ "),".toList) :: literalTail) := by
  intro last own
  have hbefore : (literalHead.foldl Species.scanner.step {}).state =
      .literal ⟨"SPECIES_A", .empty⟩ "description" [] := rfl
  have hends : (segments own).closed = true := by decide
  have hscan : Species.scanner.scanLines (literalHead ++ last :: own :: literalTail) =
      if (segments own).closed then
        Species.scanner.scanLines (literalHead ++ (last ++ "),".toList) :: literalTail)
      else Species.scanner.scanLines (literalHead ++ last :: literalTail) :=
    scanLines_parenthesis hbefore (by decide) (by decide) (by decide)
  rw [if_pos hends] at hscan
  exact ⟨by decide, hends, hscan⟩

/-- **A parenthesis on a line of its own loses the rest of the table**: the literal, the other fields
of its entity and the next entity. -/
theorem scan_ownLine :
    let last := "        \"One.\"".toList
    let apart := Species.scanner.scanLines (literalHead ++ last :: "    ),".toList :: literalTail)
    let joined := Species.scanner.scanLines (literalHead ++ (last ++ "),".toList) :: literalTail)
    apart.entities.map (fun e => (e.id, e.fields.keys)) = [("SPECIES_A", [])] ∧
      apart.report.fields = 0 ∧
      joined.entities.map (fun e => (e.id, e.fields.keys)) =
        [("SPECIES_A", ["description", "height"]), ("SPECIES_B", ["height"])] ∧
      joined.report.fields = 3 := by
  decide +kernel

end End

/-! ## The text of a variable

A variable is read by the same segments as a literal, but it ends with a line that ends with a
parenthesis and a semicolon, whether a segment stands on it or not. -/

/-- **For the text of a variable the place of the parenthesis makes no difference.** -/
theorem scanLines_variable_parenthesis {scanner : Scanner} {before after : List Text}
    {open? : Option Entity} {name : String} {last own : Text}
    (hbefore : (before.foldl scanner.step {}).state = .variable open? name read)
    (hopen : endsVariable (segments last) last = false)
    (hclosed : (segments (last ++ ");".toList)).closed = true) (hown : (segments own).text = [])
    (hends : endsWith ");".toList (trimEnd own) = true) :
    scanner.scanLines (before ++ last :: own :: after) =
      scanner.scanLines (before ++ (last ++ ");".toList) :: after) := by
  have htext := text_segments_append (by decide) hclosed
  have hlong : endsVariable (segments (last ++ ");".toList)) (last ++ ");".toList) = true := by
    rw [endsVariable, hclosed, Bool.true_or]
  have hown' : endsVariable (segments own) own = true := by rw [endsVariable, hends, Bool.or_true]
  have hsteps : scanner.step (scanner.step (before.foldl scanner.step {}) last) own =
      scanner.step (before.foldl scanner.step {}) (last ++ ");".toList) := by
    simp only [step, hbefore, hopen, hlong, hown', htext, hown, List.append_nil, Bool.false_eq_true,
      if_false, if_true]
  simp only [scanLines, List.foldl_append, List.foldl_cons, hsteps]

end TableSync.Scanner
