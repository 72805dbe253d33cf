import TableSync.Emit.Value
import TableSync.Proofs.Text.Lines
import TableSync.Proofs.Text.Quote
import TableSync.Proofs.Text.Word
import TableSync.Scan.Table

/-!
# Scanning what is written

A table that was written block by block is scanned block by block, each giving its entity.

* `Scanner.Reads` says that a scanner goes over a text from one point of its scan to another,
  whatever follows the text.  Texts are put together by `Scanner.Reads.append`, so the lines of a
  field, the fields of a block and the blocks of a table are gone over in turn.
* `IsFieldText` says which texts a field on one line can have: nothing in it may look like a
  comment, like the start of another field, or like a literal that goes on.  `IsFieldText.reads`
  goes over the line of such a field.
* `reads_compoundString` is for a text on several lines, whatever it holds: each of its lines is a
  segment of its own, with the escapes that keep it on the line.
* `WrittenField.Stores` is what both have in common, and what the fields of a block are asked for
  (`reads_fields`).
* `IsBlockOf` says that the lines around the fields open nothing but their entity, and `reads_block`
  goes over a whole block.
-/

set_option autoImplicit false

namespace TableSync

/-! ## Going over a text -/

/-- The scanner goes over a text that ends with a line end, whatever follows it. -/
def Scanner.Reads (scanner : Scanner) (text : Text) (before after : Scan) : Prop :=
  ∀ rest, (lines (text ++ rest)).foldl scanner.step before =
    (lines rest).foldl scanner.step after

section Reads

variable {scanner : Scanner} {s t : Text} {scan scan' scan'' : Scan}

theorem Scanner.Reads.nil : scanner.Reads [] scan scan := fun _ => rfl

theorem Scanner.Reads.append (hs : scanner.Reads s scan scan') (ht : scanner.Reads t scan' scan'') :
    scanner.Reads (s ++ t) scan scan'' := by
  intro rest
  rw [List.append_assoc, hs, ht]

/-- A line is one step. -/
theorem Scanner.Reads.line (h : IsLine s) : scanner.Reads (s ++ ['\n']) scan (scanner.step scan s) := by
  intro rest
  rw [List.append_assoc, List.cons_append, List.nil_append, lines_line h, List.foldl_cons]

theorem Scanner.Reads.line_of_step (h : IsLine s) (hstep : scanner.step scan s = scan') :
    scanner.Reads (s ++ ['\n']) scan scan' :=
  hstep ▸ Scanner.Reads.line h

/-- A text that is gone over as a whole has been scanned. -/
theorem Scanner.Reads.scan_eq (h : scanner.Reads s {} scan) :
    scanner.scan s = Scanner.finish scan := by
  have hs := h []
  rw [List.append_nil] at hs
  rw [Scanner.scan, Scanner.scanLines, hs]
  rfl

/-- Between entities, a line that opens nothing is passed over. -/
theorem Scanner.step_seeking (hstate : scan.state = .seeking) (hraw : scanner.rawText s = none)
    (hheader : scanner.header s = none) : scanner.step scan s = scan := by
  obtain ⟨state, entities, rawTexts, report⟩ := scan
  subst hstate
  simp only [step, plainLine, hraw, hheader]

end Reads

/-! ## Keys -/

/-- An ASCII identifier. -/
def IsKey (key : Text) : Prop :=
  key ≠ [] ∧ ∀ c ∈ key, isAsciiLetter c = true ∨ isAsciiDigit c = true ∨ c = '_'

theorem isAlphabetic_of_isAsciiLetter {c : Char} (h : isAsciiLetter c = true) :
    isAlphabetic c = true := by
  have hlt : c.toNat < 128 := by
    simp only [isAsciiLetter, Bool.or_eq_true, Bool.and_eq_true, decide_eq_true_eq] at h
    omega
  rw [isAlphabetic, if_pos hlt, h]

namespace IsKey

variable {key : Text}

theorem isWord (h : IsKey key) : IsWord key := by
  refine ⟨h.1, fun c hc => ?_⟩
  rcases h.2 c hc with hl | hd | rfl
  · rw [isWordChar, isAlphabetic_of_isAsciiLetter hl]
    rfl
  · exact isWordChar_of_isAsciiDigit hd
  · decide

theorem isFieldKey (h : IsKey key) : isFieldKey key = true := by
  have hempty : key.isEmpty = false := by simpa using h.1
  have hall : (key.all fun c => isAlphanumeric c || c = '_') = true := by
    refine List.all_eq_true.2 fun c hc => ?_
    rcases h.2 c hc with hl | hd | rfl
    · rw [isAlphanumeric, isAlphabetic_of_isAsciiLetter hl]
      rfl
    · rw [isAlphanumeric, isDecimal_of_isAsciiDigit hd]
      simp
    · simp
  rw [TableSync.isFieldKey, hempty, hall]
  rfl

theorem notMem (h : IsKey key) {x : Char} (hx : isWordChar x = false) : x ∉ key :=
  notMem_of_word h.isWord.2 hx

end IsKey

/-! ## A field on one line

A line of a table is looked at several times: for a comment, for a literal that opens, for the
places where fields are separated, and for keys.  Each look has a lemma that says what it finds on
the line of a field, and `step_fieldLine` puts them together. -/

/-- A text that a field on one line can have: trimmed, without comment and without the separator
of fields outside quotes and brackets; and a string literal in it ends on the line. -/
structure IsFieldText (w : Text) : Prop where
  /-- No blanks stand around it. -/
  trimmed : IsTrimmed w
  /-- It is not empty. -/
  nonempty : w ≠ []
  /-- It is on one line. -/
  newline : '\n' ∉ w
  /-- With the comma behind it, no comment starts in it. -/
  comment : cutCommentFrom .plain (w ++ [',']) = (w ++ [','], none)
  /-- No other field starts in it, outside quotes and brackets, and all that it opens it closes. -/
  separator : Passes ", .".toList (0, .plain) w []
  /-- If it starts as a string literal, the literal is closed. -/
  literal : ∀ rest, (dropStart? "COMPOUND_STRING(".toList (w ++ [','])).or
    (dropStart? "_(".toList (w ++ [','])) = some rest → (segments rest).closed = true

/-- No string literal starts with another character than its marks. -/
theorem dropStart?_openers_of_head? {s : Text} {c : Char} (hs : s.head? = some c) (hc : 'C' ≠ c)
    (hc' : '_' ≠ c) :
    ∀ p ∈ ["COMPOUND_STRING(".toList, "_(".toList], dropStart? p s = none := by
  simp only [List.mem_cons, List.not_mem_nil, or_false]
  rintro p (rfl | rfl)
  · exact dropStart?_of_head? hs hc
  · exact dropStart?_of_head? hs hc'

theorem dropStart?_openers_of_notMem {s : Text} (h : '(' ∉ s) :
    ∀ p ∈ ["COMPOUND_STRING(".toList, "_(".toList], dropStart? p s = none := by
  simp only [List.mem_cons, List.not_mem_nil, or_false]
  rintro p (rfl | rfl) <;> exact dropStart?_of_notMem (x := '(') (by decide) h

/-- The characters of a line that open no comment, separate no fields and quote nothing. -/
theorem isFieldText_of_notMem {w : Text} (htrim : IsTrimmed w) (hne : w ≠ [])
    (hnewline : '\n' ∉ w) (hslash : '/' ∉ w) (hdot : '.' ∉ w)
    (hopener : ∀ p ∈ ["COMPOUND_STRING(".toList, "_(".toList], dropStart? p (w ++ [',']) = none) :
    IsFieldText w where
  trimmed := htrim
  nonempty := hne
  newline := hnewline
  comment := cutComment_of_notMem (s := w ++ [',']) (by simpa using hslash)
  separator := passes_nil_of_notMem (x := '.') (by decide) hdot _
  literal := by
    intro rest hrest
    rw [hopener _ (by simp), hopener _ (by simp)] at hrest
    exact absurd hrest (by simp)

namespace Emit

/-- A field as it stands on its line, without the indent and the comma at its end. -/
def assignment (key written : Text) : Text := key ++ " = ".toList ++ written

theorem fieldLine_eq (key : String) (w : Text) :
    fieldLine key w = fieldIndent ++ ('.' :: (assignment key.toList w ++ [','])) := by
  simp [fieldLine, assignment]

end Emit

section Field

variable {scanner : Scanner} {key : String} {w : Text} {e : Entity} {scan : Scan}

/-- What stands before the value of a field has neither quotes nor brackets. -/
theorem isClosed_keyText (hkey : IsKey key.toList) : IsClosed (key.toList ++ " = ".toList) := by
  refine isClosed_of_inert (isInert_of_notMem fun x hx => ?_)
  simp only [List.mem_cons, List.not_mem_nil, or_false] at hx
  rcases hx with rfl | rfl | rfl | rfl | rfl | rfl | rfl <;>
    exact List.not_mem_append (hkey.notMem (by decide)) (by decide)

/-- A field is passed over where its text is. -/
theorem passes_assignment (hkey : IsKey key.toList) {r : Text}
    (hw : Passes ", .".toList (0, .plain) w r) :
    Passes ", .".toList (0, .plain) (Emit.assignment key.toList w) r := by
  have hcomma : ',' ∉ key.toList ++ " = ".toList :=
    List.not_mem_append (hkey.notMem (by decide)) (by decide)
  refine Passes.append (passes_of_notMem hcomma _ _) ?_
  rw [isClosed_keyText hkey]
  exact hw

/-- A key and an equals sign give a field, whatever follows them. -/
theorem fieldOfPiece?_keyText (hkey : IsKey key.toList) (v : Text) :
    fieldOfPiece? (key.toList ++ ' ' :: '=' :: v) = some (key, trim v) := by
  have hcut : cut? ['='] (key.toList ++ ' ' :: '=' :: v) = some (key.toList ++ [' '], v) := by
    have heq : '=' ∉ key.toList ++ [' '] := List.not_mem_append (hkey.notMem (by decide)) (by decide)
    have hshape : key.toList ++ ' ' :: '=' :: v = (key.toList ++ [' ']) ++ '=' :: v := by simp
    rw [hshape, cut?_of_notMem heq]
  have hkeytrim : trim (key.toList ++ [' ']) = key.toList :=
    trim_between (b := []) (by simp) (by simp [isBlank]) hkey.1 hkey.isWord.isTrimmed
  have hdots : key.toList.dropWhile (· = '.') = key.toList := by
    cases hk : key.toList with
    | nil => rfl
    | cons c k =>
      have hc : c ≠ '.' := by
        rintro rfl
        exact hkey.notMem (by decide) (hk ▸ List.mem_cons_self)
      rw [List.dropWhile_cons, if_neg (by simpa using hc)]
  rw [fieldOfPiece?, hcut]
  simp only [hkeytrim, hdots, hkey.isFieldKey, if_true, String.ofList_toList]

/-- The text of a field is stored without the blanks around it. -/
theorem fieldOfPiece?_assignment (hkey : IsKey key.toList) (w : Text) :
    fieldOfPiece? (Emit.assignment key.toList w) = some (key, trim w) := by
  have hshape : Emit.assignment key.toList w = key.toList ++ ' ' :: '=' :: ([' '] ++ w) := by
    simp [Emit.assignment]
  rw [hshape, fieldOfPiece?_keyText hkey, trim_blanks_append (by simp [isBlank])]

/-- The field on a line is found. -/
theorem splitFields_assignment (hkey : IsKey key.toList)
    (hsep : Passes ", .".toList (0, .plain) w []) :
    splitFields ('.' :: (Emit.assignment key.toList w ++ [','])) = [(key, trim w)] := by
  have hline : trim ('.' :: (Emit.assignment key.toList w ++ [','])) =
      '.' :: (Emit.assignment key.toList w ++ [',']) :=
    trim_eq_self (isTrimmed_append (a := ['.']) (isTrimmed_of_forall (by simp [isBlank])) (by simp)
      (isTrimmed_of_forall (by simp [isBlank])) (by simp) _)
  have hend : dropEnd? [','] (Emit.assignment key.toList w ++ [',']) =
      some (Emit.assignment key.toList w) := dropEnd?_eq_some_iff.2 rfl
  simp only [splitFields, hline, dropStart?, if_true, Option.getD_some, hend,
    splitTopLevel_eq_singleton (passes_assignment hkey hsep), List.filterMap_cons,
    fieldOfPiece?_assignment hkey, List.filterMap_nil]

/-- The opener of a string literal is found after the key. -/
theorem literalOpenerAt?_assignment (hkey : IsKey key.toList) (w r : Text) :
    literalOpenerAt? ('.' :: (Emit.assignment key.toList w ++ r)) =
      ((dropStart? "COMPOUND_STRING(".toList (trimStart (w ++ r))).or
        (dropStart? "_(".toList (trimStart (w ++ r)))).bind fun s =>
          if s.contains '\n' then none else some (key, s) := by
  have hname : nameAt? [] (Emit.assignment key.toList w ++ r) =
      some (key, ' ' :: '=' :: ' ' :: (w ++ r)) := by
    have hshape : Emit.assignment key.toList w ++ r =
        key.toList ++ ' ' :: '=' :: ' ' :: (w ++ r) := by
      simp [Emit.assignment]
    have hrun := wordRun_append (r := ' ' :: '=' :: ' ' :: (w ++ r)) hkey.isWord.2
      (by simp [isWordChar_space])
    rw [hshape, nameAt?, dropStart?]
    simp only [Option.bind_eq_bind, Option.bind_some, hrun]
    cases hk : key.toList with
    | nil => exact absurd hk hkey.1
    | cons c k => simp only [List.nil_append, ← hk, String.ofList_toList]
  have hstart : trimStart (' ' :: (w ++ r)) = trimStart (w ++ r) :=
    trimStart_blanks_append (b := [' ']) (by simp [isBlank])
  have hequals : trimStart (' ' :: '=' :: ' ' :: (w ++ r)) = '=' :: ' ' :: (w ++ r) := rfl
  rw [literalOpenerAt?, dropStart?, if_pos rfl, dropStart?]
  simp only [Option.bind_eq_bind, Option.bind_some, hname, hequals, dropStart?, if_true, hstart]
  refine Option.bind_congr fun s _ => ?_
  cases hc : s.contains '\n' <;> rfl

/-- What a scan is after a field of the open entity has been stored. -/
def Scan.stored (scanner : Scanner) (scan : Scan) (e : Entity) (key : String) (raw : Text) : Scan :=
  { scan with
    state := .body (scanner.store e scan.report key raw).1
    report := (scanner.store e scan.report key raw).2 }

/-- The line of a field consists of its key and text, blanks and a few marks. -/
theorem notMem_fieldLine (hkey : IsKey key.toList) {x : Char} (hx : isWordChar x = false)
    (hmark : x ∉ " .=,".toList) (hw : x ∉ w) : x ∉ Emit.fieldLine key w := by
  have hindent : x ∉ Emit.fieldIndent := by
    intro hmem
    rw [List.eq_of_mem_replicate hmem] at hmark
    exact hmark (by decide)
  have hne : ∀ y ∈ " .=,".toList, x ≠ y := by
    rintro y hy rfl
    exact hmark hy
  have hequals : x ∉ " = ".toList := by simp [hne ' ' (by decide), hne '=' (by decide)]
  rw [Emit.fieldLine_eq]
  refine List.not_mem_append hindent (List.not_mem_cons_of_ne_of_not_mem (hne '.' (by decide)) ?_)
  refine List.not_mem_append (List.not_mem_append (List.not_mem_append (hkey.notMem hx) hequals) hw) ?_
  simpa using hne ',' (by decide)

/-- The comment at the end of a field line is empty. -/
theorem stripComment_fieldLine (hkey : IsKey key.toList)
    (hw : cutCommentFrom .plain (w ++ [',']) = (w ++ [','], none)) :
    stripComment (Emit.fieldLine key w) = Emit.fieldLine key w := by
  have hshape : Emit.fieldLine key w =
      (Emit.fieldIndent ++ ['.'] ++ key.toList ++ " = ".toList) ++ (w ++ [',']) := by
    simp [Emit.fieldLine]
  have hmem : ∀ x, isWordChar x = false → x ∉ Emit.fieldIndent ++ ['.'] ++ " = ".toList →
      x ∉ Emit.fieldIndent ++ ['.'] ++ key.toList ++ " = ".toList := by
    intro x hx hmark
    simp only [List.mem_append, not_or] at hmark ⊢
    exact ⟨⟨hmark.1, hkey.notMem hx⟩, hmark.2⟩
  have hslash := hmem '/' (by decide) (by decide)
  have hquote := hmem '"' (by decide) (by decide)
  rw [stripComment, cutComment, hshape, cutCommentFrom_append hslash, quoteAfter_of_notMem hquote, hw]

theorem trim_fieldLine : trim (Emit.fieldLine key w) =
    '.' :: (Emit.assignment key.toList w ++ [',']) := by
  rw [Emit.fieldLine_eq]
  refine (trim_blanks_append ?_).trans (trim_eq_self ?_)
  · intro c hc
    rw [List.eq_of_mem_replicate hc]
    rfl
  · exact isTrimmed_append (a := ['.']) (isTrimmed_of_forall (by simp [isBlank])) (by simp)
      (isTrimmed_of_forall (by simp [isBlank])) (by simp) _

theorem headerAt?_fieldLine (stem : Text) : headerAt? stem (Emit.fieldLine key w) = none := by
  have hstart : trimStart (Emit.fieldLine key w) = '.' :: (Emit.assignment key.toList w ++ [',']) := by
    rw [Emit.fieldLine_eq]
    refine (trimStart_blanks_append ?_).trans (trimStart_eq_self (by simp [isBlank]))
    intro c hc
    rw [List.eq_of_mem_replicate hc]
    rfl
  rw [headerAt?, hstart]
  rfl

/-- A line of a body that starts with a dot ends no body. -/
theorem endsBody_dot (s : Text) : Scanner.endsBody ('.' :: s) = false := by
  simp [Scanner.endsBody]

/-- **A field on one line is stored**, if no comment and no other field stands on the line and no
literal stays open. -/
theorem step_fieldLine (hkey : IsKey key.toList)
    (hcomment : cutCommentFrom .plain (w ++ [',']) = (w ++ [','], none))
    (hsep : Passes ", .".toList (0, .plain) w [])
    (hliteral : ∀ rest, (dropStart? "COMPOUND_STRING(".toList (trimStart (w ++ [',']))).or
      (dropStart? "_(".toList (trimStart (w ++ [',']))) = some rest → (segments rest).closed = true)
    (hstate : scan.state = .body e) (hraw : scanner.rawText (Emit.fieldLine key w) = none)
    (hheader : scanner.header (Emit.fieldLine key w) = none) :
    scanner.step scan (Emit.fieldLine key w) = scan.stored scanner e key (trim w) := by
  have hfields : scanner.bodyFields scan e ('.' :: (Emit.assignment key.toList w ++ [','])) =
      scan.stored scanner e key (trim w) := by
    rw [Scanner.bodyFields, splitFields_assignment hkey hsep]
    rfl
  have hopener := literalOpenerAt?_assignment hkey w [',']
  rw [Scanner.step, hstate]
  simp only [Scanner.plainLine, hraw, hheader, stripComment_fieldLine hkey hcomment, trim_fieldLine]
  rw [Scanner.bodyLine, endsBody_dot, hopener]
  cases hopen : (dropStart? "COMPOUND_STRING(".toList (trimStart (w ++ [',']))).or
      (dropStart? "_(".toList (trimStart (w ++ [',']))) with
  | none => simp only [Option.bind_none, Bool.false_eq_true, if_false, hfields]
  | some rest =>
    have hclosed := hliteral rest hopen
    cases hline : rest.contains '\n' with
    | true => simp only [Option.bind_some, hline, if_true, Bool.false_eq_true, if_false, hfields]
    | false =>
      simp only [Option.bind_some, hline, Bool.false_eq_true, if_false, hclosed, if_true, hfields]

/-- The line of a field is one line if its text is. -/
theorem isLine_fieldLine (hkey : IsKey key.toList) (hw : '\n' ∉ w) :
    IsLine (Emit.fieldLine key w) := by
  have hshape : Emit.fieldLine key w =
      (Emit.fieldIndent ++ ('.' :: Emit.assignment key.toList w)) ++ [','] := by
    simp [Emit.fieldLine_eq]
  refine ⟨notMem_fieldLine hkey (by decide) (by decide) hw, ?_⟩
  rw [hshape, List.getLast?_concat]
  decide

/-- **A field on one line is gone over.** -/
theorem IsFieldText.reads (hw : IsFieldText w) (hkey : IsKey key.toList)
    (hstate : scan.state = .body e) (hraw : scanner.rawText (Emit.fieldLine key w) = none)
    (hheader : scanner.header (Emit.fieldLine key w) = none) :
    scanner.Reads (Emit.fieldLine key w ++ ['\n']) scan (scan.stored scanner e key w) := by
  have hhead : ∀ c ∈ (w ++ [',']).head?, isBlank c = false := by
    cases w with
    | nil => decide
    | cons c w => exact hw.trimmed.1
  have hliteral := hw.literal
  rw [← trimStart_eq_self hhead] at hliteral
  have hstep := step_fieldLine hkey hw.comment hw.separator hliteral hstate hraw hheader
  rw [trim_eq_self hw.trimmed] at hstep
  exact Scanner.Reads.line_of_step (isLine_fieldLine hkey hw.newline) hstep

/-! ## A text on several lines -/

namespace Emit

/-- The lines of a text as quoted segments, the last of which ends the literal and the field. -/
def segmentTexts : List Text → List Text
  | [] => []
  | [line] => [continuationIndent ++ '"' :: (escape line ++ '"' :: "),".toList)]
  | line :: rest =>
    (continuationIndent ++ '"' :: (escape (line ++ ['\n']) ++ ['"'])) :: segmentTexts rest

/-- Each segment stands on a line of its own. -/
theorem lines_segmentLines {l : Text} (ls : List Text) {start rest : Text} (h : IsLine start) :
    lines (start ++ (segmentLines (l :: ls) ++ ("),".toList ++ '\n' :: rest))) =
      start :: (segmentTexts (l :: ls) ++ lines rest) := by
  have hindent : '\n' ∉ continuationIndent := by decide
  induction ls generalizing l start with
  | nil =>
    have hline : IsLine (continuationIndent ++ '"' :: (escape l ++ '"' :: [')']) ++ [',']) := by
      refine isLine_concat ?_ (by decide) (by decide)
      simp [hindent, newline_notMem_escape]
    have hshape : start ++ (segmentLines [l] ++ ("),".toList ++ '\n' :: rest)) =
        start ++ '\n' :: (continuationIndent ++ '"' :: (escape l ++ '"' :: [')']) ++ [','] ++
          '\n' :: rest) := by
      simp [segmentLines]
    rw [hshape, lines_line h, lines_line hline]
    simp [segmentTexts]
  | cons m ls ih =>
    have hline : IsLine (continuationIndent ++ '"' :: escape (l ++ ['\n']) ++ ['"']) := by
      refine isLine_concat ?_ (by decide) (by decide)
      simp [hindent, newline_notMem_escape]
    have hnewline : escape ['\n'] = ['\\', 'n'] := by decide
    have hshape : start ++ (segmentLines (l :: m :: ls) ++ ("),".toList ++ '\n' :: rest)) =
        start ++ '\n' :: (continuationIndent ++ '"' :: escape (l ++ ['\n']) ++ ['"'] ++
          (segmentLines (m :: ls) ++ ("),".toList ++ '\n' :: rest))) := by
      simp [segmentLines, escape_append, hnewline]
    rw [hshape, lines_line h, ih hline]
    simp [segmentTexts]

end Emit

/-- A line of a literal adds its segment. -/
theorem Scanner.step_literal {s : Text} {r read : Text} (hr : '"' ∉ r)
    (hstate : scan.state = .literal e key read) :
    scanner.step scan (Emit.continuationIndent ++ '"' :: (escape s ++ '"' :: r)) =
      if startsWith [')'] (trimStart r) then scan.stored scanner e key (read ++ escape s)
      else { scan with state := .literal e key (read ++ escape s) } := by
  rw [step, hstate]
  simp only [segments_quoted (b := Emit.continuationIndent) (by decide) hr]
  rfl

/-- The lines of a text are collected and stored as the escaped text. -/
theorem foldl_segmentTexts {l : Text} (ls : List Text) {read : Text} (scan : Scan)
    (hstate : scan.state = .literal e key read) :
    (Emit.segmentTexts (l :: ls)).foldl scanner.step scan =
      scan.stored scanner e key (read ++ escape (joinWith ['\n'] (l :: ls))) := by
  induction ls generalizing l read scan with
  | nil =>
    rw [Emit.segmentTexts, List.foldl_cons, List.foldl_nil,
      Scanner.step_literal (by decide) hstate, if_pos (by decide), joinWith]
  | cons m ls ih =>
    have hstep : scanner.step scan (Emit.continuationIndent ++ '"' :: (escape (l ++ ['\n']) ++ ['"'])) =
        { scan with state := .literal e key (read ++ escape (l ++ ['\n'])) } :=
      (Scanner.step_literal (by simp) hstate).trans (if_neg (by decide))
    have hrest := ih (l := m) { scan with state := .literal e key (read ++ escape (l ++ ['\n'])) } rfl
    rw [Emit.segmentTexts, List.foldl_cons, hstep, hrest, joinWith_cons_cons, List.append_assoc,
      ← escape_append]
    · rfl
    · exact List.cons_ne_nil m ls

/-- The line that opens a text on several lines. -/
def openerLine (key : String) : Text :=
  Emit.fieldIndent ++ ('.' :: Emit.assignment key.toList "COMPOUND_STRING(".toList)

theorem notMem_openerLine (hkey : IsKey key.toList) {x : Char} (hx : isWordChar x = false)
    (hmark : x ∉ " .=(".toList) : x ∉ openerLine key := by
  have hindent : x ∉ Emit.fieldIndent := by
    intro hmem
    rw [List.eq_of_mem_replicate hmem] at hmark
    exact hmark (by decide)
  have hne : ∀ y ∈ " .=(".toList, x ≠ y := by
    rintro y hy rfl
    exact hmark hy
  have hequals : x ∉ " = ".toList := by simp [hne ' ' (by decide), hne '=' (by decide)]
  have hopener : x ∉ "COMPOUND_STRING(".toList := by
    have hword : x ∉ "COMPOUND_STRING".toList := notMem_of_word (by decide) hx
    have hshape : "COMPOUND_STRING(".toList = "COMPOUND_STRING".toList ++ ['('] := by decide
    rw [hshape]
    exact List.not_mem_append hword (by simp [hne '(' (by decide)])
  refine List.not_mem_append hindent (List.not_mem_cons_of_ne_of_not_mem (hne '.' (by decide)) ?_)
  exact List.not_mem_append (List.not_mem_append (hkey.notMem hx) hequals) hopener

theorem trimStart_openerLine :
    trimStart (openerLine key) = '.' :: Emit.assignment key.toList "COMPOUND_STRING(".toList := by
  refine (trimStart_blanks_append ?_).trans (trimStart_eq_self (by simp [isBlank]))
  intro c hc
  rw [List.eq_of_mem_replicate hc]
  rfl

theorem headerAt?_openerLine (stem : Text) : headerAt? stem (openerLine key) = none := by
  rw [headerAt?, trimStart_openerLine]
  rfl

/-- The opener starts a literal without text so far. -/
theorem step_openerLine (hkey : IsKey key.toList) (hstate : scan.state = .body e)
    (hraw : scanner.rawText (openerLine key) = none)
    (hheader : scanner.header (openerLine key) = none) :
    scanner.step scan (openerLine key) = { scan with state := .literal e key [] } := by
  have htrim : trim (openerLine key) =
      '.' :: Emit.assignment key.toList "COMPOUND_STRING(".toList := by
    rw [trim, trimStart_openerLine]
    refine trimEnd_eq_self ?_
    have hshape : '.' :: Emit.assignment key.toList "COMPOUND_STRING(".toList =
        ('.' :: Emit.assignment key.toList "COMPOUND_STRING".toList) ++ ['('] := by
      simp [Emit.assignment]
    rw [hshape, List.getLast?_concat]
    simp [isBlank]
  have hliteral := literalOpenerAt?_assignment hkey "COMPOUND_STRING(".toList []
  rw [List.append_nil, List.append_nil] at hliteral
  rw [Scanner.step, hstate]
  simp only [Scanner.plainLine, hraw, hheader,
    stripComment_of_notMem (notMem_openerLine hkey (x := '/') (by decide) (by decide)), htrim]
  rw [Scanner.bodyLine, endsBody_dot, hliteral]
  rfl

/-- **A text on several lines is gone over**, and stored as the escaped text. -/
theorem reads_compoundString {t : Text} (ht : t ≠ []) (hkey : IsKey key.toList)
    (hstate : scan.state = .body e) (hraw : scanner.rawText (openerLine key) = none)
    (hheader : scanner.header (openerLine key) = none) :
    scanner.Reads (Emit.fieldLine key (Emit.compoundString t) ++ ['\n']) scan
      (scan.stored scanner e key (escape t)) := by
  intro rest
  have hline : IsLine (openerLine key) := by
    refine ⟨notMem_openerLine hkey (by decide) (by decide), ?_⟩
    have hshape : openerLine key = (Emit.fieldIndent ++
        ('.' :: Emit.assignment key.toList "COMPOUND_STRING".toList)) ++ ['('] := by
      simp [openerLine, Emit.assignment]
    rw [hshape, List.getLast?_concat]
    decide
  have hempty : t.isEmpty = false := by simpa using ht
  have hjoin := joinWith_splitOn '\n' t
  cases hsplit : splitOn ['\n'] t with
  | nil => exact absurd hsplit (splitOn_ne_nil '\n' t)
  | cons l ls =>
    have hshape : Emit.fieldLine key (Emit.compoundString t) ++ ['\n'] ++ rest =
        openerLine key ++ (Emit.segmentLines (l :: ls) ++ ("),".toList ++ '\n' :: rest)) := by
      simp [Emit.fieldLine, Emit.compoundString, hempty, hsplit, openerLine, Emit.assignment]
    rw [hsplit] at hjoin
    rw [hshape, Emit.lines_segmentLines ls hline, List.foldl_cons, List.foldl_append,
      step_openerLine hkey hstate hraw hheader,
      foldl_segmentTexts ls { scan with state := .literal e key [] } rfl, hjoin]
    rfl

end Field

/-! ## Entities

A block is a header, a brace, the fields, and a brace again.  What the header has to be like depends
on the table, so it is asked for by `IsBlockOf` and shown for each table where its scanner is. -/

/-- A field with its written form, and the text that is stored for it. -/
structure WrittenField where
  /-- The key of the field. -/
  key : String
  /-- The text that stands behind the key. -/
  written : Text
  /-- The text that the scanner stores. -/
  raw : Text

section Block

variable {scanner : Scanner}

/-- The lines of a field are gone over inside any entity, and its text is stored. -/
def WrittenField.Stores (scanner : Scanner) (f : WrittenField) : Prop :=
  ∀ (scan : Scan) (e : Entity), scan.state = .body e →
    scanner.Reads (Emit.fieldLine f.key f.written ++ ['\n']) scan
      (scan.stored scanner e f.key f.raw)

/-- The keys of fields with the texts that are stored. -/
def rawFields (fields : List WrittenField) : List (String × Text) :=
  fields.map fun f => (f.key, f.raw)

theorem reads_fields {fields : List WrittenField} (h : ∀ f ∈ fields, f.Stores scanner)
    (scan : Scan) {e : Entity} (hstate : scan.state = .body e) :
    scanner.Reads (unlines (fields.map fun f => Emit.fieldLine f.key f.written)) scan
      { scan with
        state := .body (scanner.storeAll e scan.report (rawFields fields)).1
        report := (scanner.storeAll e scan.report (rawFields fields)).2 } := by
  induction fields generalizing scan e with
  | nil =>
    obtain ⟨state, entities, rawTexts, report⟩ := scan
    subst hstate
    exact Scanner.Reads.nil
  | cons f fields ih =>
    have hfirst := h f List.mem_cons_self scan e hstate
    have hrest := ih (fun g hg => h g (List.mem_cons_of_mem f hg))
      (scan.stored scanner e f.key f.raw) rfl
    rw [List.map_cons, unlines_cons]
    exact hfirst.append hrest

/-- The header line of a block. -/
def headerLine (id : String) : Text := Emit.blockIndent ++ ['['] ++ id.toList ++ "] =".toList

theorem notMem_headerLine {id : String} (hid : ∀ c ∈ id.toList, isWordChar c = true) {x : Char}
    (hx : isWordChar x = false) (hmark : x ∉ " []=".toList) : x ∉ headerLine id := by
  have hindent : x ∉ Emit.blockIndent := by
    intro hmem
    rw [List.eq_of_mem_replicate hmem] at hmark
    exact hmark (by decide)
  have hne : ∀ y ∈ " []=".toList, x ≠ y := by
    rintro y hy rfl
    exact hmark hy
  have hend : x ∉ "] =".toList := by
    simp [hne ']' (by decide), hne ' ' (by decide), hne '=' (by decide)]
  refine List.not_mem_append (List.not_mem_append (List.not_mem_append hindent ?_) ?_) hend
  · simpa using hne '[' (by decide)
  · exact notMem_of_word hid hx

/-- The name of an entity, which is `stem` and a word, is found in brackets before an equals sign. -/
theorem headerAt?_bracketed {stem word b : Text} {id : String} (hword : IsWord word)
    (hid : id.toList = stem ++ word) (hb : ∀ c ∈ b, isBlank c = true) (r : Text) :
    headerAt? stem (b ++ '[' :: (id.toList ++ "] =".toList ++ r)) = some (id, r) := by
  have hstart : trimStart (b ++ '[' :: (id.toList ++ "] =".toList ++ r)) =
      '[' :: (stem ++ (word ++ ("] =".toList ++ r))) := by
    rw [hid, trimStart_blanks_append hb, List.append_assoc, List.append_assoc]
    exact trimStart_eq_self (by simp [isBlank])
  have hname : nameAt? stem (stem ++ (word ++ ("] =".toList ++ r))) = some (id, "] =".toList ++ r) := by
    have hrun := wordRun_append (r := "] =".toList ++ r) hword.2
      (by simp [show isWordChar ']' = false by decide])
    rw [nameAt?, dropStart?_append]
    simp only [Option.bind_eq_bind, Option.bind_some, hrun]
    cases hw : word with
    | nil => exact absurd hw hword.1
    | cons c w => simp only [← hw, ← hid, String.ofList_toList]
  rw [headerAt?, hstart]
  simp only [dropStart?, if_true, Option.bind_eq_bind, Option.bind_some, hname]
  rfl

/-- The header of an entity is found on its line. -/
theorem headerAt?_headerLine {stem word : Text} {id : String} (hword : IsWord word)
    (hid : id.toList = stem ++ word) : headerAt? stem (headerLine id) = some (id, []) := by
  have hshape : headerLine id = Emit.blockIndent ++ '[' :: (id.toList ++ "] =".toList ++ []) := by
    simp [headerLine]
  rw [hshape]
  refine headerAt?_bracketed hword hid (fun c hc => ?_) []
  rw [List.eq_of_mem_replicate hc]
  rfl

/-- Between entities a header opens its entity. -/
theorem reads_headerLine {id : String} (hid : ∀ c ∈ id.toList, isWordChar c = true) {scan : Scan}
    (hstate : scan.state = .seeking) (hraw : scanner.rawText (headerLine id) = none)
    (hheader : scanner.header (headerLine id) = some (id, [])) :
    scanner.Reads (headerLine id ++ ['\n']) scan { scan with state := .body ⟨id, .empty⟩ } := by
  have hline : IsLine (headerLine id) := by
    have hnewline : '\n' ∉ headerLine id := notMem_headerLine hid (by decide) (by decide)
    have hshape : headerLine id = (Emit.blockIndent ++ ['['] ++ id.toList ++ "] ".toList) ++ ['='] := by
      simp [headerLine]
    refine ⟨hnewline, ?_⟩
    rw [hshape, List.getLast?_concat]
    decide
  refine Scanner.Reads.line_of_step hline ?_
  rw [Scanner.step, hstate]
  simp only [Scanner.plainLine, hraw, hheader]
  simp [Scanner.openEntity, Scanner.inlineBody, Scanner.storeAll, trim, trimStart, trimEnd,
    dropEndWhile]

/-- The line of the opening brace of a block. -/
def openingLine : Text := Emit.blockIndent ++ ['{']

/-- The line of the closing brace of a block. -/
def closingLine : Text := Emit.blockIndent ++ ['}', ',']

theorem reads_openingLine {scan : Scan} {e : Entity} (hstate : scan.state = .body e)
    (hraw : scanner.rawText openingLine = none) (hheader : scanner.header openingLine = none) :
    scanner.Reads (openingLine ++ ['\n']) scan scan := by
  have hline : IsLine openingLine := by
    exact isLine_concat (by decide) (by decide) (by decide)
  have htrim : trim (stripComment openingLine) = ['{'] := by decide
  refine Scanner.Reads.line_of_step hline ?_
  obtain ⟨state, entities, rawTexts, report⟩ := scan
  subst hstate
  simp only [Scanner.step, Scanner.plainLine, hraw, hheader, htrim]
  rfl

theorem reads_closingLine {scan : Scan} {e : Entity} (hstate : scan.state = .body e)
    (hraw : scanner.rawText closingLine = none) (hheader : scanner.header closingLine = none) :
    scanner.Reads (closingLine ++ ['\n']) scan
      { scan with state := .seeking, entities := scan.entities ++ [e] } := by
  have hline : IsLine closingLine := by
    exact isLine_concat (s := Emit.blockIndent ++ ['}']) (by decide) (by decide) (by decide)
  have htrim : trim (stripComment closingLine) = ['}', ','] := by decide
  refine Scanner.Reads.line_of_step hline ?_
  rw [Scanner.step, hstate]
  simp only [Scanner.plainLine, hraw, hheader, htrim]
  rfl

/-- The lines of a block open nothing but their entity. -/
structure IsBlockOf (scanner : Scanner) (id : String) : Prop where
  /-- The id consists of word characters. -/
  word : ∀ c ∈ id.toList, isWordChar c = true
  /-- The line of the header opens no text of a variable. -/
  rawHeader : scanner.rawText (headerLine id) = none
  /-- It is the header of the entity, and nothing follows it. -/
  header : scanner.header (headerLine id) = some (id, [])
  /-- The line of the opening brace opens no text of a variable. -/
  rawOpening : scanner.rawText openingLine = none
  /-- It is no header. -/
  opening : scanner.header openingLine = none
  /-- The line of the closing brace opens no text of a variable. -/
  rawClosing : scanner.rawText closingLine = none
  /-- It is no header. -/
  closing : scanner.header closingLine = none

/-- The scan after one more entity, with the fields that were stored for it. -/
def Scan.withBlock (scanner : Scanner) (scan : Scan) (id : String) (raws : List (String × Text)) :
    Scan :=
  { scan with
    entities := scan.entities ++ [(scanner.storeAll ⟨id, .empty⟩ scan.report raws).1]
    report := (scanner.storeAll ⟨id, .empty⟩ scan.report raws).2 }

/-- **A block is gone over**, and its entity has the fields that were stored. -/
theorem reads_block {id : String} (hid : IsBlockOf scanner id) {fields : List WrittenField}
    (h : ∀ f ∈ fields, f.Stores scanner) {scan : Scan} (hstate : scan.state = .seeking) :
    scanner.Reads (unlines (Emit.block id (fields.map fun f => (f.key, f.written)))) scan
      (scan.withBlock scanner id (rawFields fields)) := by
  have hshape : unlines (Emit.block id (fields.map fun f => (f.key, f.written))) =
      (headerLine id ++ ['\n']) ++ ((openingLine ++ ['\n']) ++
        (unlines (fields.map fun f => Emit.fieldLine f.key f.written) ++ (closingLine ++ ['\n']))) := by
    simp [Emit.block, unlines, headerLine, openingLine, closingLine, Function.comp_def]
  obtain ⟨state, entities, rawTexts, report⟩ := scan
  subst hstate
  rw [hshape]
  refine (reads_headerLine hid.word rfl hid.rawHeader hid.header).append ?_
  refine (reads_openingLine rfl hid.rawOpening hid.opening).append ?_
  exact (reads_fields h _ rfl).append (reads_closingLine rfl hid.rawClosing hid.closing)

/-- The fields that are stored, each read by its parser. -/
theorem storeAll_fst (e : Entity) (report : Report) (raws : List (String × Text)) :
    (scanner.storeAll e report raws).1 =
      ⟨e.id, e.fields.insertAll (raws.map fun f => (f.1, (scanner.fields.parse f.1 f.2).value))⟩ := by
  induction raws generalizing e report with
  | nil => rfl
  | cons f raws ih => exact ih _ _

end Block

end TableSync
