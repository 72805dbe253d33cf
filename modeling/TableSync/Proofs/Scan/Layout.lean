import Mathlib.Data.List.Basic
import TableSync.Proofs.Field.Parsers
import TableSync.Proofs.Scan.Written

/-!
# An entity on one line

An entity may stand on one line, `[NAME] = {.a = 1, .b = 2},`, or in a block with a line for each
field.  Both layouts are read by the same functions for the fields of a line, but on one line the
braces of the entity have to be taken off first, and they are told from the braces of a value only
by where they stand.

* `inlineLine` is the one line, and `inlineBody_braces` what is left of it within its braces:
  `Scanner.inlineBody` takes off *all* closing braces at its end.
* `lastText` is what is therefore read of the text of the last field: without closing braces, blanks
  and one comma at its end.
* `inlineFields_inlineRest` finds the fields of the line.  The last of them needs an argument of its
  own: what is left of its text is only a start of it (`exists_append_of_left`), so that its quotes
  and brackets need not be closed any more.  It is enough that no separator stands in it, and a
  start of a text has no more separators than the text.
* `reads_inlineLine` says what the line adds to a scan, and `reads_lineBlock` what the block adds.
* **`scan_inlineLine`** says that the line adds what the block adds, if the last text ends neither
  with a brace nor with a comma; `scan_nestedBraces` is an entity that loses a brace.

The condition is about the last text only: after every other one stands a separator, so nothing is
taken off at its end but blanks, and that is what a block does with the texts of its lines, too.
-/

set_option autoImplicit false

namespace TableSync

/-! ## The line -/

/-- Fields in a row. -/
def inlineText (fields : List (String × Text)) : Text :=
  joinWith ", ".toList (fields.map fun f => '.' :: Emit.assignment f.1.toList f.2)

/-- What follows the equals sign of an entity on one line. -/
def inlineRest (fields : List (String × Text)) : Text :=
  ' ' :: '{' :: (inlineText fields ++ ['}', ','])

/-- An entity on one line. -/
def inlineLine (id : String) (fields : List (String × Text)) : Text :=
  '[' :: (id.toList ++ "] =".toList ++ inlineRest fields)

theorem joinWith_map_cons (x : Char) (sep : Text) {ps : List Text} (h : ps ≠ []) :
    joinWith sep (ps.map (x :: ·)) = x :: joinWith (sep ++ [x]) ps := by
  induction ps with
  | nil => exact absurd rfl h
  | cons p ps ih =>
    cases ps with
    | nil => rfl
    | cons q ps =>
      have hrest := ih (List.cons_ne_nil q ps)
      rw [List.map_cons] at hrest
      rw [List.map_cons, List.map_cons, joinWith_cons_cons, hrest, joinWith_cons_cons]
      simp

/-- The last part stands at the end, whatever it is. -/
theorem exists_joinWith_concat (sep : Text) (ps : List Text) :
    ∃ a, ∀ p, joinWith sep (ps ++ [p]) = a ++ p := by
  induction ps with
  | nil => exact ⟨[], fun _ => rfl⟩
  | cons q ps ih =>
    obtain ⟨a, ha⟩ := ih
    refine ⟨q ++ sep ++ a, fun p => ?_⟩
    rw [List.cons_append, joinWith_cons (by simp), ha, ← List.append_assoc]

section Line

variable {id : String} {fields : List (String × Text)}

theorem isLine_inlineLine (hid : ∀ c ∈ id.toList, isWordChar c = true)
    (h : ∀ f ∈ fields, IsKey f.1.toList ∧ '\n' ∉ f.2) : IsLine (inlineLine id fields) := by
  have htext : '\n' ∉ inlineText fields := by
    refine notMem_joinWith (by decide) fun p hp => ?_
    obtain ⟨f, hf, rfl⟩ := List.mem_map.1 hp
    have hkey : '\n' ∉ f.1.toList := (h f hf).1.notMem (by decide)
    simp [Emit.assignment, hkey, (h f hf).2]
  have hname : '\n' ∉ id.toList := notMem_of_word hid (by decide)
  have hshape : inlineLine id fields =
      ('[' :: (id.toList ++ "] = \x7b".toList ++ (inlineText fields ++ ['}']))) ++ [','] := by
    simp [inlineLine, inlineRest]
  rw [hshape]
  refine isLine_concat ?_ (by decide) (by decide)
  simp [hname, htext]

end Line

/-! ## The last text

What is taken off at the end of the line, in the order in which it is: closing braces, blanks, and a
comma. -/

/-- A text without the comma at its end, if one stands there. -/
def withoutComma (s : Text) : Text := (dropEnd? [','] s).getD s

/-- What is read of the last text of a line. -/
def lastText (w : Text) : Text := trim (withoutComma (trimEnd (dropEndWhile (· = '}') w)))

theorem exists_withoutComma_append (s : Text) : ∃ b, s = withoutComma s ++ b := by
  rw [withoutComma]
  cases h : dropEnd? [','] s with
  | none => exact ⟨[], (List.append_nil s).symm⟩
  | some r => exact ⟨[','], dropEnd?_eq_some_iff.1 h⟩

theorem withoutComma_eq_self {s : Text} (h : ',' ∉ s.getLast?) : withoutComma s = s := by
  rw [withoutComma]
  cases hdrop : dropEnd? [','] s with
  | none => rfl
  | some r =>
    rw [dropEnd?_eq_some_iff.1 hdrop, List.getLast?_concat] at h
    exact absurd rfl h

theorem withoutComma_append_cons {c : Char} (hc : c ≠ ',') (s t : Text) :
    withoutComma (s ++ c :: t) = s ++ c :: withoutComma t := by
  cases t with
  | nil =>
    refine withoutComma_eq_self ?_
    rw [List.getLast?_concat]
    simpa using hc
  | cons d t =>
    have hshape : s ++ c :: d :: t = (s ++ [c]) ++ d :: t := by simp
    rw [hshape, withoutComma, dropEnd?_append_getD _ (List.cons_ne_nil d t)]
    simp [withoutComma]

/-- What is left without braces, blanks and a comma at the end is a start of the text. -/
theorem exists_append_of_left (t : Text) :
    ∃ b, t = withoutComma (trimEnd (dropEndWhile (· = '}') t)) ++ b := by
  obtain ⟨b, hb⟩ := exists_dropEndWhile_append (· = '}') t
  obtain ⟨b', hb'⟩ := exists_dropEndWhile_append isBlank (dropEndWhile (· = '}') t)
  obtain ⟨b'', hb''⟩ := exists_withoutComma_append (trimEnd (dropEndWhile (· = '}') t))
  refine ⟨b'' ++ b' ++ b, ?_⟩
  rw [← List.append_assoc, ← List.append_assoc, ← hb'']
  exact hb.trans (congrArg (· ++ b) hb')

/-- A text that ends neither with a brace nor with a comma is read as it is. -/
theorem lastText_eq_trim {w : Text} (hbrace : '}' ∉ w.getLast?)
    (hcomma : ',' ∉ (trimEnd w).getLast?) : lastText w = trim w := by
  have hdrop : dropEndWhile (· = '}') w = w := by
    refine dropEndWhile_eq_self fun c hc => ?_
    rw [decide_eq_false_iff_not]
    rintro rfl
    exact hbrace hc
  rw [lastText, hdrop, withoutComma_eq_self hcomma, trim_trimEnd]

/-- The blank before a text makes no difference to what is read of it. -/
theorem trim_lastText (w : Text) :
    trim (withoutComma (trimEnd (dropEndWhile (· = '}') (' ' :: w)))) = lastText w := by
  have hdrop : dropEndWhile (· = '}') (' ' :: w) = ' ' :: dropEndWhile (· = '}') w :=
    dropEndWhile_append_cons (by decide) [] w
  rw [hdrop, lastText]
  generalize dropEndWhile (· = '}') w = u
  obtain ⟨b, hb, hu⟩ := exists_trimEnd_eq u
  obtain ⟨b', hb', hu'⟩ := exists_trimEnd_eq (' ' :: u)
  have htrim : trim (' ' :: u) = trim u := trim_blanks_append (b := [' ']) (by simp [isBlank])
  have hcomma : ∀ b : Text, (∀ c ∈ b, isBlank c = true) →
      trim (withoutComma (b ++ trim u)) = trim (withoutComma (trim u)) := by
    intro b hb
    induction b with
    | nil => rfl
    | cons c b ih =>
      have hc : c ≠ ',' := by
        rintro rfl
        exact absurd (hb ',' List.mem_cons_self) (by decide)
      have hcons := withoutComma_append_cons hc [] (b ++ trim u)
      rw [List.nil_append, List.nil_append] at hcons
      rw [List.cons_append, hcons, ← List.singleton_append,
        trim_blanks_append (by simpa using hb c List.mem_cons_self)]
      exact ih fun d hd => hb d (List.mem_cons_of_mem c hd)
  rw [hu, hu', htrim, hcomma b hb, hcomma b' hb']

/-! ## The fields of a line

The lemmas of this section have the last field apart from the ones before it, `init ++ [(key, w)]`,
since it is read in another way. -/

section Inline

variable {id : String} {init : List (String × Text)} {key : String} {w : Text}

/-- What the line holds before the text of its last field. -/
theorem exists_inlineText (init : List (String × Text)) (key : String) :
    ∃ a, ∀ v, inlineText (init ++ [(key, v)]) = '.' :: (a ++ Emit.assignment key.toList v) ∧
      joinWith ", .".toList ((init.map fun f => Emit.assignment f.1.toList f.2) ++
        [key.toList ++ ' ' :: '=' :: v]) = a ++ (key.toList ++ ' ' :: '=' :: v) := by
  obtain ⟨a, ha⟩ := exists_joinWith_concat ", .".toList
    (init.map fun f => Emit.assignment f.1.toList f.2)
  refine ⟨a, fun v => ⟨?_, ha _⟩⟩
  have hmap : (init ++ [(key, v)]).map (fun f => '.' :: Emit.assignment f.1.toList f.2) =
      ((init.map fun f => Emit.assignment f.1.toList f.2) ++ [Emit.assignment key.toList v]).map
        ('.' :: ·) := by
    simp
  rw [inlineText, hmap, joinWith_map_cons _ _ (by simp), ← ha]
  rfl

theorem trim_inlineRest (fields : List (String × Text)) :
    trim (inlineRest fields) = '{' :: (inlineText fields ++ ['}', ',']) :=
  (trim_blanks_append (b := [' ']) (by simp [isBlank])).trans
    (trim_eq_self (isTrimmed_append (a := ['{']) ⟨by decide, by decide⟩ (by simp)
      ⟨by decide, by decide⟩ (by simp) _))

/-- The braces are taken off a line whose text has a last equals sign: all closing ones that
stand at the end after it, and the opening one. -/
theorem inlineBody_braces (s t : Text) :
    Scanner.inlineBody ('{' :: ('.' :: (s ++ '=' :: t) ++ ['}', ','])) =
      '.' :: (s ++ '=' :: trimEnd (dropEndWhile (· = '}') t)) := by
  have hcomma : dropEndWhile (· = ',') ('{' :: ('.' :: (s ++ '=' :: t) ++ ['}', ','])) =
      '{' :: '.' :: (s ++ '=' :: (t ++ ['}'])) := by
    simp [dropEndWhile]
  have hbraces : dropEndWhile (· = '}') ('{' :: '.' :: (s ++ '=' :: (t ++ ['}']))) =
      '{' :: '.' :: (s ++ '=' :: dropEndWhile (· = '}') t) := by
    have hlast : dropEndWhile (· = '}') (t ++ ['}']) = dropEndWhile (· = '}') t := by
      simp [dropEndWhile]
    rw [← hlast]
    exact dropEndWhile_append_cons (by decide) ('{' :: '.' :: s) _
  rw [Scanner.inlineBody, hcomma, hbraces]
  show trim ('.' :: (s ++ '=' :: _)) = _
  rw [trim, trimStart_eq_self (by simp [isBlank])]
  exact dropEndWhile_append_cons (by decide) ('.' :: s) _

/-- Fields in a row are taken apart, whatever text the last one has. -/
theorem splitFields_row (hinit : ∀ f ∈ init, IsKey f.1.toList ∧ IsInlineText f.2)
    (hkey : IsKey key.toList) {a v : Text}
    (ha : joinWith ", .".toList ((init.map fun f => Emit.assignment f.1.toList f.2) ++
      [key.toList ++ ' ' :: '=' :: withoutComma v]) =
        a ++ (key.toList ++ ' ' :: '=' :: withoutComma v))
    (htrim : IsTrimmed ('.' :: (a ++ key.toList ++ [' '] ++ '=' :: v)))
    (hpass : Passes ", .".toList (0, .plain) (key.toList ++ ' ' :: '=' :: withoutComma v) []) :
    splitFields ('.' :: (a ++ key.toList ++ [' '] ++ '=' :: v)) =
      (init.map fun f => (f.1, trim f.2)) ++ [(key, trim (withoutComma v))] := by
  have hcomma : (dropEnd? [','] (a ++ key.toList ++ [' '] ++ '=' :: v)).getD
      (a ++ key.toList ++ [' '] ++ '=' :: v) =
        joinWith ", .".toList ((init.map fun f => Emit.assignment f.1.toList f.2) ++
          [key.toList ++ ' ' :: '=' :: withoutComma v]) := by
    rw [ha]
    refine (withoutComma_append_cons (by decide) _ v).trans ?_
    simp
  have hsplit : splitTopLevel ", .".toList
      (joinWith ", .".toList ((init.map fun f => Emit.assignment f.1.toList f.2) ++
        [key.toList ++ ' ' :: '=' :: withoutComma v])) =
      (init.map fun f => Emit.assignment f.1.toList f.2) ++
        [key.toList ++ ' ' :: '=' :: withoutComma v] := by
    refine splitTopLevel_joinWith_concat ⟨by decide, by decide, by decide⟩ (fun p hp => ?_) hpass
    obtain ⟨f, hf, rfl⟩ := List.mem_map.1 hp
    obtain ⟨hk, hw⟩ := hinit f hf
    exact ⟨(isClosed_keyText hk).append hw.closed,
      (passes_assignment hk hw.separator).before_separator (by decide)⟩
  have hfields : (init.map fun f => Emit.assignment f.1.toList f.2).filterMap fieldOfPiece? =
      init.map fun f => (f.1, trim f.2) := by
    rw [List.filterMap_map, ← List.filterMap_eq_map]
    exact List.filterMap_congr fun f hf => fieldOfPiece?_assignment (hinit f hf).1 f.2
  simp only [splitFields, trim_eq_self htrim, dropStart?, if_true, Option.getD_some, hcomma, hsplit,
    List.filterMap_append, hfields, List.filterMap_cons, fieldOfPiece?_keyText hkey,
    List.filterMap_nil]

/-- **The fields of a line are found**, the last one with what is read of its text, and they are
complete with it. -/
theorem inlineFields_inlineRest
    (hinit : ∀ f ∈ init, IsKey f.1.toList ∧ IsInlineText f.2) (hkey : IsKey key.toList)
    (hw : IsInlineText w) :
    Scanner.inlineFields (inlineRest (init ++ [(key, w)])) =
        (init.map fun f => (f.1, trim f.2)) ++ [(key, lastText w)] ∧
      Scanner.endsInline (inlineRest (init ++ [(key, w)])) = true := by
  obtain ⟨a, ha⟩ := exists_inlineText init key
  obtain ⟨b, hb⟩ := exists_append_of_left (' ' :: w)
  have htext := trim_lastText w
  have hbody : Scanner.inlineBody (trim (inlineRest (init ++ [(key, w)]))) =
      '.' :: (a ++ key.toList ++ [' '] ++ '=' :: trimEnd (dropEndWhile (· = '}') (' ' :: w))) := by
    have hshape : inlineText (init ++ [(key, w)]) =
        '.' :: (a ++ key.toList ++ [' '] ++ '=' :: ' ' :: w) := by
      rw [(ha w).1]
      simp [Emit.assignment]
    rw [trim_inlineRest, hshape, inlineBody_braces]
  generalize trimEnd (dropEndWhile (· = '}') (' ' :: w)) = v at hb htext hbody
  have htrim : IsTrimmed ('.' :: (a ++ key.toList ++ [' '] ++ '=' :: v)) := by
    rw [← hbody]
    exact isTrimmed_trim _
  have hpass : Passes ", .".toList (0, .plain) (key.toList ++ ' ' :: '=' :: withoutComma v) [] := by
    have hshape : Emit.assignment key.toList w =
        (key.toList ++ ' ' :: '=' :: withoutComma v) ++ b := by
      simp [Emit.assignment, hb]
    have hlong := passes_assignment hkey hw.separator
    rw [hshape] at hlong
    exact hlong.left
  have hsplit := splitFields_row hinit hkey (ha _).2 htrim hpass
  rw [htext] at hsplit
  have hbraces : endsWith ['}', ','] (trim (inlineRest (init ++ [(key, w)]))) = true := by
    rw [trim_inlineRest, endsWith, ← List.cons_append, dropEnd?_append]
    rfl
  constructor
  · rw [Scanner.inlineFields, hbody, ← hsplit]
    exact if_pos (by simp)
  · rw [Scanner.endsInline, hbraces, hbody]
    rfl

end Inline

/-! ## The line and the block

Both are stated with `Scanner.Reads`, so that they hold wherever the entity stands between two
others, and both end in `Scan.withBlock`, with the same id and the same fields if the last text is
plain. -/

section Layout

variable {stem : Text} (table : FieldTable) {id : String} {scan : Scan}

/-- **An entity on one line is gone over**, its fields stored with their texts trimmed, the last one
with what is read of its text. -/
theorem reads_inlineLine (hstem : ∀ c ∈ stem, isWordChar c = true) (hid : IsIdOf stem id)
    {init : List (String × Text)} {key : String} {w : Text}
    (hinit : ∀ f ∈ init, IsKey f.1.toList ∧ IsInlineText f.2) (hkey : IsKey key.toList)
    (hw : IsInlineText w) (hstate : scan.state = .seeking) :
    (Scanner.ofStem stem table).Reads (inlineLine id (init ++ [(key, w)]) ++ ['\n']) scan
      (scan.withBlock (.ofStem stem table) id
        ((init.map fun f => (f.1, trim f.2)) ++ [(key, lastText w)])) := by
  obtain ⟨hfields, hends⟩ := inlineFields_inlineRest hinit hkey hw
  have hline : IsLine (inlineLine id (init ++ [(key, w)])) := by
    refine isLine_inlineLine (hid.isBlockOf hstem table).word fun f hf => ?_
    rcases List.mem_append.1 hf with hf | hf
    · exact ⟨(hinit f hf).1, (hinit f hf).2.newline⟩
    · obtain rfl := List.mem_singleton.1 hf
      exact ⟨hkey, hw.newline⟩
  obtain ⟨word, hword, hname⟩ := hid
  have hheader : headerAt? stem (inlineLine id (init ++ [(key, w)])) =
      some (id, inlineRest (init ++ [(key, w)])) :=
    headerAt?_bracketed (b := []) hword hname (by simp) _
  refine Scanner.Reads.line_of_step hline ?_
  rw [Scanner.step_header (by rw [hstate]; rfl) rfl hheader, Scanner.openEntity_eq, hends,
    if_pos rfl, Scanner.headEntity, hfields, hstate]
  obtain ⟨state, entities, rawTexts, report⟩ := scan
  subst hstate
  simp [Scan.withBlock, ScanState.open?]

/-- A block of fields on one line each is gone over, its fields stored with their texts trimmed. -/
theorem reads_lineBlock (hstem : ∀ c ∈ stem, isWordChar c = true) (hid : IsIdOf stem id)
    {fields : List (String × Text)} (h : ∀ f ∈ fields, IsKey f.1.toList ∧ IsOneLine f.2)
    (hstate : scan.state = .seeking) :
    (Scanner.ofStem stem table).Reads (unlines (Emit.block id fields)) scan
      (scan.withBlock (.ofStem stem table) id (fields.map fun f => (f.1, trim f.2))) := by
  let written : List WrittenField := fields.map fun f => ⟨f.1, f.2, trim f.2⟩
  have hstores : ∀ f ∈ written, f.Stores (.ofStem stem table) := by
    intro f hf
    obtain ⟨g, hg, rfl⟩ := List.mem_map.1 hf
    exact (h g hg).2.stores (h g hg).1 stem table
  have hreads := reads_block (hid.isBlockOf hstem table) hstores hstate
  have hraw : rawFields written = fields.map fun f => (f.1, trim f.2) := by
    simp [rawFields, written, Function.comp_def]
  have hwritten : written.map (fun f => (f.key, f.written)) = fields := by
    simp [written, Function.comp_def]
  rw [hraw, hwritten] at hreads
  exact hreads

/-- The last text ends neither with a closing brace nor with a comma. -/
def HasPlainEnd (fields : List (String × Text)) : Prop :=
  ∀ f ∈ fields.getLast?, '}' ∉ f.2.getLast? ∧ ',' ∉ (trimEnd f.2).getLast?

/-- **On one line or in a block, an entity is scanned alike**, wherever it stands between entities
and whatever follows it. -/
theorem scan_inlineLine (hstem : ∀ c ∈ stem, isWordChar c = true) (hid : IsIdOf stem id)
    {fields : List (String × Text)} (hne : fields ≠ [])
    (h : ∀ f ∈ fields, IsKey f.1.toList ∧ IsOneLine f.2) (hend : HasPlainEnd fields) {before : Text}
    (hbefore : (Scanner.ofStem stem table).Reads before {} scan) (hstate : scan.state = .seeking)
    (rest : Text) :
    (Scanner.ofStem stem table).scan (before ++ (inlineLine id fields ++ ['\n']) ++ rest) =
      (Scanner.ofStem stem table).scan (before ++ unlines (Emit.block id fields) ++ rest) := by
  have hblock := hbefore.append (reads_lineBlock table hstem hid h hstate) rest
  obtain ⟨init, ⟨key, w⟩, hlast⟩ := (List.eq_nil_or_concat fields).resolve_left hne
  rw [List.concat_eq_append] at hlast
  subst hlast
  obtain ⟨hkey, hw⟩ := h (key, w) (by simp)
  obtain ⟨hbrace, hcomma⟩ := hend (key, w) (by rw [List.getLast?_concat]; rfl)
  have hinit : ∀ f ∈ init, IsKey f.1.toList ∧ IsInlineText f.2 := fun f hf =>
    ⟨(h f (List.mem_append_left _ hf)).1, (h f (List.mem_append_left _ hf)).2.toIsInlineText⟩
  have hreads := reads_inlineLine table hstem hid hinit hkey hw.toIsInlineText hstate
  rw [lastText_eq_trim hbrace hcomma] at hreads
  have hline := hbefore.append hreads rest
  rw [List.map_append, List.map_singleton] at hblock
  rw [Scanner.scan, Scanner.scanLines, hline, Scanner.scan, Scanner.scanLines, hblock]

/-- Fields with a list and, at the end, a name with a quoted brace. -/
def lineSample : List (String × Text) :=
  [("baseHP", "45".toList), ("types", "\x7b TYPE_GRASS, TYPE_POISON \x7d".toList),
    ("speciesName", "_(\"A, .b = \x7d\")".toList)]

/-- The fields of the sample on one line and in a block, after another entity. -/
theorem scan_inlineLine_lineSample :
    let scanner := Scanner.ofStem Species.speciesStem Species.fieldTable
    let before := unlines (Emit.block "SPECIES_NONE" [("baseHP", "1".toList)])
    (∀ f ∈ lineSample, IsKey f.1.toList ∧ IsOneLine f.2) ∧ HasPlainEnd lineSample ∧
      scanner.scan (before ++ (inlineLine "SPECIES_A" lineSample ++ ['\n']) ++ "\x7d;".toList) =
        scanner.scan (before ++ unlines (Emit.block "SPECIES_A" lineSample) ++ "\x7d;".toList) := by
  have hstem : ∀ c ∈ Species.speciesStem, isWordChar c = true := by decide
  have hfirst : ∀ f ∈ [("baseHP", "1".toList)], IsKey f.1.toList ∧ IsOneLine f.2 := by
    simp only [List.mem_singleton]
    rintro f rfl
    exact ⟨⟨by decide, by decide⟩, ⟨⟨by decide, fun _ => rfl, by decide⟩, by decide, by decide⟩⟩
  have hfields : ∀ f ∈ lineSample, IsKey f.1.toList ∧ IsOneLine f.2 := by
    simp only [lineSample, List.mem_cons, List.not_mem_nil, or_false]
    rintro f (rfl | rfl | rfl)
    · exact ⟨⟨by decide, by decide⟩, ⟨⟨by decide, fun _ => rfl, by decide⟩, by decide, by decide⟩⟩
    · exact ⟨⟨by decide, by decide⟩,
        ⟨⟨by decide, fun _ => rfl, by decide +kernel⟩, by decide +kernel, by decide⟩⟩
    · exact ⟨⟨by decide, by decide⟩,
        ⟨⟨by decide, fun _ => rfl, by decide +kernel⟩, by decide +kernel, by decide⟩⟩
  have hend : HasPlainEnd lineSample := by
    intro f hf
    obtain rfl := Option.some.inj hf
    decide
  exact ⟨hfields, hend, scan_inlineLine Species.fieldTable hstem
    ⟨['A'], ⟨by decide, by decide⟩, rfl⟩ (by simp [lineSample]) hfields hend
    (reads_lineBlock Species.fieldTable hstem ⟨"NONE".toList, ⟨by decide, by decide⟩, rfl⟩ hfirst rfl)
    rfl _⟩

/-- **A list at the end of the line loses its closing brace**, and is no list any more. -/
theorem scan_nestedBraces :
    let scanner := Scanner.ofStem Species.speciesStem Species.fieldTable
    let fields := [("types", "\x7b TYPE_GRASS, TYPE_POISON \x7d".toList)]
    (scanner.scan (inlineLine "SPECIES_A" fields)).entities.map (fun e => e.fields.get? "types") =
        [some (.str "\x7b TYPE_GRASS, TYPE_POISON")] ∧
      (scanner.scan (unlines (Emit.block "SPECIES_A" fields))).entities.map
          (fun e => e.fields.get? "types") =
        [some (.list [.str "TYPE_GRASS", .str "TYPE_POISON"])] := by
  decide +kernel

end Layout

end TableSync
