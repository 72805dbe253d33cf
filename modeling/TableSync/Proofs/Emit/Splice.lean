import TableSync.Emit.Splice
import TableSync.Proofs.Text.Lines

/-!
# The lines of an edited file

Files are edited piece by piece and read line by line.  A mark stands in a piece exactly when it
stands in the line (`Marker.accepts_chomp`), so that the lines of an edited file are those of the
pristine one around the new lines.  That holds of marks without line ends, which all marks of the
program are (`Marker.IsInLine`).

* `contains_iff` and `startsWith_iff_prefix` say what the two kinds of marks look for, and the
  lemmas behind them how that goes with texts that are put together.
* `split?_eq_some_iff` says what a search in a list of pieces finds, and `split?_of_map_chomp` that
  it finds the same in the lines.
* `editLine_replace` puts lines in the place of a line that is found.
* `lines_of_editLine_append` puts lines after one.  If that line is the last one of the file and
  ends in a carriage return alone, the line feed that it gets makes a line end of both.
* `spliceRegion_anchors` puts lines between a second anchor and the end of its region.

The modules on single files cite these three, and do not look into the pieces any more.
-/

set_option autoImplicit false

namespace TableSync

/-! ## Marks

A line end is a line feed, or a carriage return and a line feed.  A piece has it and a line has not,
so a mark must not be able to reach into it. -/

/-- The first occurrence of a text is found wherever it stands. -/
theorem contains_iff {sep s : Text} : contains sep s = true ↔ sep <:+: s := by
  induction s with
  | nil => cases sep <;> simp [contains, cut?]
  | cons c s ih =>
    rw [List.infix_cons_iff, ← ih, contains, cut?]
    cases hstart : dropStart? sep (c :: s) with
    | some r => exact ⟨fun _ => .inl ⟨r, (dropStart?_eq_some_iff.1 hstart).symm⟩, fun _ => rfl⟩
    | none =>
      have hstart : ¬ sep <+: c :: s := by
        rintro ⟨r, hr⟩
        rw [dropStart?_eq_some_iff.2 hr.symm] at hstart
        cases hstart
      simp [hstart, contains]

/-- What does not hold a character of a text does not hold the text. -/
theorem contains_of_notMem {p s : Text} {x : Char} (hx : x ∈ p) (h : x ∉ s) :
    contains p s = false := by
  rw [← Bool.not_eq_true, contains_iff]
  exact fun hin => h (hin.subset hx)

/-- A text is not found across characters other than its first one. -/
theorem contains_append {x : Char} {p a : Text} (hx : x ∉ a) (s : Text) :
    contains (x :: p) (a ++ s) = contains (x :: p) s := by
  induction a with
  | nil => rfl
  | cons c a ih =>
    rw [List.mem_cons, not_or] at hx
    have hstart : dropStart? (x :: p) (c :: (a ++ s)) = none := by
      rw [dropStart?, if_neg hx.1]
    rw [← ih hx.2, List.cons_append, contains, cut?, hstart]
    exact Option.isSome_map

theorem contains_singleton (c : Char) (s : Text) : contains [c] s = s.contains c := by
  rw [Bool.eq_iff_iff, contains_iff, List.contains_iff_mem]
  constructor
  · exact fun h => h.subset List.mem_cons_self
  · intro h
    obtain ⟨a, b, rfl⟩ := List.append_of_mem h
    exact ⟨a, b, by rw [List.append_assoc, List.singleton_append]⟩

theorem startsWith_iff_prefix {p s : Text} : startsWith p s = true ↔ p <+: s := by
  rw [startsWith_iff]
  exact exists_congr fun r => eq_comm

theorem startsWith_concat {p : Text} {c : Char} (hc : c ∉ p) (s : Text) :
    startsWith p (s ++ [c]) = startsWith p s := by
  rw [Bool.eq_iff_iff, startsWith_iff_prefix, startsWith_iff_prefix, List.prefix_concat_iff]
  refine or_iff_right ?_
  rintro rfl
  exact hc List.mem_concat_self

theorem contains_concat {p : Text} {c : Char} (hne : p ≠ []) (hc : c ∉ p) (s : Text) :
    contains p (s ++ [c]) = contains p s := by
  rw [Bool.eq_iff_iff, contains_iff, contains_iff, List.infix_concat_iff]
  refine or_iff_right fun hsuffix => ?_
  obtain hnil | ⟨t, rfl, _⟩ := List.suffix_concat_iff.1 hsuffix
  · exact hne hnil
  · exact hc List.mem_concat_self

namespace Marker

variable {m : Marker}

/-- A mark that has neither of the two characters of a line end. -/
def IsInLine (m : Marker) : Prop := m.text ≠ [] ∧ '\n' ∉ m.text ∧ '\r' ∉ m.text

instance (m : Marker) : Decidable m.IsInLine := inferInstanceAs (Decidable (_ ∧ _))

/-- A blank that the mark does not have makes no difference at the end of a line. -/
theorem accepts_concat {c : Char} (hblank : isBlank c = true) (hne : m.text ≠ [])
    (hc : c ∉ m.text) (l : Text) : m.accepts (l ++ [c]) = m.accepts l := by
  cases m with
  | contains t => exact contains_concat hne hc l
  | startsWith t => exact startsWith_concat hc l
  | trimmedStartsWith t =>
    rw [accepts, accepts, trimStart, trimStart, List.dropWhile_append]
    split
    · next hl => rw [List.isEmpty_iff.1 hl, List.dropWhile_cons_of_pos hblank, List.dropWhile_nil]
    · exact startsWith_concat hc _

theorem accepts_chomp (hm : m.IsInLine) (p : Text) : m.accepts (chomp p) = m.accepts p := by
  obtain ⟨hne, hn, hr⟩ := hm
  rw [chomp]
  split
  · rfl
  · next line hline =>
    rw [dropEnd?_eq_some_iff.1 hline, accepts_concat (by decide) hne hn]
    cases hreturn : dropEnd? ['\r'] line with
    | none => rfl
    | some l =>
      rw [dropEnd?_eq_some_iff.1 hreturn, accepts_concat (by decide) hne hr, Option.getD_some]

/-- What is before a mark that is found, and that nothing there has the mark. -/
theorem split?_eq_some_iff {ls before after : List Text} {hit : Text} :
    m.split? ls = some (before, hit, after) ↔
      ls = before ++ hit :: after ∧ m.accepts hit = true ∧ ∀ l ∈ before, m.accepts l = false := by
  induction ls generalizing before with
  | nil => simp [split?]
  | cons l ls ih =>
    rw [split?]
    cases hl : m.accepts l with
    | true =>
      simp only [if_true, Option.some.injEq, Prod.mk.injEq]
      constructor
      · rintro ⟨rfl, rfl, rfl⟩
        exact ⟨rfl, hl, by simp⟩
      · rintro ⟨heq, hhit, hbefore⟩
        cases before with
        | nil =>
          rw [List.nil_append, List.cons.injEq] at heq
          exact ⟨rfl, heq⟩
        | cons b before =>
          rw [List.cons_append, List.cons.injEq] at heq
          obtain ⟨rfl, rfl⟩ := heq
          rw [hbefore l List.mem_cons_self] at hl
          cases hl
    | false =>
      rw [if_neg Bool.false_ne_true, Option.map_eq_some_iff]
      constructor
      · rintro ⟨⟨before', hit', after'⟩, hsplit, heq⟩
        cases heq
        obtain ⟨rfl, hhit, hbefore⟩ := ih.1 hsplit
        exact ⟨rfl, hhit, List.forall_mem_cons.2 ⟨hl, hbefore⟩⟩
      · rintro ⟨heq, hhit, hbefore⟩
        cases before with
        | nil =>
          rw [List.nil_append, List.cons.injEq] at heq
          rw [heq.1, hhit] at hl
          cases hl
        | cons b before =>
          rw [List.cons_append, List.cons.injEq] at heq
          obtain ⟨rfl, rfl⟩ := heq
          obtain ⟨-, hbefore⟩ := List.forall_mem_cons.1 hbefore
          exact ⟨(before, hit, after), ih.2 ⟨rfl, hhit, hbefore⟩, rfl⟩

/-- A mark is found in pieces where it is in their lines. -/
theorem split?_of_map_chomp (hm : m.IsInLine) {ps : List Text} {before after : List Text}
    {hit : Text} (h : ps.map chomp = before ++ hit :: after) (hhit : m.accepts hit = true)
    (hbefore : ∀ l ∈ before, m.accepts l = false) :
    ∃ before' hit' after', ps = before' ++ hit' :: after' ∧
      m.split? ps = some (before', hit', after') ∧
      before'.map chomp = before ∧ chomp hit' = hit ∧ after'.map chomp = after := by
  obtain ⟨before', rest, rfl, rfl, hrest⟩ := List.map_eq_append_iff.1 h
  obtain ⟨hit', after', rfl, rfl, rfl⟩ := List.map_eq_cons_iff.1 hrest
  rw [accepts_chomp hm] at hhit
  refine ⟨before', hit', after', rfl, split?_eq_some_iff.2 ⟨rfl, hhit, fun l hl => ?_⟩, rfl, rfl,
    rfl⟩
  rw [← accepts_chomp hm]
  exact hbefore (chomp l) (List.mem_map_of_mem hl)

end Marker

/-! ## Edits -/

variable {text : Text} {scope target : Marker} {before between after ls : List Text}
  {scopeLine hit : Text}

/-- The lines of a text that has new lines between two parts of another one. -/
theorem lines_between {ps rs : List Text} (hps : ∀ p ∈ ps, IsEnded p)
    (hrs : pieces rs.flatten = rs) (hls : ∀ l ∈ ls, IsLine l) :
    lines (ps.flatten ++ (unlines ls ++ rs.flatten)) = ps.map chomp ++ (ls ++ rs.map chomp) := by
  rw [lines_flatten_append hps, lines_unlines_append hls, lines, hrs]

/-- The lines of a text whose last line has got a line feed, and new lines after it. -/
theorem lines_extended {ps : List Text} {last : Text} (hps : ∀ p ∈ ps, IsEnded p)
    (hlast : '\n' ∉ last) (hls : ∀ l ∈ ls, IsLine l) :
    lines (ps.flatten ++ (last ++ '\n' :: unlines ls)) =
      ps.map chomp ++ (dropEnd? ['\r'] last).getD last :: ls := by
  have hnew : lines (unlines ls) = ls := by
    simpa [lines, pieces] using lines_unlines_append hls []
  rw [lines_flatten_append hps, lines_append_newline hlast, hnew]

/-- **Lines take the place of the line that is found.** -/
theorem editLine_replace (hscope : scope.IsInLine) (htarget : target.IsInLine)
    (hlines : lines text = before ++ scopeLine :: (between ++ hit :: after))
    (hscopeLine : scope.accepts scopeLine = true) (hhit : target.accepts hit = true)
    (hbefore : ∀ l ∈ before, scope.accepts l = false)
    (hbetween : ∀ l ∈ between, target.accepts l = false) (hls : ∀ l ∈ ls, IsLine l)
    (file : String) :
    ∃ out, editLine text file scope target (.replace ls) = .ok out ∧
      lines out = before ++ scopeLine :: (between ++ ls ++ after) := by
  obtain ⟨before, scopeLine, rest, hpieces, hsplit, rfl, rfl, hrest⟩ :=
    Marker.split?_of_map_chomp hscope hlines hscopeLine hbefore
  obtain ⟨between, hit, after, rfl, hsplit', rfl, rfl, rfl⟩ :=
    Marker.split?_of_map_chomp htarget hrest hhit hbetween
  have hpieces' : pieces text = (before ++ scopeLine :: between) ++ hit :: after := by
    rw [hpieces, List.append_assoc, List.cons_append]
  have hparts := lines_between ((pieces_eq_append hpieces').2 (List.cons_ne_nil hit after))
    (pieces_eq_cons (pieces_eq_append hpieces').1).1 hls
  simp only [List.flatten_append, List.flatten_cons, List.map_append, List.map_cons,
    List.append_assoc, List.cons_append] at hparts ⊢
  refine ⟨_, ?_, hparts⟩
  simp only [editLine, hsplit, hsplit', LineEdit.apply, List.append_assoc]

/-- **Lines follow a line that is found.**  If it is the last one, a carriage return at its end may
become part of its line end. -/
theorem lines_of_editLine_append {file : String} {out : Text}
    (h : editLine text file scope target (.append ls) = .ok out) (hls : ∀ l ∈ ls, IsLine l) :
    ∃ before hit hit' after, lines text = before ++ hit :: after ∧
      lines out = before ++ hit' :: (ls ++ after) ∧
      (hit' = hit ∨ (after = [] ∧ hit = hit' ++ ['\r'])) := by
  rw [editLine] at h
  split at h
  · cases h
  next before scopeLine rest hsplit =>
    split at h
    · cases h
    next between hit after hsplit' =>
      cases h
      obtain ⟨hpieces, -⟩ := Marker.split?_eq_some_iff.1 hsplit
      obtain ⟨rfl, -⟩ := Marker.split?_eq_some_iff.1 hsplit'
      have hkept : pieces text = (before ++ scopeLine :: between) ++ hit :: after := by
        rw [hpieces, List.append_assoc, List.cons_append]
      obtain ⟨hrest, hended⟩ := pieces_eq_append hkept
      have hkeptEnded := hended (List.cons_ne_nil hit after)
      obtain ⟨hafter, hhit⟩ := pieces_eq_cons hrest
      have hlines : lines text =
          (before ++ scopeLine :: between).map chomp ++ chomp hit :: after.map chomp := by
        rw [lines, hkept, List.map_append, List.map_cons]
      rcases hhit with ⟨a, ha, rfl⟩ | ⟨ha, rfl⟩
      · -- the line is ended, and the new lines follow it
        have hallEnded : ∀ p ∈ before ++ scopeLine :: between ++ [a ++ ['\n']], IsEnded p :=
          List.forall_mem_append.2 ⟨hkeptEnded, List.forall_mem_singleton.2 ⟨a, ha, rfl⟩⟩
        have hparts := lines_between hallEnded hafter hls
        refine ⟨_, _, _, _, hlines, ?_, .inl rfl⟩
        simpa [LineEdit.apply, endsWith_iff.2 ⟨a, rfl⟩] using hparts
      · -- the line is the last one and gets its line end now
        have hparts := lines_extended hkeptEnded ha hls
        refine ⟨_, _, (dropEnd? ['\r'] hit).getD hit, _, hlines, ?_, ?_⟩
        · simpa [LineEdit.apply, endsWith_eq_false ha] using hparts
        · rw [chomp_eq_self ha]
          cases hreturn : dropEnd? ['\r'] hit with
          | none => exact .inl rfl
          | some l => exact .inr ⟨rfl, dropEnd?_eq_some_iff.1 hreturn⟩

/-- **Lines take the place of a region**, which starts after the second of two anchors. -/
theorem spliceRegion_anchors {first second stop : Marker} {region : List Text}
    {anchorLine openingLine closingLine : Text} (hfirst : first.IsInLine)
    (hsecond : second.IsInLine) (hstop : stop.IsInLine)
    (hlines : lines text = before ++ anchorLine :: (between ++ openingLine ::
      (region ++ closingLine :: after)))
    (hanchorLine : first.accepts anchorLine = true)
    (hopeningLine : second.accepts openingLine = true)
    (hclosingLine : stop.accepts closingLine = true)
    (hbefore : ∀ l ∈ before, first.accepts l = false)
    (hbetween : ∀ l ∈ between, second.accepts l = false)
    (hregion : ∀ l ∈ region, stop.accepts l = false)
    (hls : ∀ l ∈ ls, IsLine l) (file : String) :
    ∃ out, spliceRegion text file [first, second] stop ls = .ok out ∧
      lines out = before ++ anchorLine :: (between ++ openingLine :: (ls ++ closingLine :: after)) := by
  obtain ⟨before, anchorLine, rest, hpieces, hsplit, rfl, rfl, hrest⟩ :=
    Marker.split?_of_map_chomp hfirst hlines hanchorLine hbefore
  obtain ⟨between, openingLine, rest, rfl, hsplit', rfl, rfl, hrest'⟩ :=
    Marker.split?_of_map_chomp hsecond hrest hopeningLine hbetween
  obtain ⟨region, closingLine, after, rfl, hsplit'', rfl, rfl, rfl⟩ :=
    Marker.split?_of_map_chomp hstop hrest' hclosingLine hregion
  have hkept : pieces text = (before ++ anchorLine :: (between ++ [openingLine])) ++
      (region ++ closingLine :: after) := by
    simp only [hpieces, List.append_assoc, List.cons_append, List.nil_append]
  obtain ⟨hrest, hended⟩ := pieces_eq_append hkept
  have hparts := lines_between (hended (by simp)) (pieces_eq_append hrest).1 hls
  simp only [List.flatten_append, List.flatten_cons, List.map_append, List.map_cons,
    List.append_assoc, List.cons_append, List.flatten_nil, List.append_nil, List.map_nil,
    List.nil_append] at hparts ⊢
  refine ⟨_, ?_, hparts⟩
  have hanchors : passAnchors file [first, second] (pieces text) =
      .ok (before ++ anchorLine :: (between ++ [openingLine]), region ++ closingLine :: after) := by
    simp only [passAnchors, hsplit, hsplit', bind, Except.bind, pure, Except.pure]
  simp [spliceRegion, hanchors, hsplit'', bind, Except.bind, pure, Except.pure]

end TableSync
