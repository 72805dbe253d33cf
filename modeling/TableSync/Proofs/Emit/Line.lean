import TableSync.Proofs.Emit.Region

/-!
# Editing one line

Which line an edit changes, said by its number, and what the lines of the edited text are.  An edit
looks for a line with one mark, and behind it for a line with another one; it replaces that
line, or puts lines after it.

* `editLine_of_isFirst` is what an edit does if both lines are there, and `editLine_eq_ok_iff` says
  when it succeeds, and what it then puts out.  The lines before and after are those of the text, as
  pieces with their line ends, so nothing about them is changed.
* `ended` is a line with its line feed, which a last line may lack; it gets one before lines are put
  after it.
* `pieces_replaced` and `pieces_extended` are the lines of a text in which a line has been replaced,
  or has got others after it.  Lines that are put in are cut apart from what follows them whatever
  they hold (`pieces_unlines_append`), as each of them is ended by a line feed.
-/

set_option autoImplicit false

namespace TableSync

variable {scope target : Marker} {edit : LineEdit} {text out : Text} {file : String} {i j : Nat}

/-! ## The outcome of an edit -/

theorem editLine_of_isFirst (hscope : scope.IsFirst (pieces text) 0 i)
    (htarget : target.IsFirst (pieces text) (i + 1) j) {line : Text}
    (hline : (pieces text)[j]? = some line) (file : String) (edit : LineEdit) :
    editLine text file scope target edit = .ok (((pieces text).take j).flatten ++ edit.apply line
      ++ ((pieces text).drop (j + 1)).flatten) := by
  obtain ⟨before, scopeLine, hsplit, hbefore, hscopeLine⟩ := hscope.exists_split?
  obtain ⟨between, hit, hsplit', hbetween, hhit⟩ := htarget.exists_split?
  obtain ⟨hi, rfl⟩ := List.getElem?_eq_some_iff.1 hscopeLine
  obtain rfl : hit = line := Option.some.inj (hhit.symm.trans hline)
  have hkept : ((pieces text).take j).flatten =
      before.flatten ++ (pieces text)[i] ++ between.flatten := by
    rw [← hbetween, ← List.take_append_getElem hi, ← hbefore, List.take_zero, List.nil_append,
      List.flatten_append, List.flatten_append, List.flatten_singleton]
  rw [List.drop_zero] at hsplit
  simp only [editLine, hsplit, hsplit', hkept]

/-- **An edit succeeds exactly where its two lines are found**, and keeps all lines but the second
one. -/
theorem editLine_eq_ok_iff :
    editLine text file scope target edit = .ok out ↔
      ∃ i j line, scope.IsFirst (pieces text) 0 i ∧ target.IsFirst (pieces text) (i + 1) j ∧
        (pieces text)[j]? = some line ∧
        out = ((pieces text).take j).flatten ++ edit.apply line
          ++ ((pieces text).drop (j + 1)).flatten := by
  constructor
  · intro h
    by_cases hscope : ∃ i, scope.IsFirst (pieces text) 0 i
    · obtain ⟨i, hscope⟩ := hscope
      by_cases htarget : ∃ j, target.IsFirst (pieces text) (i + 1) j
      · obtain ⟨j, htarget⟩ := htarget
        obtain ⟨line, hline, -⟩ := htarget.exists_line
        rw [editLine_of_isFirst hscope htarget hline] at h
        exact ⟨i, j, line, hscope, htarget, hline, (Except.ok.inj h).symm⟩
      · obtain ⟨before, scopeLine, hsplit, -, -⟩ := hscope.exists_split?
        rw [List.drop_zero] at hsplit
        simp only [editLine, hsplit, Marker.split?_eq_none (not_exists.1 htarget)] at h
        cases h
    · have hsplit := Marker.split?_eq_none (not_exists.1 hscope)
      rw [List.drop_zero] at hsplit
      simp only [editLine, hsplit] at h
      cases h
  · rintro ⟨i, j, line, hscope, htarget, hline, rfl⟩
    exact editLine_of_isFirst hscope htarget hline file edit

/-! ## The lines of an edited text -/

/-- A line with its line feed, which is put after it if it lacks one. -/
def ended (line : Text) : Text := line ++ if endsWith ['\n'] line then [] else ['\n']

theorem ended_of_isEnded {line : Text} (h : IsEnded line) : ended line = line := by
  obtain ⟨a, -, rfl⟩ := h
  rw [ended, if_pos (endsWith_iff.2 ⟨a, rfl⟩), List.append_nil]

/-- A piece of a text with its line feed is a line. -/
theorem isEnded_ended {line : Text} (h : line ∈ pieces text) : IsEnded (ended line) := by
  obtain ⟨before, after, happend⟩ := List.append_of_mem h
  obtain hended | ⟨hline, -⟩ := (pieces_eq_cons (pieces_eq_append happend).1).2
  · rwa [ended_of_isEnded hended]
  · refine ⟨line, hline, ?_⟩
    rw [ended, endsWith_eq_false hline, if_neg Bool.false_ne_true]

/-- A text is cut after each of its line feeds. -/
theorem pieces_cut (a b : Text) : pieces (a ++ '\n' :: b) = pieces (a ++ ['\n']) ++ pieces b := by
  induction a with
  | nil => rfl
  | cons c a ih =>
    have hne : pieces (a ++ ['\n']) ≠ [] := by
      intro hnil
      have hflatten := flatten_pieces (a ++ ['\n'])
      rw [hnil] at hflatten
      exact List.concat_ne_nil '\n' a hflatten.symm
    obtain ⟨p, ps, hps⟩ := List.exists_cons_of_ne_nil hne
    rw [List.cons_append, List.cons_append, pieces, pieces, ih, hps]
    split
    · rfl
    · rfl

/-- What is written as lines is cut from what follows it, whatever the lines hold. -/
theorem pieces_unlines_append (ls : List Text) (s : Text) :
    pieces (unlines ls ++ s) = pieces (unlines ls) ++ pieces s := by
  induction ls with
  | nil => rfl
  | cons l ls ih =>
    rw [unlines_cons, List.append_assoc, List.append_assoc, List.append_assoc,
      List.singleton_append, List.singleton_append, pieces_cut, pieces_cut l (unlines ls), ih,
      List.append_assoc]

/-- The lines of a text in which others have taken the place of a line. -/
theorem pieces_replaced {n : Nat} (hn : n < (pieces text).length) (ls : List Text) :
    pieces (((pieces text).take n).flatten ++ unlines ls ++ ((pieces text).drop (n + 1)).flatten) =
      (pieces text).take n ++ pieces (unlines ls) ++ (pieces text).drop (n + 1) := by
  rw [List.append_assoc, pieces_flatten_append (isEnded_of_mem_take hn), pieces_unlines_append,
    pieces_drop, List.append_assoc]

/-- The lines of a text in which others have been put after a line. -/
theorem pieces_extended {n : Nat} {line : Text} (hline : (pieces text)[n]? = some line)
    (ls : List Text) :
    pieces (((pieces text).take n).flatten ++ (LineEdit.append ls).apply line
        ++ ((pieces text).drop (n + 1)).flatten) =
      (pieces text).take n ++ (ended line :: pieces (unlines ls))
        ++ (pieces text).drop (n + 1) := by
  obtain ⟨hn, -⟩ := List.getElem?_eq_some_iff.1 hline
  have hkept : ∀ p ∈ (pieces text).take n ++ [ended line], IsEnded p :=
    List.forall_mem_append.2 ⟨isEnded_of_mem_take hn,
      List.forall_mem_singleton.2 (isEnded_ended (List.mem_of_getElem? hline))⟩
  have hcut := pieces_flatten_append hkept (unlines ls ++ ((pieces text).drop (n + 1)).flatten)
  rw [pieces_unlines_append, pieces_drop, List.flatten_append, List.flatten_singleton] at hcut
  simp only [List.append_assoc, List.singleton_append] at hcut
  rw [LineEdit.apply, ← ended]
  simp only [List.append_assoc, List.cons_append]
  exact hcut

end TableSync
