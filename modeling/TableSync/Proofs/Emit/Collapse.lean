import TableSync.Proofs.Emit.Region

/-!
# Collapsing lines

All lines with a mark give way to one line, in the place of the first of them.  The includes of the
tables of species are replaced by one include in this way.

* `IsCut` are the texts that can stand as the pieces of a text: all but the last one have their line
  feeds.  Leaving some of them out keeps this (`IsCut.filter`), so the pieces of the collapsed text
  can be told from those of the text before.
* `collapseLines_eq_self` and `pieces_collapseLines` are the two cases of a text without the mark,
  and with it.  `Marker.IsFirst` says which line is the first one; that there is one, if the mark is
  anywhere, is `exists_isFirst`.
* `Marker.collapsed` are the lines after the change, `exists_collapsed_eq` says that they are those
  without the mark around the new one, and `accepts_of_mem_collapsed` that none of them has the mark
  but possibly the new one.
* `collapseLines_collapseLines` says that there is nothing left for a second time.  If the new line
  has no mark, no line has; if it has, it is the first one and the only one, and is put in its own
  place.
-/

set_option autoImplicit false

namespace TableSync

variable {m : Marker} {ls : List Text} {text replacement : Text} {i : Nat}

/-! ## Leaving out pieces

The last piece of a text may lack its line feed.  It is still the last one when others are left out,
and if it is left out itself, the one before it ends in a line feed, and an empty piece is not
counted. -/

/-- The pieces of a text: all but the last one have their line feeds. -/
def IsCut (ls : List Text) : Prop := pieces ls.flatten = ls

/-- Lines in front of the pieces of a text. -/
theorem IsCut.append {kept : List Text} (hkept : ∀ p ∈ kept, IsEnded p) (h : IsCut ls) :
    IsCut (kept ++ ls) := by
  rw [IsCut, List.flatten_append, pieces_flatten_append hkept, h]

/-- The pieces that are left when some are left out are those of a text again. -/
theorem IsCut.filter (h : IsCut ls) (p : Text → Bool) : IsCut (ls.filter p) := by
  induction ls with
  | nil => rfl
  | cons l ls ih =>
    obtain ⟨hrest, hl⟩ := pieces_eq_cons h
    rw [List.filter_cons]
    split
    · rcases hl with hended | ⟨-, rfl⟩
      · exact (ih hrest).append (List.forall_mem_singleton.2 hended)
      · exact h
    · exact ih hrest

/-! ## The two cases -/

namespace Marker

theorem split?_eq_none_iff : m.split? ls = none ↔ ∀ line ∈ ls, m.accepts line = false := by
  induction ls with
  | nil => simp [split?]
  | cons l ls ih =>
    rw [split?, List.forall_mem_cons, ← ih]
    cases m.accepts l with
    | true => simp
    | false => simp

/-- Some line meets a condition, and then there is a first one. -/
theorem exists_isFirst (h : ∃ line ∈ ls, m.accepts line = true) : ∃ i, m.IsFirst ls 0 i := by
  cases hsplit : m.split? ls with
  | some found => exact ⟨_, isFirst_of_split? hsplit⟩
  | none =>
    obtain ⟨line, hline, haccepts⟩ := h
    rw [split?_eq_none_iff.1 hsplit line hline] at haccepts
    cases haccepts

theorem IsFirst.lt_length (h : m.IsFirst ls 0 i) : i < ls.length := by
  obtain ⟨line, hline, -⟩ := h.exists_line
  exact (List.getElem?_eq_some_iff.1 hline).1

/-- The lines around the first one that meets the condition. -/
theorem IsFirst.exists_eq_append (h : m.IsFirst ls 0 i) :
    ∃ hit, ls = ls.take i ++ hit :: ls.drop (i + 1) ∧ m.accepts hit = true ∧
      ∀ line ∈ ls.take i, m.accepts line = false := by
  obtain ⟨before, hit, hsplit, hbefore, -⟩ := h.exists_split?
  rw [List.drop_zero] at hsplit
  rw [List.take_zero, List.nil_append] at hbefore
  rw [hbefore] at hsplit
  exact ⟨hit, split?_eq_some_iff.1 hsplit⟩

end Marker

/-- **A text without the mark stays as it is.** -/
theorem collapseLines_eq_self (h : ∀ line ∈ pieces text, m.accepts line = false)
    (replacement : Text) : collapseLines text m replacement = text := by
  rw [collapseLines, Marker.split?_eq_none_iff.2 h]

/-- The lines with one in the place of line `i`, and without the further ones with the mark. -/
def collapsed (m : Marker) (ls : List Text) (i : Nat) (replacement : Text) : List Text :=
  ls.take i ++ (replacement ++ ['\n']) :: (ls.drop (i + 1)).filter (!m.accepts ·)

theorem collapseLines_eq (h : m.IsFirst (pieces text) 0 i) (replacement : Text) :
    collapseLines text m replacement = (collapsed m (pieces text) i replacement).flatten := by
  obtain ⟨hit, hsplit⟩ := h.exists_eq_append
  rw [collapseLines, Marker.split?_eq_some_iff.2 hsplit, collapsed, List.flatten_append,
    List.flatten_cons]
  simp only [List.append_assoc]

/-- **Of a text with the mark the other lines stay**, and one line more. -/
theorem pieces_collapseLines (h : m.IsFirst (pieces text) 0 i) (hline : '\n' ∉ replacement) :
    pieces (collapseLines text m replacement) = collapsed m (pieces text) i replacement := by
  have hrest : IsCut ((pieces text).drop (i + 1)) := pieces_drop text (i + 1)
  have hnew : ∀ p ∈ [replacement ++ ['\n']], IsEnded p :=
    List.forall_mem_singleton.2 ⟨replacement, hline, rfl⟩
  rw [collapseLines_eq h]
  exact ((hrest.filter _).append hnew).append (isEnded_of_mem_take h.lt_length)

/-- The new line aside, the lines are those without the mark. -/
theorem exists_collapsed_eq (h : m.IsFirst ls 0 i) (replacement : Text) :
    ∃ before after, collapsed m ls i replacement = before ++ (replacement ++ ['\n']) :: after ∧
      before ++ after = ls.filter (!m.accepts ·) := by
  obtain ⟨hit, hls, hhit, hbefore⟩ := h.exists_eq_append
  refine ⟨_, _, rfl, ?_⟩
  have hkept : (ls.take i).filter (!m.accepts ·) = ls.take i :=
    List.filter_eq_self.2 fun line hline => by rw [hbefore line hline]; rfl
  calc ls.take i ++ (ls.drop (i + 1)).filter (!m.accepts ·)
      = (ls.take i ++ hit :: ls.drop (i + 1)).filter (!m.accepts ·) := by
        rw [List.filter_append, List.filter_cons, hhit, hkept]
        rfl
    _ = ls.filter (!m.accepts ·) := by rw [← hls]

/-- Collapsed lines have the mark in the new line at most. -/
theorem accepts_of_mem_collapsed (h : m.IsFirst ls 0 i)
    (hnew : m.accepts (replacement ++ ['\n']) = false) :
    ∀ line ∈ collapsed m ls i replacement, m.accepts line = false := by
  obtain ⟨before, after, hcollapsed, hkept⟩ := exists_collapsed_eq h replacement
  have hmarkless : ∀ line ∈ before ++ after, m.accepts line = false := by
    rw [hkept]
    intro line hline
    simpa using (List.mem_filter.1 hline).2
  rw [hcollapsed, List.forall_mem_append, List.forall_mem_cons]
  rw [List.forall_mem_append] at hmarkless
  exact ⟨hmarkless.1, hnew, hmarkless.2⟩

/-- A new line with the mark is the first one with it, and the only one. -/
theorem collapsed_collapsed (h : m.IsFirst ls 0 i)
    (hnew : m.accepts (replacement ++ ['\n']) = true) :
    m.IsFirst (collapsed m ls i replacement) 0 i ∧
      collapsed m (collapsed m ls i replacement) i replacement = collapsed m ls i replacement := by
  obtain ⟨hit, -, -, hbefore⟩ := h.exists_eq_append
  have hlength : (ls.take i).length = i := by
    rw [List.length_take, Nat.min_eq_left (Nat.le_of_lt h.lt_length)]
  constructor
  · have hfirst := Marker.isFirst_append [] ((ls.drop (i + 1)).filter (!m.accepts ·)) hbefore hnew
    rwa [List.nil_append, List.length_nil, Nat.zero_add, hlength] at hfirst
  · rw [collapsed, collapsed, List.take_left' hlength, ← List.drop_drop, List.drop_left' hlength,
      List.drop_one, List.tail_cons, List.filter_filter]
    simp only [Bool.and_self]

/-- **Collapsing twice is collapsing once**, whether or not the new line has the mark. -/
theorem collapseLines_collapseLines (text : Text) (m : Marker) (hline : '\n' ∉ replacement) :
    collapseLines (collapseLines text m replacement) m replacement =
      collapseLines text m replacement := by
  by_cases hmark : ∃ line ∈ pieces text, m.accepts line = true
  · obtain ⟨i, hi⟩ := Marker.exists_isFirst hmark
    have hpieces := pieces_collapseLines hi hline
    cases hnew : m.accepts (replacement ++ ['\n']) with
    | false =>
      refine collapseLines_eq_self ?_ replacement
      rw [hpieces]
      exact accepts_of_mem_collapsed hi hnew
    | true =>
      obtain ⟨hi', htwice⟩ := collapsed_collapsed hi hnew
      rw [← hpieces] at hi'
      rw [collapseLines_eq hi', hpieces, htwice, collapseLines_eq hi]
  · have hnone : ∀ line ∈ pieces text, m.accepts line = false := by simpa using hmark
    rw [collapseLines_eq_self hnone, collapseLines_eq_self hnone]

end TableSync
