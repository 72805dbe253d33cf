import TableSync.Text.Basic

/-!
# Texts as lines

A text is read line by line, and is put together again from its lines.  There are two notions of a
line.  A piece is a line with its line feed, if it has one, so that the pieces of a text put
together are the text.  A line as it is read is a piece without its line feed, and without a
carriage return before it.

* `lines_append_newline` takes the first line off, and `lines_line` does so for a line that does not
  end with a carriage return, which is then read as it was written (`IsLine`).
* `lines_unlines_append` says that lines which are written out are read in turn, by induction on the
  lines; what follows them plays no part.
* A text can be put together again from its pieces, or from some of them: `pieces_flatten_append`,
  `lines_flatten_append` and `pieces_eq_append` say which pieces and lines it then has.  All pieces
  but the last one have their line feeds (`IsEnded`), and where one without it came before others,
  it would run into the next one.
-/

set_option autoImplicit false

namespace TableSync

/-- The characters before the first line feed are the first piece, with that line feed. -/
theorem pieces_append_newline {a b : Text} (h : '\n' ∉ a) :
    pieces (a ++ '\n' :: b) = (a ++ ['\n']) :: pieces b := by
  induction a with
  | nil => simp [pieces]
  | cons c a ih =>
    rw [List.mem_cons, not_or] at h
    rw [List.cons_append, pieces, if_neg (Ne.symm h.1), ih h.2, consHead, List.cons_append]

theorem endsWith_iff {s : Text} : endsWith ['\n'] s = true ↔ ∃ a, s = a ++ ['\n'] := by
  rw [endsWith, Option.isSome_iff_exists]
  exact exists_congr fun a => dropEnd?_eq_some_iff

theorem endsWith_eq_false {s : Text} (h : '\n' ∉ s) : endsWith ['\n'] s = false := by
  rw [← Bool.not_eq_true, endsWith_iff]
  rintro ⟨a, rfl⟩
  exact h List.mem_concat_self

/-- A piece without a line feed is the line that it is. -/
theorem chomp_eq_self {s : Text} (h : '\n' ∉ s) : chomp s = s := by
  have hnone : dropEnd? ['\n'] s = none := by simpa [endsWith] using endsWith_eq_false h
  rw [chomp, hnone]

/-- A line read from the start of a text, without its line end. -/
theorem lines_append_newline {a b : Text} (h : '\n' ∉ a) :
    lines (a ++ '\n' :: b) = (dropEnd? ['\r'] a).getD a :: lines b := by
  have hchomp : chomp (a ++ ['\n']) = (dropEnd? ['\r'] a).getD a := by
    rw [chomp, dropEnd?_eq_some_iff.2 rfl]
  rw [lines, pieces_append_newline h, List.map_cons, hchomp, lines]

/-- A text that is one line: it holds no line feed, and no carriage return ends it. -/
def IsLine (s : Text) : Prop := '\n' ∉ s ∧ s.getLast? ≠ some '\r'

instance (s : Text) : Decidable (IsLine s) := inferInstanceAs (Decidable (_ ∧ _))

theorem dropEnd?_carriageReturn {s : Text} (h : s.getLast? ≠ some '\r') :
    dropEnd? ['\r'] s = none := by
  cases hd : dropEnd? ['\r'] s with
  | none => rfl
  | some r =>
    rw [dropEnd?_eq_some_iff.1 hd, List.getLast?_concat] at h
    exact absurd rfl h

/-- A line is read as it was written. -/
theorem lines_line {a b : Text} (h : IsLine a) : lines (a ++ '\n' :: b) = a :: lines b := by
  rw [lines_append_newline h.1, dropEnd?_carriageReturn h.2, Option.getD_none]

/-- A text that ends with a character other than a line end is a line if it has no line feed. -/
theorem isLine_concat {s : Text} {c : Char} (hs : '\n' ∉ s) (hn : c ≠ '\n') (hr : c ≠ '\r') :
    IsLine (s ++ [c]) := by
  constructor
  · rw [List.mem_append, not_or]
    exact ⟨hs, by simpa using Ne.symm hn⟩
  · rw [List.getLast?_concat]
    simpa using hr

theorem unlines_cons (l : Text) (ls : List Text) : unlines (l :: ls) = (l ++ ['\n']) ++ unlines ls :=
  List.flatten_cons

/-- Lines written out are read in turn. -/
theorem lines_unlines_append {ls : List Text} (h : ∀ l ∈ ls, IsLine l) (s : Text) :
    lines (unlines ls ++ s) = ls ++ lines s := by
  induction ls with
  | nil => rfl
  | cons l ls ih =>
    have hrest := ih fun m hm => h m (List.mem_cons_of_mem l hm)
    rw [unlines_cons, List.append_assoc, List.append_assoc, List.cons_append, List.nil_append,
      lines_line (h l List.mem_cons_self), hrest, List.cons_append]

/-! ## Texts put together from pieces

What an edit of a text does: it takes the pieces of the text apart and puts some of them together
with new lines. -/

/-- A piece that has its line feed. -/
def IsEnded (p : Text) : Prop := ∃ a, '\n' ∉ a ∧ p = a ++ ['\n']

theorem pieces_of_notMem {a : Text} (h : '\n' ∉ a) (hne : a ≠ []) : pieces a = [a] := by
  induction a with
  | nil => exact absurd rfl hne
  | cons c a ih =>
    rw [List.mem_cons, not_or] at h
    rw [pieces, if_neg (Ne.symm h.1)]
    cases a with
    | nil => rfl
    | cons d a => rw [ih h.2 (List.cons_ne_nil d a), consHead]

/-- The first piece has its line feed, unless it is the only one. -/
theorem pieces_eq_cons {s p : Text} {ps : List Text} (h : pieces s = p :: ps) :
    pieces ps.flatten = ps ∧ (IsEnded p ∨ ('\n' ∉ p ∧ ps = [])) := by
  by_cases hs : '\n' ∈ s
  · obtain ⟨a, b, rfl, ha⟩ := List.eq_append_cons_of_mem hs
    rw [pieces_append_newline ha, List.cons.injEq] at h
    obtain ⟨rfl, rfl⟩ := h
    exact ⟨by rw [flatten_pieces], .inl ⟨a, ha, rfl⟩⟩
  · have hne : s ≠ [] := by
      rintro rfl
      cases h
    rw [pieces_of_notMem hs hne, List.cons.injEq] at h
    obtain ⟨rfl, rfl⟩ := h
    exact ⟨rfl, .inr ⟨hs, rfl⟩⟩

/-- Of the pieces of a text, the last ones are the pieces of what they are put together to, and
those before them have their line feeds. -/
theorem pieces_eq_append {s : Text} {ps qs : List Text} (h : pieces s = ps ++ qs) :
    pieces qs.flatten = qs ∧ (qs ≠ [] → ∀ p ∈ ps, IsEnded p) := by
  induction ps generalizing s with
  | nil =>
    rw [List.nil_append] at h
    exact ⟨by rw [← h, flatten_pieces], fun _ _ hp => absurd hp List.not_mem_nil⟩
  | cons p ps ih =>
    obtain ⟨hrest, hp⟩ := pieces_eq_cons h
    obtain ⟨hqs, hps⟩ := ih hrest
    refine ⟨hqs, fun hne => List.forall_mem_cons.2 ⟨?_, hps hne⟩⟩
    exact hp.resolve_right fun hlast => hne (List.append_eq_nil_iff.1 hlast.2).2

/-- Pieces with their line feeds are cut off in turn. -/
theorem pieces_flatten_append {ps : List Text} (h : ∀ p ∈ ps, IsEnded p) (s : Text) :
    pieces (ps.flatten ++ s) = ps ++ pieces s := by
  induction ps with
  | nil => rfl
  | cons p ps ih =>
    obtain ⟨⟨a, ha, rfl⟩, hps⟩ := List.forall_mem_cons.1 h
    rw [List.flatten_cons, List.append_assoc, List.append_assoc, List.singleton_append,
      pieces_append_newline ha, ih hps, List.cons_append]

/-- Pieces with their line feeds are read in turn. -/
theorem lines_flatten_append {ps : List Text} (h : ∀ p ∈ ps, IsEnded p) (s : Text) :
    lines (ps.flatten ++ s) = ps.map chomp ++ lines s := by
  rw [lines, pieces_flatten_append h, List.map_append, lines]

end TableSync
