import TableSync.Proofs.Text.Split
import TableSync.Scan.Line

/-!
# Escaped text between quotes

Escaped text holds no line feed and no quote that would end a segment, so every reader of a line
comes out of it where it went in.  There are three such readers: of segments, of comments and of
separators.  They have states of their own, but all of them pass over a backslash and the character
after it when they are inside quotes.

* `segmentsFrom_escape` is for the reader of segments, which gives back the escaped text as it
  stands; `segments_quoted` for a whole segment, and `segmentsFrom_append` for what stands after the
  last segment of a line.
* `cutCommentFrom_escape` and `passes_escape` are for the readers of comments and of separators.
* `cutComment_of_notMem` is for text without a slash, and `cutCommentFrom_concat` for text in which
  slashes open no comment (`IsUncommented`).

The lemmas about escaped text are by induction on the text before it was escaped, since a character
of it may have become two; those about any other text are by induction on the text itself.
-/

set_option autoImplicit false

namespace TableSync

/-! ## Escapes -/

theorem escape_cons (c : Char) (s : Text) : escape (c :: s) = escapeChar c ++ escape s :=
  List.flatMap_cons

theorem escape_append (s t : Text) : escape (s ++ t) = escape s ++ escape t :=
  List.flatMap_append

/-- A character is escaped by a backslash and one of three letters, or stands for itself. -/
theorem escapeChar_cases (c : Char) :
    (∃ d, escapeChar c = ['\\', d] ∧ d ≠ '\n') ∨
      (escapeChar c = [c] ∧ c ≠ '\\' ∧ c ≠ '"' ∧ c ≠ '\n') := by
  rw [escapeChar]
  split
  · exact .inl ⟨'\\', rfl, by decide⟩
  · split
    · exact .inl ⟨'"', rfl, by decide⟩
    · split
      · exact .inl ⟨'n', rfl, by decide⟩
      · exact .inr ⟨rfl, by assumption, by assumption, by assumption⟩

theorem newline_notMem_escape (s : Text) : '\n' ∉ escape s := by
  intro h
  obtain ⟨c, -, hc⟩ := List.mem_flatMap.1 h
  rcases escapeChar_cases c with ⟨d, he, hd⟩ | ⟨he, -, -, hn⟩
  · rw [he] at hc
    rcases List.mem_cons.1 hc with h | h
    · exact absurd h (by decide)
    · exact hd (List.mem_singleton.1 h).symm
  · rw [he] at hc
    exact hn (List.mem_singleton.1 hc).symm

/-- Escaped text does not start with a quote. -/
theorem head?_escape_ne (s : Text) : (escape s).head? ≠ some '"' := by
  cases s with
  | nil => simp [escape]
  | cons c s =>
    rw [escape_cons]
    rcases escapeChar_cases c with ⟨d, he, -⟩ | ⟨he, -, hq, -⟩
    · rw [he]
      simp
    · rw [he]
      simpa using hq

/-! ## Segments

Each step of the reader, then segments, and then what is left of a line after them. -/

/-- A quote opens a segment. -/
theorem segmentsFrom_outside_quote (after r : Text) :
    segmentsFrom (.outside after) ('"' :: r) =
      ⟨(segmentsFrom .inside r).text, (segmentsFrom .inside r).count + 1,
        (segmentsFrom .inside r).closed⟩ := rfl

/-- Any other character outside segments is passed. -/
theorem segmentsFrom_outside_cons {c : Char} (hq : c ≠ '"') (after r : Text) :
    segmentsFrom (.outside after) (c :: r) = segmentsFrom (.outside (c :: after)) r :=
  if_neg hq

/-- A quote ends the segment. -/
theorem segmentsFrom_inside_quote (r : Text) :
    segmentsFrom .inside ('"' :: r) = segmentsFrom (.outside []) r := rfl

/-- A backslash and the character after it belong to the segment. -/
theorem segmentsFrom_inside_escape (c : Char) (r : Text) :
    segmentsFrom .inside ('\\' :: c :: r) =
      ⟨'\\' :: c :: (segmentsFrom .inside r).text, (segmentsFrom .inside r).count,
        (segmentsFrom .inside r).closed⟩ := rfl

/-- A character that is neither a quote nor a backslash belongs to the segment. -/
theorem segmentsFrom_inside_cons {c : Char} (hq : c ≠ '"') (hb : c ≠ '\\') (r : Text) :
    segmentsFrom .inside (c :: r) =
      ⟨c :: (segmentsFrom .inside r).text, (segmentsFrom .inside r).count,
        (segmentsFrom .inside r).closed⟩ := by
  rw [segmentsFrom, if_neg hq]
  · exact fun h => absurd h hb
  · exact fun _ _ h => absurd h hb

/-- A segment is read up to its closing quote. -/
theorem segmentsFrom_escape (s r : Text) :
    segmentsFrom .inside (escape s ++ '"' :: r) =
      ⟨escape s ++ (segmentsFrom (.outside []) r).text, (segmentsFrom (.outside []) r).count,
        (segmentsFrom (.outside []) r).closed⟩ := by
  induction s with
  | nil =>
    show segmentsFrom .inside ('"' :: r) = _
    rw [segmentsFrom_inside_quote]
    simp [escape]
  | cons c s ih =>
    rw [escape_cons]
    rcases escapeChar_cases c with ⟨d, he, -⟩ | ⟨he, hb, hq, -⟩
    · rw [he, List.append_assoc, List.cons_append, List.cons_append, List.nil_append,
        segmentsFrom_inside_escape, ih]
      rfl
    · rw [he, List.append_assoc, List.cons_append, List.nil_append,
        segmentsFrom_inside_cons hq hb, ih]
      rfl

/-- What follows the last segment is passed over, and tells whether a parenthesis closes. -/
theorem segmentsFrom_outside {r : Text} (h : '"' ∉ r) (after : Text) :
    segmentsFrom (.outside after) r =
      ⟨[], 0, startsWith [')'] (trimStart (after.reverse ++ r))⟩ := by
  induction r generalizing after with
  | nil =>
    rw [List.append_nil]
    rfl
  | cons c r ih =>
    rw [List.mem_cons, not_or] at h
    rw [segmentsFrom_outside_cons (Ne.symm h.1), ih h.2, List.reverse_cons, List.append_assoc]
    rfl

/-- A line with one segment, after text without quotes. -/
theorem segments_quoted {b r : Text} (hb : '"' ∉ b) (hr : '"' ∉ r) (s : Text) :
    segments (b ++ '"' :: (escape s ++ '"' :: r)) =
      ⟨escape s, 1, startsWith [')'] (trimStart r)⟩ := by
  have hskip : ∀ after, segmentsFrom (.outside after) (b ++ '"' :: (escape s ++ '"' :: r)) =
      ⟨escape s, 1, startsWith [')'] (trimStart r)⟩ := by
    induction b with
    | nil =>
      intro after
      rw [List.nil_append, segmentsFrom_outside_quote, segmentsFrom_escape, segmentsFrom_outside hr]
      simp
    | cons c b ih =>
      intro after
      rw [List.mem_cons, not_or] at hb
      rw [List.cons_append, segmentsFrom_outside_cons (Ne.symm hb.1), ih hb.2]
  rw [segments, hskip]
  simp

/-- What was passed before the first segment is not looked at. -/
theorem segments_eq_segmentsFrom (after s : Text) :
    segments s = ⟨(segmentsFrom (.outside after) s).text, (segmentsFrom (.outside after) s).count,
      (segmentsFrom (.outside after) s).count != 0 && (segmentsFrom (.outside after) s).closed⟩ := by
  induction s generalizing after with
  | nil => rfl
  | cons c s ih =>
    by_cases hc : c = '"'
    · subst hc
      rfl
    · rw [segments, segmentsFrom_outside_cons hc, segmentsFrom_outside_cons hc, ← ih, ← ih]

/-- Text without quotes before the segments of a line makes no difference to them. -/
theorem segments_append {b : Text} (hb : '"' ∉ b) (s : Text) : segments (b ++ s) = segments s := by
  induction b with
  | nil => rfl
  | cons c b ih =>
    rw [List.mem_cons, not_or] at hb
    rw [List.cons_append, segments, segmentsFrom_outside_cons (Ne.symm hb.1),
      ← segments_eq_segmentsFrom, ih hb.2]

/-- The first segment of a line comes before the others. -/
theorem text_segments_quoted {b : Text} (hb : '"' ∉ b) (s r : Text) :
    (segments (b ++ '"' :: (escape s ++ '"' :: r))).text = escape s ++ (segments r).text := by
  rw [segments_append hb, segments, segmentsFrom_outside_quote, segmentsFrom_escape, segments]

/-- A parenthesis closes after a segment only if the segment ends. -/
theorem closed_of_inside (s : Text) (h : '"' ∉ s) : (segmentsFrom .inside s).closed = false := by
  match s with
  | [] => rfl
  | c :: r =>
    rw [List.mem_cons, not_or] at h
    by_cases hb : c = '\\'
    · subst hb
      match r with
      | [] => rfl
      | d :: r =>
        rw [segmentsFrom_inside_escape]
        exact closed_of_inside r fun hmem => h.2 (List.mem_cons_of_mem d hmem)
    · rw [segmentsFrom_inside_cons (Ne.symm h.1) hb]
      exact closed_of_inside r h.2

/-- What follows a line without opening a segment adds no text to it, and does not matter at all if
the literal has ended on the line. -/
theorem segmentsFrom_append {tail : Text} (htail : '"' ∉ tail) (st : SegmentState) (line : Text) :
    ((segmentsFrom st line).closed = true → segmentsFrom st (line ++ tail) = segmentsFrom st line) ∧
      ((segmentsFrom st (line ++ tail)).closed = true →
        (segmentsFrom st (line ++ tail)).text = (segmentsFrom st line).text) := by
  fun_induction segmentsFrom st line with
  | case1 after =>
    rw [List.nil_append, segmentsFrom_outside htail]
    refine ⟨fun h => ?_, fun _ => rfl⟩
    -- the parenthesis that closes stands before the tail
    obtain ⟨r, hr⟩ := startsWith_iff.1 (h : startsWith [')'] (trimStart after.reverse) = true)
    have hlong : trimStart (after.reverse ++ tail) = ')' :: (r ++ tail) := by
      rw [trimStart] at hr
      rw [trimStart, List.dropWhile_append, hr]
      rfl
    rw [hlong, hr]
    simp [startsWith, dropStart?]
  | case2 after r rest ih =>
    rw [List.cons_append, segmentsFrom_outside_quote]
    exact ⟨fun h => by rw [ih.1 h], ih.2⟩
  | case3 after c r hc ih =>
    rw [List.cons_append, segmentsFrom_outside_cons hc]
    exact ih
  | case4 =>
    refine ⟨fun h => Bool.noConfusion h, fun h => ?_⟩
    rw [List.nil_append, closed_of_inside tail htail] at h
    exact Bool.noConfusion h
  | case5 =>
    refine ⟨fun h => Bool.noConfusion h, fun h => ?_⟩
    have hnone : '"' ∉ '\\' :: tail := List.not_mem_cons_of_ne_of_not_mem (by decide) htail
    rw [List.singleton_append, closed_of_inside _ hnone] at h
    exact Bool.noConfusion h
  | case6 c r rest ih =>
    rw [List.cons_append, List.cons_append, segmentsFrom_inside_escape]
    exact ⟨fun h => by rw [ih.1 h], fun h => congrArg (fun t => '\\' :: c :: t) (ih.2 h)⟩
  | case7 r _ _ ih =>
    rw [List.cons_append, segmentsFrom_inside_quote]
    exact ih
  | case8 c r hlast hmore hc rest ih =>
    have hbackslash : c ≠ '\\' := by
      rintro rfl
      cases r with
      | nil => exact hlast rfl rfl
      | cons d r => exact hmore d r rfl rfl
    rw [List.cons_append, segmentsFrom_inside_cons hc hbackslash]
    exact ⟨fun h => by rw [ih.1 h], fun h => congrArg (c :: ·) (ih.2 h)⟩

/-- Once a literal has ended on a line, the rest of the line makes no difference. -/
theorem segments_append_of_closed {line tail : Text} (h : (segments line).closed = true)
    (htail : '"' ∉ tail) : segments (line ++ tail) = segments line := by
  rw [segments, Bool.and_eq_true] at h
  rw [segments, (segmentsFrom_append htail _ line).1 h.2, segments]

/-- If a literal ends with what follows a line, the text of the line is that of the whole. -/
theorem text_segments_append {line tail : Text} (htail : '"' ∉ tail)
    (h : (segments (line ++ tail)).closed = true) :
    (segments (line ++ tail)).text = (segments line).text := by
  rw [segments, Bool.and_eq_true] at h
  exact (segmentsFrom_append htail _ line).2 h.2

/-! ## Comments

A comment starts with two slashes outside quotes, and that may be seen only with the character after
the text. -/

/-- A character that does not start a comment is passed over. -/
theorem cutCommentFrom_cons {q : QuoteState} {c : Char} {r : Text}
    (h : q = .plain → startsWith ['/', '/'] (c :: r) = false) :
    cutCommentFrom q (c :: r) =
      (c :: (cutCommentFrom (q.step c) r).1, (cutCommentFrom (q.step c) r).2) := by
  rw [cutCommentFrom]
  rintro r' rfl rfl rfl
  exact Bool.noConfusion (h rfl)

/-- Where a reader of quotes stands after a text. -/
def quoteAfter (q : QuoteState) (s : Text) : QuoteState := s.foldl (fun q c => q.step c) q

/-- Text without quotes does not open any. -/
theorem quoteAfter_of_notMem {s : Text} (h : '"' ∉ s) : quoteAfter .plain s = .plain := by
  induction s with
  | nil => rfl
  | cons c s ih =>
    rw [List.mem_cons, not_or] at h
    rw [quoteAfter, List.foldl_cons, QuoteState.step, if_neg (Ne.symm h.1)]
    exact ih h.2

/-- Text without a slash holds no comment. -/
theorem cutCommentFrom_append {s : Text} (h : '/' ∉ s) (q : QuoteState) (r : Text) :
    cutCommentFrom q (s ++ r) =
      (s ++ (cutCommentFrom (quoteAfter q s) r).1, (cutCommentFrom (quoteAfter q s) r).2) := by
  induction s generalizing q with
  | nil => rfl
  | cons c s ih =>
    rw [List.mem_cons, not_or] at h
    rw [List.cons_append, cutCommentFrom_cons fun _ => startsWith_cons_eq_false h.1, ih h.2]
    rfl

theorem cutComment_of_notMem {s : Text} (h : '/' ∉ s) : cutComment s = (s, none) := by
  have hs := cutCommentFrom_append h .plain []
  rw [List.append_nil] at hs
  rw [cutComment, hs]
  exact congrArg (·, none) (List.append_nil s)

theorem stripComment_of_notMem {s : Text} (h : '/' ∉ s) : stripComment s = s := by
  rw [stripComment, cutComment_of_notMem h]

/-- Inside quotes no comment starts. -/
theorem cutCommentFrom_escape (s r : Text) :
    cutCommentFrom .quoted (escape s ++ '"' :: r) =
      (escape s ++ '"' :: (cutCommentFrom .plain r).1, (cutCommentFrom .plain r).2) := by
  have hquoted : ∀ c t, QuoteState.quoted = .plain → startsWith ['/', '/'] (c :: t) = false :=
    fun _ _ h => QuoteState.noConfusion h
  have hescaped : ∀ c t, QuoteState.escaped = .plain → startsWith ['/', '/'] (c :: t) = false :=
    fun _ _ h => QuoteState.noConfusion h
  induction s with
  | nil => exact cutCommentFrom_cons (hquoted _ r)
  | cons c s ih =>
    rw [escape_cons]
    rcases escapeChar_cases c with ⟨d, he, -⟩ | ⟨he, hb, hq, -⟩
    · have h1 : QuoteState.step '\\' .quoted = .escaped := rfl
      have h2 : QuoteState.step d .escaped = .quoted := rfl
      rw [he, List.append_assoc, List.cons_append, List.cons_append, List.nil_append,
        cutCommentFrom_cons (hquoted _ _), h1, cutCommentFrom_cons (hescaped _ _), h2, ih]
      rfl
    · have h1 : QuoteState.step c .quoted = .quoted := by
        rw [QuoteState.step, if_neg hb, if_neg hq]
      rw [he, List.append_assoc, List.cons_append, List.nil_append,
        cutCommentFrom_cons (hquoted _ _), h1, ih]
      rfl

/-- No comment starts in a text: two slashes stand in it only between quotes. -/
def IsUncommented (q : QuoteState) (s : Text) : Prop :=
  ∀ u v, s = u ++ '/' :: '/' :: v → quoteAfter q u ≠ .plain

theorem isUncommented_cons_iff {q : QuoteState} {c : Char} {s : Text} :
    IsUncommented q (c :: s) ↔
      (q = .plain → startsWith ['/', '/'] (c :: s) = false) ∧ IsUncommented (q.step c) s := by
  refine ⟨fun h => ⟨fun hq => ?_, fun u v hs => h (c :: u) v (by rw [hs, List.cons_append])⟩,
    fun h u v hs => ?_⟩
  · refine Bool.eq_false_iff.2 fun hstart => ?_
    obtain ⟨r, hr⟩ := startsWith_iff.1 hstart
    exact h [] r hr hq
  · cases u with
    | nil =>
      intro hq
      have hstart : startsWith ['/', '/'] (c :: s) = true := startsWith_iff.2 ⟨v, hs⟩
      rw [h.1 hq] at hstart
      exact Bool.noConfusion hstart
    | cons d u =>
      obtain ⟨rfl, rfl⟩ := List.cons.inj hs
      exact h.2 u v rfl

instance decidableIsUncommented : (s : Text) → (q : QuoteState) → Decidable (IsUncommented q s)
  | [], _ => isTrue fun u v hs => absurd hs (by simp)
  | c :: s, q =>
    have := decidableIsUncommented s (q.step c)
    decidable_of_iff _ isUncommented_cons_iff.symm

/-- The reader of comments goes over a text in which none starts, and over the character after it if
that is no slash. -/
theorem cutCommentFrom_concat {q : QuoteState} {s : Text} {x : Char} (h : IsUncommented q s)
    (hx : x ≠ '/') : cutCommentFrom q (s ++ [x]) = (s ++ [x], none) := by
  induction s generalizing q with
  | nil => exact cutCommentFrom_cons fun _ => startsWith_cons_eq_false (Ne.symm hx)
  | cons c s ih =>
    rw [isUncommented_cons_iff] at h
    have hstart : q = .plain → startsWith ['/', '/'] (c :: (s ++ [x])) = false := by
      intro hq
      refine Bool.eq_false_iff.2 fun hs => ?_
      obtain ⟨r, hr⟩ := startsWith_iff.1 hs
      cases s with
      | nil => exact hx (List.cons.inj (List.cons.inj hr).2).1
      | cons d s =>
        -- the second slash is then the first character of the rest
        have hshort : startsWith ['/', '/'] (c :: d :: s) = true := by
          rw [(List.cons.inj hr).1, (List.cons.inj (List.cons.inj hr).2).1]
          rfl
        rw [h.1 hq] at hshort
        exact Bool.noConfusion hshort
    rw [List.cons_append, cutCommentFrom_cons hstart, ih h.2]

/-! ## Separators -/

/-- Inside quotes no separator counts. -/
theorem passes_escape (sep : Text) (depth : Nat) (s r : Text) :
    Passes sep (depth, .quoted) (escape s) r ∧
      levelAfter (depth, .quoted) (escape s) = (depth, .quoted) := by
  have hquoted : ((depth, QuoteState.quoted) : Nat × QuoteState) ≠ (0, .plain) := by simp
  have hescaped : ((depth, QuoteState.escaped) : Nat × QuoteState) ≠ (0, .plain) := by simp
  induction s with
  | nil => exact ⟨fun u v hs hv => absurd (List.append_eq_nil_iff.1 hs.symm).2 hv, rfl⟩
  | cons c s ih =>
    rw [escape_cons]
    rcases escapeChar_cases c with ⟨d, he, -⟩ | ⟨he, hb, hq, -⟩
    · rw [he]
      exact ⟨passes_cons hquoted (passes_cons hescaped ih.1), ih.2⟩
    · have h1 : levelStep (depth, .quoted) c = (depth, .quoted) := by
        rw [levelStep, QuoteState.step, if_neg hb, if_neg hq]
        intro h
        exact absurd h (by simp)
      rw [he]
      constructor
      · refine passes_cons hquoted ?_
        rw [h1]
        exact ih.1
      · rw [List.cons_append, List.nil_append, levelAfter, List.foldl_cons, h1]
        exact ih.2

end TableSync
