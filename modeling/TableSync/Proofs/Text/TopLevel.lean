import Mathlib.Data.List.Infix
import TableSync.Proofs.Text.Quote

/-!
# Splitting at the top level is inverse to joining

A text is what its parts give when they are joined again, whatever the separator.  The other way
round, parts are found again that could stand in a list of fields: their quotes are closed, their
brackets stand in pairs, and no separator is met outside both.

* `joinWith_splitTopLevelFrom` is the first direction, by induction on the text, at any state of the
  reader.
* `outside` are the characters of a text outside quotes, and `IsTopLevel` says that neither a quote
  nor a bracket is open at its end.  Neither mentions the reader.
* `IsPiece` says what a part has to be, and `levelAfter_eq` that the reader, for which a closing
  bracket may close nothing, counts such brackets as they are: as long as no bracket is closed too
  early, its depth is the number of opened brackets less the number of closed ones.
* From this `IsPiece.isClosed` and `IsPiece.passes` follow, which are the conditions under which
  parts are found again.
* `splitTopLevel_inverse` puts both directions together.

Brackets of different kinds are not told apart, neither by the reader nor by `IsPiece`.
-/

set_option autoImplicit false

namespace TableSync

/-! ## Joining what was split

Nothing is asked of the text here: unbalanced brackets and open quotes change the parts, but not
what they are joined to. -/

theorem joinWith_nil_cons {ps : List Text} (h : ps ≠ []) (sep : Text) :
    joinWith sep ([] :: ps) = sep ++ joinWith sep ps := by
  rw [joinWith_cons h, List.nil_append]

/-- What is joined from the parts of a text is the text, without what is still to be passed over. -/
theorem joinWith_splitTopLevelFrom {sep : Text} (hsep : sep ≠ []) (skip depth : Nat)
    (q : QuoteState) (s : Text) :
    joinWith sep (splitTopLevelFrom sep skip depth q s) = s.drop skip := by
  fun_induction splitTopLevelFrom sep skip depth q s with
  | case1 skip depth q => exact List.drop_nil.symm
  | case2 skip depth q c r ih => exact ih
  | case6 depth c r _ _ _ _ hempty => exact absurd (List.isEmpty_iff.1 hempty) hsep
  | case7 depth c r _ _ _ hstart _ ih =>
    -- the separator that starts here is put back, and the rest of it was passed over
    obtain ⟨rest, hrest⟩ := startsWith_iff.1 hstart.2
    obtain ⟨x, sep, rfl⟩ := List.exists_cons_of_ne_nil hsep
    obtain ⟨rfl, hr⟩ : c = x ∧ r = sep ++ rest := List.cons.inj hrest
    rw [joinWith_nil_cons (splitTopLevelFrom_ne_nil _ _ _ _ _), ih, hr, List.length_cons,
      Nat.add_sub_cancel, List.drop_left]
    rfl
  | _ => rw [joinWith_consHead, ‹joinWith _ _ = _›]; rfl

/-! ## Outside quotes and brackets

Brackets are counted outside quotes only, so a quoted bracket is none. -/

/-- The characters of a text outside quotes, where a reader starts at `q`. -/
def outside : QuoteState → Text → Text
  | _, [] => []
  | q, c :: r =>
    if q = .plain ∧ q.step c = .plain then c :: outside (q.step c) r else outside (q.step c) r

/-- How many brackets are opened outside quotes. -/
def openings (q : QuoteState) (s : Text) : Nat := (outside q s).countP isOpening

/-- How many brackets are closed outside quotes. -/
def closings (q : QuoteState) (s : Text) : Nat := (outside q s).countP isClosing

/-- Neither a quote nor a bracket is open after the text. -/
def IsTopLevel (s : Text) : Prop :=
  quoteAfter .plain s = .plain ∧ openings .plain s = closings .plain s

instance (s : Text) : Decidable (IsTopLevel s) := inferInstanceAs (Decidable (_ ∧ _))

/-- A text that can be a part between separators. -/
structure IsPiece (sep s : Text) : Prop where
  /-- Its quotes are closed, and as many brackets are closed as were opened. -/
  closed : IsTopLevel s
  /-- No bracket is closed before it was opened. -/
  nested : ∀ u, u <+: s → closings .plain u ≤ openings .plain u
  /-- No separator occurs outside quotes and brackets. -/
  free : ∀ u v, s = u ++ sep ++ v → ¬ IsTopLevel u

theorem outside_cons (q : QuoteState) (c : Char) (r : Text) :
    outside q (c :: r) = outside q [c] ++ outside (q.step c) r := by
  rw [outside, outside, outside]
  split <;> rfl

theorem openings_cons (q : QuoteState) (c : Char) (r : Text) :
    openings q (c :: r) = openings q [c] + openings (q.step c) r := by
  rw [openings, outside_cons, List.countP_append, openings, openings]

theorem closings_cons (q : QuoteState) (c : Char) (r : Text) :
    closings q (c :: r) = closings q [c] + closings (q.step c) r := by
  rw [closings, outside_cons, List.countP_append, closings, closings]

/-- A bracket that opens does not close. -/
theorem isClosing_of_isOpening {c : Char} (h : isOpening c = true) : isClosing c = false := by
  simp only [isOpening, Bool.or_eq_true, decide_eq_true_eq] at h
  rcases h with (rfl | rfl) | rfl <;> decide

theorem levelStep_eq (depth : Nat) (q : QuoteState) (c : Char) :
    levelStep (depth, q) c = (depth + openings q [c] - closings q [c], q.step c) := by
  cases q with
  | plain =>
    rw [levelStep]
    by_cases hquote : c = '"'
    · rw [if_pos hquote, hquote]
      rfl
    · have hplain : QuoteState.step c .plain = .plain := if_neg hquote
      have hout : outside .plain [c] = [c] := by
        rw [outside, hplain, if_pos ⟨rfl, rfl⟩, outside]
      rw [if_neg hquote, hplain, openings, closings, hout, List.countP_singleton,
        List.countP_singleton]
      cases hopening : isOpening c with
      | true => simp [isClosing_of_isOpening hopening]
      | false => cases isClosing c <;> simp
  | quoted => rfl
  | escaped => rfl

/-- **Where a reader stands** after a text in which no bracket is closed too early. -/
theorem levelAfter_eq {depth : Nat} {q : QuoteState} {s : Text}
    (h : ∀ u, u <+: s → closings q u ≤ depth + openings q u) :
    levelAfter (depth, q) s = (depth + openings q s - closings q s, quoteAfter q s) := by
  induction s generalizing depth q with
  | nil => rfl
  | cons c s ih =>
    have hc := h [c] (List.cons_prefix_cons.2 ⟨rfl, List.nil_prefix⟩)
    have hrest : ∀ u, u <+: s →
        closings (q.step c) u ≤ depth + openings q [c] - closings q [c] + openings (q.step c) u := by
      intro u hu
      have hcu := h (c :: u) (List.cons_prefix_cons.2 ⟨rfl, hu⟩)
      rw [openings_cons, closings_cons] at hcu
      omega
    rw [levelAfter, List.foldl_cons, levelStep_eq, ← levelAfter, ih hrest, openings_cons q c s,
      closings_cons q c s]
    refine Prod.ext ?_ rfl
    show _ + _ - _ = _
    have hlast := hrest s (List.prefix_refl s)
    omega

/-! ## Pieces

That a text is a piece is about all its starts, of which there are finitely many, so it can be
decided. -/

/-- Whether a text is a piece is seen at its starts. -/
theorem isPiece_iff {sep s : Text} :
    IsPiece sep s ↔ IsTopLevel s ∧ (∀ u ∈ s.inits, closings .plain u ≤ openings .plain u) ∧
      ∀ u ∈ s.inits, startsWith sep (s.drop u.length) = true → ¬ IsTopLevel u := by
  simp only [List.mem_inits]
  constructor
  · rintro ⟨hclosed, hnested, hfree⟩
    refine ⟨hclosed, hnested, ?_⟩
    rintro u ⟨w, rfl⟩ hstart
    rw [List.drop_left] at hstart
    obtain ⟨v, rfl⟩ := startsWith_iff.1 hstart
    exact hfree u v (List.append_assoc u sep v).symm
  · rintro ⟨hclosed, hnested, hfree⟩
    refine ⟨hclosed, hnested, fun u v hs => ?_⟩
    rw [List.append_assoc] at hs
    exact hfree u ⟨sep ++ v, hs.symm⟩ (startsWith_iff.2 ⟨v, by rw [hs, List.drop_left]⟩)

instance (sep s : Text) : Decidable (IsPiece sep s) := decidable_of_iff _ isPiece_iff.symm

namespace IsPiece

variable {sep s : Text}

/-- A reader goes over a piece and comes out where it went in. -/
theorem isClosed (h : IsPiece sep s) : IsClosed s := by
  intro depth
  obtain ⟨hquotes, hbrackets⟩ := h.closed
  rw [levelAfter_eq fun u hu => Nat.le_trans (h.nested u hu) (Nat.le_add_left _ _), hquotes,
    hbrackets, Nat.add_sub_cancel]

/-- No separator that counts starts inside a piece. -/
theorem passes (h : IsPiece sep s) : Passes sep (0, .plain) s [] := by
  intro u v hs _ hlevel
  have hnested : ∀ w, w <+: u → closings .plain w ≤ 0 + openings .plain w := by
    intro w hw
    rw [Nat.zero_add]
    exact h.nested w (hw.trans ⟨v, hs.symm⟩)
  rw [levelAfter_eq hnested, Nat.zero_add, Prod.mk.injEq, Nat.sub_eq_zero_iff_le] at hlevel
  have htop : IsTopLevel u := ⟨hlevel.2, Nat.le_antisymm hlevel.1 (h.nested u ⟨v, hs.symm⟩)⟩
  refine Bool.eq_false_iff.2 fun hstart => ?_
  obtain ⟨r, hr⟩ := startsWith_iff.1 hstart
  rw [List.append_nil] at hr
  exact h.free u r (by rw [hs, hr, List.append_assoc]) htop

end IsPiece

/-- Pieces that are joined are found again. -/
theorem splitTopLevel_joinWith_of_isPiece {x : Char} {sep : Text} (hx : IsInert x) (hsep : x ∉ sep)
    {ps : List Text} (hne : ps ≠ []) (h : ∀ p ∈ ps, IsPiece (x :: sep) p) :
    splitTopLevel (x :: sep) (joinWith (x :: sep) ps) = ps := by
  obtain ⟨p, ps, rfl⟩ := List.exists_cons_of_ne_nil hne
  exact splitTopLevel_joinWith hx (fun v hv => (h v hv).isClosed)
    fun v hv => ⟨(h v hv).passes, (h v hv).passes.before_separator hsep⟩

/-- **Splitting at the top level is inverse to joining.**  Joining the parts of a text gives the text
back, for every separator that is not empty.  For a comma, and for a comma with the dot of the next
field, splitting what is joined from pieces gives the pieces. -/
theorem splitTopLevel_inverse :
    (∀ sep s : Text, sep ≠ [] → joinWith sep (splitTopLevel sep s) = s) ∧
    ∀ sep ∈ [",".toList, ", .".toList], ∀ ps : List Text, ps ≠ [] → (∀ p ∈ ps, IsPiece sep p) →
      splitTopLevel sep (joinWith sep ps) = ps := by
  refine ⟨fun sep s hsep => joinWith_splitTopLevelFrom hsep 0 0 .plain s, ?_⟩
  have hcomma : IsInert ',' := ⟨by decide, rfl, rfl⟩
  simp only [List.forall_mem_cons]
  exact ⟨fun ps => splitTopLevel_joinWith_of_isPiece hcomma (by decide),
    fun ps => splitTopLevel_joinWith_of_isPiece hcomma (by decide), by simp⟩

/-- Fields with commas in braces, and with an escaped quote and a separator in a string. -/
def samplePieces : List Text :=
  ["types = \x7b X, .Y \x7d".toList, "name = _(\"say \\\", .a)\")".toList, [], "x[1] = ,".toList]

theorem splitTopLevel_inverse_samplePieces :
    ", .".toList ≠ [] ∧ ", .".toList ∈ [",".toList, ", .".toList] ∧ samplePieces ≠ [] ∧
      (∀ p ∈ samplePieces, IsPiece ", .".toList p) ∧
      joinWith ", .".toList (splitTopLevel ", .".toList "), .a(, .b".toList) =
        "), .a(, .b".toList ∧
      splitTopLevel ", .".toList (joinWith ", .".toList samplePieces) = samplePieces := by
  have hsep : ", .".toList ≠ [] := by decide
  have hmem : ", .".toList ∈ [",".toList, ", .".toList] := by decide
  have hne : samplePieces ≠ [] := by decide
  have hpieces : ∀ p ∈ samplePieces, IsPiece ", .".toList p := by decide +kernel
  exact ⟨hsep, hmem, hne, hpieces, splitTopLevel_inverse.1 _ _ hsep,
    splitTopLevel_inverse.2 _ hmem _ hne hpieces⟩

end TableSync
