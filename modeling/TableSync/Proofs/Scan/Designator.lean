import TableSync.Proofs.Text.Split
import TableSync.Proofs.Text.Word
import TableSync.Scan.Line

/-!
# Designators on a line

A designator `.key = value` is found among the fields of a line when it stands first on the line or
after a comma and a blank outside quotes and brackets.  The program splits a line where fields are
separated and takes each piece apart; here it is the other way round: what a piece is like is said
of the line, by what stands before the designator.

* `IsAssignment` is what follows the dot, and `IsDesignatorAfter` says that a designator stands in a
  text after another one.
* `StartsField` says that a field starts where it stands, in terms of what stands before it: quotes
  and brackets are closed, and a comma and a blank come last.
* `IsAssignment.fieldOfPiece?` gives the field of a piece, and `IsAssignment.splitTopLevel` says
  that a text that starts with an assignment is split after it at the earliest, so that the piece
  has all of the key and the equals sign.
* `mem_splitFields` puts the two together: a designator where a field starts is a field of its line.

The value of the field is not said: another comma and blank may end it early, and what is lost then
is part of the value, and no designator.
-/

set_option autoImplicit false

namespace TableSync

/-! ## Keys -/

section Key

variable {key : Text}

theorem isAlphanumeric_blankPoints :
    ∀ n ∈ blankPoints, (isAlphanumeric (Char.ofNat n) || Char.ofNat n = '_') = false := by
  decide +kernel

/-- A character that no key is made of does not occur in one. -/
theorem notMem_of_isFieldKey (h : isFieldKey key = true) {x : Char}
    (hx : (isAlphanumeric x || x = '_') = false) : x ∉ key := by
  intro hmem
  rw [isFieldKey, Bool.and_eq_true] at h
  rw [List.all_eq_true.1 h.2 x hmem] at hx
  exact Bool.noConfusion hx

theorem isTrimmed_of_isFieldKey (h : isFieldKey key = true) : IsTrimmed key := by
  refine isTrimmed_of_forall fun c hc => ?_
  cases hb : isBlank c with
  | false => rfl
  | true =>
    have hn := isAlphanumeric_blankPoints _ (toNat_mem_blankPoints hb)
    rw [Char.ofNat_toNat] at hn
    exact absurd hc (notMem_of_isFieldKey h hn)

theorem ne_nil_of_isFieldKey (h : isFieldKey key = true) : key ≠ [] := by
  rintro rfl
  exact Bool.noConfusion h

end Key

/-! ## Designators -/

/-- What follows the dot of a designator: the key, blanks and the equals sign, and the value. -/
def IsAssignment (key : String) (s : Text) : Prop :=
  ∃ gap value, (∀ c ∈ gap, isBlank c = true) ∧ s = key.toList ++ gap ++ '=' :: value

/-- A designator stands in the text after `before`. -/
def IsDesignatorAfter (key : String) (before s : Text) : Prop :=
  isFieldKey key.toList = true ∧ ∃ rest, IsAssignment key rest ∧ s = before ++ '.' :: rest

/-- A field starts after the text: nothing stands before it, or a comma and a blank that are
outside quotes and brackets. -/
def StartsField (before : Text) : Prop :=
  before = [] ∨ ∃ b, before = b ++ [',', ' '] ∧ levelAfter (0, .plain) b = (0, .plain)

section Assignment

variable {key : String} {s : Text}

theorem IsAssignment.ne_nil (h : IsAssignment key s) : s ≠ [] := by
  obtain ⟨gap, value, -, rfl⟩ := h
  simp

/-- The comma at the end of a line belongs to the value of the last field. -/
theorem IsAssignment.dropComma (h : IsAssignment key s) :
    IsAssignment key ((dropEnd? [','] s).getD s) := by
  cases hd : dropEnd? [','] s with
  | none => exact h
  | some t =>
    obtain ⟨gap, value, hgap, rfl⟩ := h
    have hend := dropEnd?_eq_some_iff.1 hd
    rcases List.eq_nil_or_concat value with rfl | ⟨v, c, rfl⟩
    · exact absurd (List.append_inj_right' hend rfl) (by decide)
    · refine ⟨gap, v, hgap, ?_⟩
      rw [List.concat_eq_append, ← List.cons_append, ← List.append_assoc] at hend
      exact (List.append_inj_left' hend rfl).symm

/-- A piece of a line that is an assignment gives its field. -/
theorem IsAssignment.fieldOfPiece? (hkey : isFieldKey key.toList = true) (h : IsAssignment key s) :
    ∃ value, TableSync.fieldOfPiece? s = some (key, value) := by
  obtain ⟨gap, value, hgap, rfl⟩ := h
  have hequals : '=' ∉ key.toList ++ gap := by
    refine List.not_mem_append (notMem_of_isFieldKey hkey (by decide)) fun hmem => ?_
    exact absurd (hgap '=' hmem) (by decide)
  have htrim : trim (key.toList ++ gap) = key.toList :=
    trim_between (b := []) (by simp) hgap (ne_nil_of_isFieldKey hkey) (isTrimmed_of_isFieldKey hkey)
  have hdots : key.toList.dropWhile (· = '.') = key.toList := by
    cases hk : key.toList with
    | nil => rfl
    | cons c k =>
      have hc : c ≠ '.' := by
        rintro rfl
        exact notMem_of_isFieldKey hkey (by decide) (hk ▸ List.mem_cons_self)
      rw [List.dropWhile_cons, if_neg (by simpa using hc)]
  refine ⟨trim value, ?_⟩
  rw [TableSync.fieldOfPiece?, cut?_of_notMem hequals]
  simp only [htrim, hdots, hkey, if_true, String.ofList_toList]

/-- A text that starts with an assignment is split after it at the earliest. -/
theorem IsAssignment.splitTopLevel (hkey : isFieldKey key.toList = true) (h : IsAssignment key s) :
    ∃ p ps, splitTopLevel ", .".toList s = p :: ps ∧ IsAssignment key p := by
  obtain ⟨gap, value, hgap, rfl⟩ := h
  have hcomma : ',' ∉ key.toList ++ gap ++ ['='] := by
    refine List.not_mem_append (List.not_mem_append (notMem_of_isFieldKey hkey (by decide)) ?_)
      (by decide)
    exact fun hmem => absurd (hgap ',' hmem) (by decide)
  have hpass : Passes ", .".toList (0, .plain) (key.toList ++ gap ++ ['=']) value :=
    passes_of_notMem hcomma _ _
  obtain ⟨p, ps, hsplit⟩ := exists_splitTopLevel_append hpass
  refine ⟨key.toList ++ gap ++ ['='] ++ p, ps, ?_, gap, p, hgap, ?_⟩
  · rw [← hsplit, List.append_assoc, List.append_assoc, List.append_assoc]
    rfl
  · rw [List.append_assoc]
    rfl

end Assignment

/-! ## The fields of a line -/

section Line

variable {key : String} {before line : Text}

/-- The dot at the start of a line does not count as text before a designator. -/
theorem dropDot_eq (hb : StartsField before) (rest : Text) :
    ∃ u, (dropStart? ['.'] (before ++ '.' :: rest)).getD (before ++ '.' :: rest) = u ++ rest ∧
      (u = [] ∨ ∃ b, u = b ++ ", .".toList ∧ levelAfter (0, .plain) b = (0, .plain)) := by
  rcases hb with rfl | ⟨b, rfl, hlevel⟩
  · exact ⟨[], rfl, .inl rfl⟩
  · have hshape : b ++ [',', ' '] ++ '.' :: rest = b ++ ", .".toList ++ rest := by
      simp
    rw [hshape]
    cases hd : dropStart? ['.'] (b ++ ", .".toList ++ rest) with
    | none => exact ⟨b ++ ", .".toList, rfl, .inr ⟨b, rfl, hlevel⟩⟩
    | some r =>
      have hr := dropStart?_eq_some_iff.1 hd
      cases b with
      | nil => exact absurd (List.cons.inj hr).1 (by decide)
      | cons c b =>
        obtain ⟨rfl, htail⟩ := List.cons.inj hr
        have hrest : b ++ ", .".toList ++ rest = r := htail
        exact ⟨b ++ ", .".toList, hrest.symm, .inr ⟨b, rfl, hlevel⟩⟩

theorem dropEnd?_append_getD {x : Char} {s : Text} (u : Text) (hs : s ≠ []) :
    (dropEnd? [x] (u ++ s)).getD (u ++ s) = u ++ (dropEnd? [x] s).getD s := by
  obtain ⟨t, c, rfl⟩ := (List.eq_nil_or_concat s).resolve_left hs
  by_cases hc : c = x
  · subst hc
    have hshort : dropEnd? [c] (t.concat c) = some t :=
      dropEnd?_eq_some_iff.2 (List.concat_eq_append ..)
    have hlong : dropEnd? [c] (u ++ t.concat c) = some (u ++ t) :=
      dropEnd?_eq_some_iff.2 (by simp)
    rw [hshort, hlong]
    rfl
  · have hnone : ∀ v : Text, dropEnd? [x] (v ++ [c]) = none := by
      intro v
      cases hd : dropEnd? [x] (v ++ [c]) with
      | none => rfl
      | some r =>
        have hr := List.append_inj_right' (dropEnd?_eq_some_iff.1 hd) rfl
        exact absurd (List.cons.inj hr).1 hc
    rw [List.concat_eq_append, ← List.append_assoc, hnone, hnone, Option.getD_none, Option.getD_none,
      List.append_assoc]

/-- **A designator where a field starts is a field of its line.** -/
theorem mem_splitFields (h : IsDesignatorAfter key before (trim line)) (hb : StartsField before) :
    key ∈ (splitFields line).map Prod.fst := by
  obtain ⟨hkey, rest, hrest, hline⟩ := h
  obtain ⟨u, hdot, hu⟩ := dropDot_eq hb rest
  have hcut : splitFields line =
      (splitTopLevel ", .".toList (u ++ (dropEnd? [','] rest).getD rest)).filterMap fieldOfPiece? := by
    simp only [splitFields, hline, hdot, dropEnd?_append_getD u hrest.ne_nil]
  obtain ⟨p, ps, hsplit, hp⟩ := hrest.dropComma.splitTopLevel hkey
  obtain ⟨value, hfield⟩ := hp.fieldOfPiece? hkey
  have hpiece : p ∈ splitTopLevel ", .".toList (u ++ (dropEnd? [','] rest).getD rest) := by
    rcases hu with rfl | ⟨b, rfl, hlevel⟩
    · rw [List.nil_append, hsplit]
      exact List.mem_cons_self
    · have hinert : ∀ c ∈ ", .".toList, IsInert c := isInert_of_notMem (by decide)
      have htwo := splitTopLevelFrom_append_separator hinert (by decide) hlevel
        ((dropEnd? [','] rest).getD rest)
      rw [List.append_assoc]
      refine (congrArg (p ∈ ·) htwo).mpr (List.mem_append_right _ ?_)
      exact (congrArg (p ∈ ·) hsplit).mpr List.mem_cons_self
  rw [hcut]
  exact List.mem_map.2 ⟨(key, value), List.mem_filterMap.2 ⟨p, hpiece, hfield⟩, rfl⟩

end Line

end TableSync
