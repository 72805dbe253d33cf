import Mathlib.Data.List.Basic
import TableSync.Emit.Value
import TableSync.Field.Parsers
import TableSync.Proofs.Expr.Literal
import TableSync.Proofs.Text.Quote

/-!
# The parsers of fields read what is written

For each special kind of field, its parser reads what is written for a value of that kind.  What is
asked of the parts is what the marks between them need: a part may hold none of them that counts,
and no blanks at its ends, as these are trimmed off.

* `Value.IsBare.value_eq` says what is written for bare tokens.
* `braceList?_braceList` for lists in braces, and `flags?_joinWith` for unions of flags.
* `coordsSize?_sizesText` for the sizes of a picture, which are two texts in parentheses.
* `evolutions?_evolutionsText` for lists of evolutions, of which the groups in braces are found
  first (`braceGroups_joinWith`) and then each is taken apart at its commas (`map_trim_splitOn`).
* `localized?_localized` and `description?_escape` for texts.

The lemmas are about the texts of the parts, and not about values, so that they serve for scalars,
for conditionals and for the lists that a table has in one field.  What the parts of a value are is
said where the fields of species are.
-/

set_option autoImplicit false

namespace TableSync

/-! ## Bare tokens -/

/-- An integer or a text is written as it stands. -/
theorem Value.IsBare.value_eq {v : Value} (h : v.IsBare) (entity field : String)
    (constants : ConstantTable) : Emit.value entity field constants v = .ok v.branchText := by
  cases v with
  | int n => rfl
  | str s => rfl
  | _ => exact h.elim

theorem items_bare {items : List Value} (h : ∀ v ∈ items, v.IsBare) (entity field : String)
    (constants : ConstantTable) :
    Emit.items entity field constants items = .ok (items.map Value.branchText) := by
  induction items with
  | nil => rfl
  | cons v vs ih =>
    rw [Emit.items, (h v List.mem_cons_self).value_eq entity field constants,
      ih fun w hw => h w (List.mem_cons_of_mem v hw)]
    rfl

/-! ## Parts and their separators

Parts are joined by a mark and a blank, and are split at the mark and trimmed.  Both together leave
a part as it was if it is trimmed and has not got the mark. -/

/-- A comma and a blank between parts is a comma, with the blank at the start of the next part. -/
theorem joinWith_comma_blank (w : Text) (ws : List Text) :
    joinWith [',', ' '] (w :: ws) = joinWith [','] (w :: ws.map (' ' :: ·)) := by
  induction ws generalizing w with
  | nil => rfl
  | cons v ws ih =>
    have hrest : joinWith [','] ((' ' :: v) :: ws.map (' ' :: ·)) =
        ' ' :: joinWith [','] (v :: ws.map (' ' :: ·)) := by
      cases ws <;> rfl
    rw [List.map_cons, joinWith_cons_cons, joinWith_cons_cons, hrest, ih]
    simp

/-- Trimming takes the blanks off that follow the commas. -/
theorem map_trim_blank {w : Text} {ws : List Text} (h : ∀ v ∈ w :: ws, IsTrimmed v) :
    (w :: ws.map (' ' :: ·)).map trim = w :: ws := by
  have hblank : ∀ v ∈ ws, trim (' ' :: v) = v := by
    intro v hv
    have htrim := trim_blanks_append (b := [' ']) (s := v) (by simp [isBlank])
    rw [trim_eq_self (h v (List.mem_cons_of_mem w hv))] at htrim
    exact htrim
  rw [List.map_cons, List.map_map, trim_eq_self (h w List.mem_cons_self)]
  refine congrArg (w :: ·) ?_
  exact (List.map_congr_left hblank).trans (List.map_id ws)

theorem joinWith_cons_ne_nil {sep w : Text} {ws : List Text} (h : w ≠ []) :
    joinWith sep (w :: ws) ≠ [] := by
  cases ws with
  | nil => exact h
  | cons v ws =>
    rw [joinWith_cons_cons, List.append_assoc]
    exact List.append_ne_nil_of_left_ne_nil h _

/-- Trimmed parts are trimmed when joined. -/
theorem isTrimmed_joinWith {sep w : Text} {ws : List Text} (htrim : ∀ v ∈ w :: ws, IsTrimmed v)
    (hne : ∀ v ∈ w :: ws, v ≠ []) : IsTrimmed (joinWith sep (w :: ws)) := by
  induction ws generalizing w with
  | nil => exact htrim w List.mem_cons_self
  | cons v ws ih =>
    have hrest := ih (fun u hu => htrim u (List.mem_cons_of_mem w hu))
      fun u hu => hne u (List.mem_cons_of_mem w hu)
    rw [joinWith_cons_cons, List.append_assoc]
    exact isTrimmed_append (htrim w List.mem_cons_self) (hne w List.mem_cons_self) hrest
      (joinWith_cons_ne_nil (hne v (by simp))) sep

/-- A character that is in no part and not in the separator is not in what is joined. -/
theorem notMem_joinWith {sep : Text} {ws : List Text} {x : Char} (hsep : x ∉ sep)
    (h : ∀ w ∈ ws, x ∉ w) : x ∉ joinWith sep ws := by
  induction ws with
  | nil => exact List.not_mem_nil
  | cons w ws ih =>
    have hw : x ∉ w := h w List.mem_cons_self
    have hrest : x ∉ joinWith sep ws := ih fun v hv => h v (List.mem_cons_of_mem w hv)
    cases ws with
    | nil => exact hw
    | cons v ws =>
      rw [joinWith_cons_cons]
      exact List.not_mem_append (List.not_mem_append hw hsep) hrest

/-! ## Lists in braces -/

/-- What is in braces is what stands between the first and the last character. -/
theorem dropEnd?_append (s p : Text) : dropEnd? p (s ++ p) = some s :=
  dropEnd?_eq_some_iff.2 rfl

theorem isTrimmed_braces {s : Text} : IsTrimmed ('{' :: (s ++ ['}'])) := by
  have hmark : ∀ c : Char, isBlank c = false → IsTrimmed [c] := fun c hc =>
    isTrimmed_of_forall (by simpa using hc)
  exact isTrimmed_append (hmark '{' rfl) (by simp) (hmark '}' rfl) (by simp) s

/-- **A list in braces is read as its items**, if no comma counts inside one. -/
theorem braceList?_braceList {items : List Text} (htrim : ∀ t ∈ items, IsTrimmed t)
    (hne : ∀ t ∈ items, t ≠ []) (hclosed : ∀ t ∈ items, IsClosed t)
    (hpass : ∀ t ∈ items, ∀ r, Passes [','] (0, .plain) t r) :
    braceList? (Emit.braceList items) = some (.list (items.map Value.scalar)) := by
  cases items with
  | nil => decide
  | cons w ws =>
    have hshape : Emit.braceList (w :: ws) =
        '{' :: ([' '] ++ (joinWith [',', ' '] (w :: ws) ++ [' ']) ++ ['}']) := by
      simp [Emit.braceList]
    have hinner : trim ([' '] ++ (joinWith [',', ' '] (w :: ws) ++ [' '])) =
        joinWith [',', ' '] (w :: ws) :=
      trim_between (by simp [isBlank]) (by simp [isBlank])
        (joinWith_cons_ne_nil (hne w List.mem_cons_self)) (isTrimmed_joinWith htrim hne)
    have hblank : IsClosed [' '] := fun depth => rfl
    -- The blank behind each comma belongs to the next item and is trimmed away with it.
    have hparts : splitTopLevel [','] (joinWith [',', ' '] (w :: ws)) =
        w :: ws.map (' ' :: ·) := by
      rw [joinWith_comma_blank]
      refine splitTopLevel_joinWith ⟨by decide, rfl, rfl⟩ ?_ ?_
      · intro v hv
        rcases List.mem_cons.1 hv with rfl | hv
        · exact hclosed v List.mem_cons_self
        · obtain ⟨u, hu, rfl⟩ := List.mem_map.1 hv
          exact hblank.append (hclosed u (List.mem_cons_of_mem w hu))
      · have hall : ∀ v ∈ w :: ws.map (' ' :: ·), ∀ r, Passes [','] (0, .plain) v r := by
          intro v hv r
          rcases List.mem_cons.1 hv with rfl | hv
          · exact hpass v List.mem_cons_self r
          · obtain ⟨u, hu, rfl⟩ := List.mem_map.1 hv
            exact Passes.append (s := [' ']) (passes_of_notMem (by decide) _ _)
              (hpass u (List.mem_cons_of_mem w hu) r)
        exact fun v hv => ⟨hall v hv [], fun r => hall v hv _⟩
    have hfilter : (w :: ws).filter (!·.isEmpty) = w :: ws :=
      List.filter_eq_self.2 fun t ht => by simpa using hne t ht
    rw [hshape, braceList?, trim_eq_self isTrimmed_braces]
    simp only [dropStart?, if_true, Option.bind_eq_bind, Option.bind_some, dropEnd?_append, hinner,
      hparts, map_trim_blank htrim, hfilter]
    rfl

/-! ## Flags -/

/-- **A union of names is read as the names.** -/
theorem flags?_joinWith {w : Text} {ws : List Text} (h : ∀ v ∈ w :: ws, IsName v) :
    flags? (joinWith " | ".toList (w :: ws)) = some (.list ((w :: ws).map Value.scalar)) := by
  have htrim : IsTrimmed (joinWith " | ".toList (w :: ws)) :=
    isTrimmed_joinWith (fun v hv => (h v hv).1.isTrimmed) fun v hv => (h v hv).1.1
  have hzero : joinWith " | ".toList (w :: ws) ≠ ['0'] := by
    cases ws with
    | nil =>
      rintro rfl
      exact absurd (h ['0'] List.mem_cons_self).2 (by decide)
    | cons v ws =>
      intro heq
      have hmem : '|' ∈ joinWith " | ".toList (w :: v :: ws) := by
        rw [joinWith_cons_cons]
        simp
      rw [heq] at hmem
      exact absurd hmem (by decide)
  have hsplit : splitOn " | ".toList (joinWith " | ".toList (w :: ws)) = w :: ws :=
    splitOn_joinWith fun v hv => (h v hv).1.isToken.notMem (by decide) (by decide)
  rw [flags?, trim_eq_self htrim, if_neg hzero, hsplit]

/-! ## Sizes -/

/-- What opens the sizes of a picture. -/
def sizesOpener : Text := "MON_COORDS_SIZE(".toList

/-- The sizes of a picture as they are written. -/
def sizesText (w h : Text) : Text := sizesOpener ++ w ++ [',', ' '] ++ h ++ [')']

theorem isTrimmed_sizesText (w h : Text) : IsTrimmed (sizesText w h) := by
  have hshape : sizesText w h =
      sizesOpener ++ ((w ++ [',', ' '] ++ h) ++ [')']) := by simp [sizesText]
  rw [hshape]
  exact isTrimmed_append (isTrimmed_of_forall (by decide)) (by decide)
    (isTrimmed_of_forall (by decide)) (by simp) _

/-- **The two sizes of a picture are read from their tokens.** -/
theorem coordsSize?_sizesText {w h : Text} (hw : IsToken w) (hh : IsToken h) :
    coordsSize? (sizesText w h) = some (.list [Value.scalar w, Value.scalar h]) := by
  have hstart : dropStart? "MON_COORDS_SIZE(".toList (sizesText w h) =
      some (w ++ ',' :: ((' ' :: h) ++ [')'])) := by
    have hshape : sizesText w h = sizesOpener ++ (w ++ ',' :: ((' ' :: h) ++ [')'])) := by
      simp [sizesText]
    rw [hshape]
    exact dropStart?_append sizesOpener _
  have hcut : cut? [','] (w ++ ',' :: ((' ' :: h) ++ [')'])) = some (w, (' ' :: h) ++ [')']) :=
    cut?_of_notMem (hw.notMem (by decide) (by decide))
  have hblank : Value.scalar (' ' :: h) = Value.scalar h := by
    have htrim := trim_blanks_append (b := [' ']) (s := h) (by simp [isBlank])
    rw [Value.scalar, Value.scalar, ← htrim]
    rfl
  have hguard : (!w.isEmpty && !(' ' :: h).isEmpty && !(' ' :: h).contains ')') = true := by
    have hparen : ')' ∉ h := hh.notMem (by decide) (by decide)
    have hempty : w.isEmpty = false := by simpa using hw.1
    simp [hempty, hparen]
  rw [coordsSize?, trim_eq_self (isTrimmed_sizesText w h), hstart]
  unfold guard
  simp only [Option.bind_eq_bind, Option.bind_some, hcut, dropEnd?_append, hguard, if_true, hblank]
  rfl

/-! ## Evolutions

Groups in braces follow each other inside parentheses.  The reader looks for the braces and for
nothing else, so what stands between the groups makes no difference as long as it has none. -/

/-- The groups in braces are found where only text without braces stands between them. -/
theorem braceGroupsFrom_append {s : Text} (h : '{' ∉ s) (r : Text) :
    braceGroupsFrom none (s ++ r) = braceGroupsFrom none r := by
  induction s with
  | nil => rfl
  | cons c s ih =>
    rw [List.mem_cons, not_or] at h
    rw [List.cons_append, braceGroupsFrom, if_neg (Ne.symm h.1)]
    exact ih h.2

/-- A group reaches to its closing brace. -/
theorem braceGroupsFrom_group {g : Text} (hopen : '{' ∉ g) (hclose : '}' ∉ g) (r : Text) :
    braceGroupsFrom none ('{' :: (g ++ '}' :: r)) = g :: braceGroupsFrom none r := by
  have hinside : ∀ read, braceGroupsFrom (some read) (g ++ '}' :: r) =
      (read.reverse ++ g) :: braceGroupsFrom none r := by
    induction g with
    | nil =>
      intro read
      rw [List.nil_append, braceGroupsFrom, if_neg (by decide), List.append_nil]
      rfl
    | cons c g ih =>
      intro read
      rw [List.mem_cons, not_or] at hopen hclose
      rw [List.cons_append, braceGroupsFrom, if_neg (Ne.symm hopen.1)]
      simp only [if_neg (Ne.symm hclose.1)]
      rw [ih hopen.2 hclose.2, List.reverse_cons, List.append_assoc]
      rfl
  rw [braceGroupsFrom, if_pos rfl, hinside, List.reverse_nil, List.nil_append]

theorem braceGroupsFrom_nil {r : Text} (h : '{' ∉ r) : braceGroupsFrom none r = [] := by
  have hr := braceGroupsFrom_append h []
  rw [List.append_nil] at hr
  exact hr

/-- A group as it stands in a list of evolutions. -/
def braced (parts : List Text) : Text := '{' :: (joinWith [',', ' '] parts ++ ['}'])

/-- Groups that are joined are found again. -/
theorem braceGroups_joinWith {groups : List (List Text)}
    (hopen : ∀ g ∈ groups, '{' ∉ joinWith [',', ' '] g)
    (hclose : ∀ g ∈ groups, '}' ∉ joinWith [',', ' '] g) {r : Text} (hr : '{' ∉ r) :
    braceGroupsFrom none (joinWith [',', ' '] (groups.map braced) ++ r) =
      groups.map (joinWith [',', ' ']) := by
  induction groups with
  | nil => exact braceGroupsFrom_nil hr
  | cons g groups ih =>
    have hfirst : ∀ s, braceGroupsFrom none (braced g ++ s) =
        joinWith [',', ' '] g :: braceGroupsFrom none s := by
      intro s
      rw [braced, List.cons_append, List.append_assoc]
      exact braceGroupsFrom_group (hopen g List.mem_cons_self) (hclose g List.mem_cons_self) s
    have hrest := ih (fun h hh => hopen h (List.mem_cons_of_mem g hh))
      fun h hh => hclose h (List.mem_cons_of_mem g hh)
    cases groups with
    | nil =>
      rw [List.map_cons, List.map_nil, joinWith, hfirst, braceGroupsFrom_nil hr]
      rfl
    | cons h groups =>
      rw [List.map_cons, List.map_cons, joinWith_cons_cons, List.append_assoc, List.append_assoc,
        hfirst, braceGroupsFrom_append (s := [',', ' ']) (by decide), ← List.map_cons, hrest]
      rfl

/-- A part of an evolution: a trimmed text without commas and braces. -/
structure IsPart (t : Text) : Prop where
  /-- No blanks stand around it. -/
  trimmed : IsTrimmed t
  /-- It has no comma, at which the parts of a group are split. -/
  comma : ',' ∉ t
  /-- It opens no group. -/
  opening : '{' ∉ t
  /-- It ends no group. -/
  closing : '}' ∉ t

theorem isPart_iff {t : Text} : IsPart t ↔ IsTrimmed t ∧ ∀ x ∈ [',', '{', '}'], x ∉ t := by
  simp only [List.forall_mem_cons]
  exact ⟨fun h => ⟨h.trimmed, h.comma, h.opening, h.closing, by simp⟩,
    fun h => ⟨h.1, h.2.1, h.2.2.1, h.2.2.2.1⟩⟩

instance (t : Text) : Decidable (IsPart t) := decidable_of_iff _ isPart_iff.symm

theorem IsToken.isPart {t : Text} (h : IsToken t) : IsPart t where
  trimmed := h.isTrimmed
  comma := h.notMem (by decide) (by decide)
  opening := h.notMem (by decide) (by decide)
  closing := h.notMem (by decide) (by decide)

/-- The parts of a group are found again. -/
theorem map_trim_splitOn {parts : List Text} (hne : parts ≠ []) (h : ∀ t ∈ parts, IsPart t) :
    (splitOn [','] (joinWith [',', ' '] parts)).map trim = parts := by
  cases parts with
  | nil => exact absurd rfl hne
  | cons w ws =>
    rw [joinWith_comma_blank, splitOn_joinWith, map_trim_blank fun v hv => (h v hv).trimmed]
    intro v hv
    rcases List.mem_cons.1 hv with rfl | hv
    · exact (h v List.mem_cons_self).comma
    · obtain ⟨u, hu, rfl⟩ := List.mem_map.1 hv
      simpa using (h u (List.mem_cons_of_mem w hu)).comma

/-- What opens a list of evolutions. -/
def evolutionsOpener : Text := "EVOLUTION(".toList

/-- A list of evolutions as it is written. -/
def evolutionsText (groups : List (List Text)) : Text :=
  evolutionsOpener ++ (joinWith [',', ' '] (groups.map braced) ++ [')'])

theorem isTrimmed_evolutionsText (groups : List (List Text)) : IsTrimmed (evolutionsText groups) :=
  isTrimmed_append (isTrimmed_of_forall (by decide)) (by decide)
    (isTrimmed_of_forall (by decide)) (by simp) _

/-- **Evolutions are read group by group.** -/
theorem evolutions?_evolutionsText {groups : List (List Text)} (hne : ∀ g ∈ groups, g ≠ [])
    (h : ∀ g ∈ groups, ∀ t ∈ g, IsPart t) :
    evolutions? (evolutionsText groups) =
      some (.list (groups.filterMap fun g => (evolutionOfParts? g).map .record)) := by
  have hstart : startsWith "EVOLUTION(".toList (evolutionsText groups) = true :=
    startsWith_iff.2 ⟨_, rfl⟩
  have hgroups : braceGroups (evolutionsText groups) = groups.map (joinWith [',', ' ']) := by
    rw [braceGroups, evolutionsText, braceGroupsFrom_append (by decide)]
    exact braceGroups_joinWith
      (fun g hg => notMem_joinWith (by decide) fun t ht => (h g hg t ht).opening)
      (fun g hg => notMem_joinWith (by decide) fun t ht => (h g hg t ht).closing) (by decide)
  rw [evolutions?, trim_eq_self (isTrimmed_evolutionsText groups), hstart, hgroups,
    List.filterMap_map]
  refine congrArg (fun es => some (Value.list es)) (List.filterMap_congr fun g hg => ?_)
  rw [Function.comp_apply, map_trim_splitOn (hne g hg) (h g hg)]

/-! ## Texts -/

/-- **A localized string is read as its text.** -/
theorem localized?_localized (t : Text) : localized? (Emit.localized t) = some (.ofText t) := by
  have hshape : Emit.localized t = "_(".toList ++ (('"' :: (escape t ++ ['"'])) ++ [')']) := by
    simp [Emit.localized]
  have hmark : ∀ c : Char, isBlank c = false → IsTrimmed [c] := fun c hc =>
    isTrimmed_of_forall (by simpa using hc)
  have htrim : IsTrimmed (Emit.localized t) := by
    rw [hshape]
    exact isTrimmed_append (isTrimmed_of_forall (by decide)) (by decide) (hmark ')' rfl) (by simp) _
  have hquote : trimStart ('"' :: (escape t ++ ['"']) ++ [')']) =
      '"' :: ((escape t ++ ['"']) ++ [')']) :=
    trimStart_eq_self (by simp [isBlank])
  have hend : trimEnd (escape t ++ ['"']) = escape t ++ ['"'] :=
    trimEnd_eq_self (by simp [isBlank])
  have hline : ((escape t).contains '\n') = false := by
    simpa using newline_notMem_escape t
  rw [localized?, trim_eq_self htrim, hshape]
  unfold guard
  simp only [dropStart?_append, Option.bind_eq_bind, Option.bind_some, hquote, dropStart?, if_true,
    dropEnd?_append, hend, hline, unescape_escape]
  rfl

/-- **Bare escaped text is read as the text**, if nothing of it looks like what wraps a text. -/
theorem description?_escape {t : Text} (htrim : IsTrimmed (escape t))
    (hwrap : unwrapLiteral (escape t) = escape t) :
    description? (escape t) = some (.ofText t) := by
  have hquote : startsWith ['"'] (escape t) = false := by
    cases hs : escape t with
    | nil => rfl
    | cons c s =>
      refine startsWith_cons_eq_false ?_
      rintro rfl
      exact head?_escape_ne t (by rw [hs]; rfl)
  simp only [description?, trim_eq_self htrim, hwrap, hquote, Bool.false_eq_true, if_false, unescape_escape]

theorem genderRatio?_ne_nil (raw : Text) : genderRatio? raw ≠ some (.list []) := by
  rw [genderRatio?]
  split
  · simp
  · split
    · simp
    · split
      · simp
      · cases percentRatio? (trim raw) <;> simp

theorem friendship?_ne_nil (raw : Text) : friendship? raw ≠ some (.list []) := by
  rw [friendship?]
  split <;> simp

end TableSync
