import TableSync.Proofs.Expr.Cut

/-!
# Which branches are read from a literal

The branches of a literal are trimmed texts with ` : ` between them.  They are read as they were
written if no colon ends the first of them before its end, which `EndsAtColon` says.  A colon at the
very start of a branch ends nothing, since a branch is not empty where one could be longer; so an
empty first branch is the one that a colon in the second can make longer.

* `secondBranch_text` reads a trimmed text on one line as the second branch, up to the end of the
  literal or the parenthesis before an amount.  Nothing may close in it behind its first character.
* `branchesFrom_eq_none`, `exists_branchesFrom` and `branches_isSome` say where some branches are
  read, whichever they are: it takes a colon that a second branch follows, and the first branch ends
  there at the latest.
* `isShortest_of_afterColon` turns the condition on colons into the form in which a branch is found:
  its end is the first place where the rest can follow it.
* `branches_text` reads the branches as they were written, if `EndsAtColon` holds of them.
* `length_lt_of_branches` and `mem_of_branches` are the two ways in which it can fail, and
  `trim_ne_of_branches` says that another first branch is read then.  So the condition is exact.
-/

set_option autoImplicit false

namespace TableSync

/-! ## Where a branch ends -/

theorem length_trim_le (s : Text) : (trim s).length ≤ s.length := by
  obtain ⟨g, b, -, -, hs⟩ := exists_blanks_trim s
  have h := congrArg List.length hs
  rw [List.length_append, List.length_append] at h
  omega

/-- The first character that is not blank, in a text that ends with such a one. -/
theorem exists_trimStart_append {v : Text} (hv : v ≠ [])
    (hlast : ∀ c ∈ v.getLast?, isBlank c = false) (r : Text) :
    ∃ c w, c ∈ v ∧ trimStart (v ++ r) = c :: w := by
  obtain ⟨g, u, rfl, hg, hu⟩ := exists_run isBlank v
  cases u with
  | nil =>
    rw [List.append_nil] at hv hlast
    have hb := hlast (g.getLast hv) (List.getLast?_eq_some_getLast hv)
    rw [hg _ (List.getLast_mem hv)] at hb
    exact Bool.noConfusion hb
  | cons c u =>
    refine ⟨c, u ++ r, by simp, ?_⟩
    rw [List.append_assoc, trimStart_blanks_append hg]
    exact trimStart_eq_self hu

theorem getLast?_of_append {u v w : Text} (h : w = u ++ v) (hv : v ≠ []) :
    v.getLast? = w.getLast? := by
  rw [h, List.getLast?_append, List.getLast?_eq_some_getLast hv]
  rfl

theorem mem_drop_of_append {x : Char} {u v w : Text} (h : w = u ++ v) (hu : u ≠ []) (hx : x ∈ v) :
    x ∈ w.drop 1 := by
  cases u with
  | nil => exact absurd rfl hu
  | cons c u =>
    rw [h]
    exact List.mem_append_right u hx

theorem trimStart_space (s : Text) : trimStart (' ' :: s) = trimStart s :=
  trimStart_blanks_append (b := [' ']) (by simp [isBlank])

/-- A trimmed text on one line is read as the second branch if it closes nothing behind its first
character. -/
theorem secondBranch_text {y tail : Text} (hy : IsTrimmed y) (hline : '\n' ∉ y)
    (hopen : ')' ∉ y.drop 1) (htail : tail = [] ∨ tail = [')']) (hne : y = [] → tail = []) :
    secondBranch (' ' :: (y ++ tail)) = some y := by
  have hclose : closes tail = true := by
    rcases htail with rfl | rfl <;> rfl
  cases y with
  | nil =>
    rw [hne rfl]
    rfl
  | cons c y =>
    have hhead : trimStart (' ' :: ((c :: y) ++ tail)) = (c :: y) ++ tail := by
      rw [trimStart_space]
      exact trimStart_eq_self hy.1
    have hshort : IsShortest (fun s => closes s = true) tail (c :: y) := by
      refine .of_forall (by simp) hline hclose fun u v huv hu hv => ?_
      obtain ⟨d, w, hd, hstart⟩ :=
        exists_trimStart_append hv (getLast?_of_append huv hv ▸ hy.2) tail
      have hne : d ≠ ')' := by
        rintro rfl
        exact hopen (mem_drop_of_append huv hu hd)
      rw [closes, hstart]
      simpa using hne
    rw [secondBranch, hhead, untilClose_eq_some_iff.2 ⟨tail, rfl, hshort⟩]

theorem secondBranch_isSome {s : Text} {c : Char} (hc : c ∈ s) (hb : isBlank c = false)
    (hline : '\n' ∉ s) : (secondBranch s).isSome = true := by
  obtain ⟨g, hg, hs⟩ := exists_blanks_trimStart s
  have hmem : c ∈ trimStart s :=
    (List.mem_append.1 (hs ▸ hc)).resolve_left (notMem_of_blanks hg hb)
  have hline' : '\n' ∉ trimStart s := fun h => hline (hs ▸ List.mem_append_right g h)
  obtain ⟨w, hw⟩ := Option.isSome_iff_exists.1
    (untilClose_isSome (List.ne_nil_of_mem hmem) hline')
  rw [secondBranch, hw]
  rfl

/-! ## Which branches are read -/

theorem mem_dropLast_iff {c : Char} {s : Text} :
    c ∈ s.dropLast ↔ ∃ u w d, s = u ++ c :: (w ++ [d]) := by
  constructor
  · intro h
    rcases List.eq_nil_or_concat s with rfl | ⟨s', d, rfl⟩
    · exact absurd h (by simp)
    · rw [List.concat_eq_append, List.dropLast_concat] at h
      obtain ⟨u, w, rfl⟩ := List.append_of_mem h
      exact ⟨u, w, d, by simp⟩
  · rintro ⟨u, w, d, rfl⟩
    rw [← List.cons_append, ← List.append_assoc, List.dropLast_concat]
    simp

/-- Without a colon that a second branch follows there are no branches. -/
theorem branchesFrom_eq_none {s : Text}
    (h : ∀ u w, s = u ++ ':' :: w → u ≠ [] → secondBranch w = none) : branchesFrom s = none := by
  induction s with
  | nil => rfl
  | cons c s ih =>
    have hcolon : afterColon s = none := by
      cases hs : afterColon s with
      | none => rfl
      | some y =>
        obtain ⟨w, hw, hsecond⟩ := afterColon_eq_some_iff.1 hs
        obtain ⟨g, -, hg⟩ := exists_blanks_trimStart s
        rw [h (c :: g) w (by rw [hg, hw]; rfl) (by simp)] at hsecond
        exact absurd hsecond (by simp)
    have hrest := ih fun u w hu hne => h (c :: u) w (by rw [hu]; rfl) (by simp)
    rw [branchesFrom, hcolon, hrest]
    split <;> rfl

/-- The first branch ends at the latest where a second one follows a colon. -/
theorem exists_branchesFrom {u w : Text} (hu : u ≠ []) (hline : '\n' ∉ u)
    (hw : (secondBranch w).isSome = true) :
    ∃ x y, branchesFrom (u ++ ':' :: w) = some (x, y) ∧ x ≠ [] ∧ ∃ v, u = x ++ v := by
  induction u with
  | nil => exact absurd rfl hu
  | cons c u ih =>
    rw [List.mem_cons, not_or] at hline
    rw [List.cons_append, branchesFrom, if_neg (Ne.symm hline.1)]
    cases hcolon : afterColon (u ++ ':' :: w) with
    | some y => exact ⟨[c], y, rfl, by simp, u, rfl⟩
    | none =>
      cases u with
      | nil =>
        have hstart : afterColon (':' :: w) = secondBranch w := rfl
        rw [List.nil_append, hstart] at hcolon
        rw [hcolon] at hw
        exact absurd hw (by simp)
      | cons d u =>
        obtain ⟨x, y, hxy, -, v, hv⟩ := ih (by simp) hline.2
        exact ⟨c :: x, y, by rw [hxy]; rfl, by simp, v, by rw [hv]; rfl⟩

theorem branches_isSome {u w : Text} (hline : '\n' ∉ u) (hw : (secondBranch w).isSome = true) :
    (branches (' ' :: (u ++ ':' :: w))).isSome = true := by
  obtain ⟨g, hg, hs⟩ := exists_blanks_trimStart u
  have hstart : trimStart (' ' :: (u ++ ':' :: w)) = trimStart u ++ ':' :: w := by
    rw [trimStart_space]
    conv_lhs => rw [hs, List.append_assoc, trimStart_blanks_append hg]
    refine trimStart_eq_self fun c hc => ?_
    cases ht : trimStart u with
    | nil =>
      rw [ht] at hc
      obtain rfl : ':' = c := by simpa using hc
      rfl
    | cons d t =>
      refine head?_trimStart u c ?_
      rw [ht] at hc ⊢
      exact hc
  rw [branches, hstart]
  cases ht : trimStart u with
  | nil =>
    have hcolon : afterColon (' ' :: (u ++ ':' :: w)) = secondBranch w := by
      rw [afterColon, hstart, ht]
      rfl
    have hblank : hasBlankStart (' ' :: (u ++ ':' :: w)) = true := rfl
    rw [hblank, hcolon, if_pos rfl]
    split
    · rfl
    · simpa using hw
  | cons c t =>
    have hline' : '\n' ∉ c :: t := fun h => hline (hs ▸ List.mem_append_right g (ht ▸ h))
    obtain ⟨x, y, hxy, -⟩ := exists_branchesFrom (List.cons_ne_nil c t) hline' hw
    rw [hxy]
    rfl

/-! ## The branches of a literal

The two fields of `EndsAtColon` belong to the two lemmas that refute it: a colon inside the first
branch makes it shorter, and a colon behind an empty one makes it longer. -/

/-- What stands behind the second branch of a literal: nothing, or the parenthesis before an
amount. -/
def IsEnding (tail : Text) : Prop := tail = [] ∨ tail = [')']

/-- No colon ends the first branch before its end.  An empty one is read only if nothing that
follows it can be read as a second branch behind a later colon. -/
structure EndsAtColon (x y tail : Text) : Prop where
  /-- No colon stands behind the first character of the first branch. -/
  first : ':' ∉ x.drop 1
  /-- Behind an empty first branch, no colon of the rest has anything behind it. -/
  empty : x = [] → ':' ∉ (y ++ tail).dropLast

/-- No first branch is read from the colon itself if no other one follows it. -/
theorem branchesFrom_colon {s : Text} (h : ':' ∉ s.dropLast) :
    branchesFrom (':' :: ' ' :: s) = none := by
  refine branchesFrom_eq_none fun u w huw hu => ?_
  cases u with
  | nil => exact absurd rfl hu
  | cons c u =>
    rw [List.cons_append, List.cons.injEq] at huw
    rcases List.eq_nil_or_concat w with rfl | ⟨w', d, rfl⟩
    · rfl
    · rw [List.concat_eq_append] at huw
      refine absurd ?_ h
      cases u with
      | nil => exact absurd (List.cons.inj huw.2).1 (by decide)
      | cons e u => exact mem_dropLast_iff.2 ⟨u, w', d, (List.cons.inj huw.2).2⟩

/-- A first branch without a colon ends before the colon that a second branch follows. -/
theorem isShortest_of_afterColon {x r : Text} (hne : x ≠ []) (hx : IsBranchText x)
    (hcolon : ':' ∉ x.drop 1) (hr : (afterColon r).isSome = true) :
    IsShortest (fun s => (afterColon s).isSome = true) r x := by
  refine .of_forall hne hx.line hr fun u v huv hu hv => ?_
  obtain ⟨d, w, hd, hw⟩ := exists_trimStart_append hv
    (getLast?_of_append huv hv ▸ hx.isTrimmed.2) r
  have hd' : d ≠ ':' := by
    rintro rfl
    exact hcolon (mem_drop_of_append huv hu hd)
  rw [afterColon, hw]
  split
  · rename_i heq
    exact absurd (List.cons.inj heq).1 hd'
  · decide

/-- The branches of a literal are read as they were written. -/
theorem branches_text {x y tail : Text} (hx : IsBranchText x) (hy : IsBranchText y)
    (hopen : ')' ∉ y.drop 1) (htail : IsEnding tail) (hne : y = [] → tail = [])
    (h : EndsAtColon x y tail) :
    branches (' ' :: (x ++ (" : ".toList ++ (y ++ tail)))) = some (x, y) := by
  have hcolon : afterColon (" : ".toList ++ (y ++ tail)) = some y :=
    secondBranch_text hy.isTrimmed hy.line hopen htail hne
  cases x with
  | nil =>
    -- the colon itself would be the first branch if another one followed
    have hnone : branchesFrom (':' :: ' ' :: (y ++ tail)) = none := branchesFrom_colon (h.empty rfl)
    have hstart : trimStart (' ' :: ([] ++ (" : ".toList ++ (y ++ tail)))) =
        ':' :: ' ' :: (y ++ tail) := by
      rw [List.nil_append, trimStart_space]
      rfl
    have hcolon' : afterColon (' ' :: ([] ++ (" : ".toList ++ (y ++ tail)))) = some y :=
      (afterColon_cons (by decide) _).trans hcolon
    have hblank : hasBlankStart (' ' :: ([] ++ (" : ".toList ++ (y ++ tail)))) = true := rfl
    rw [branches, hstart, hnone, hblank, hcolon']
    rfl
  | cons c x =>
    have hstart : trimStart (' ' :: ((c :: x) ++ (" : ".toList ++ (y ++ tail)))) =
        (c :: x) ++ (" : ".toList ++ (y ++ tail)) := by
      rw [trimStart_space]
      exact trimStart_eq_self hx.isTrimmed.1
    have hshort := isShortest_of_afterColon (List.cons_ne_nil c x) hx h.first
      (Option.isSome_of_eq_some hcolon)
    rw [branches, hstart, branchesFrom_eq_some_iff.2 ⟨_, rfl, hshort, hcolon⟩]

/-- At a colon that a second branch follows the first branch ends, or earlier. -/
theorem exists_append_of_branches {s u w x y : Text} (hs : trimStart s = u ++ ':' :: w)
    (hu : u ≠ []) (hline : '\n' ∉ u) (hw : (secondBranch w).isSome = true)
    (hxy : branches s = some (x, y)) : x ≠ [] ∧ ∃ v, u = x ++ v := by
  obtain ⟨x', y', hfrom, hne, v, hv⟩ := exists_branchesFrom hu hline hw
  rw [branches, hs, hfrom] at hxy
  obtain ⟨rfl, -⟩ : x' = x ∧ y' = y := by simpa using hxy
  exact ⟨hne, v, hv⟩

/-- A colon behind the first character of the first branch ends it too early. -/
theorem length_lt_of_branches {x r x' y' : Text} (hx : IsBranchText x) (hcolon : ':' ∈ x.drop 1)
    (hmem : ':' ∈ r) (hline : '\n' ∉ r) (hxy : branches (' ' :: (x ++ r)) = some (x', y')) :
    x'.length < x.length := by
  obtain ⟨c, u, w, rfl⟩ : ∃ c u w, x = c :: (u ++ ':' :: w) := by
    cases x with
    | nil => exact absurd hcolon (by simp)
    | cons c x =>
      obtain ⟨u, w, rfl⟩ := List.append_of_mem hcolon
      exact ⟨c, u, w, rfl⟩
  have hxline := hx.line
  simp only [List.mem_append, List.mem_cons, not_or] at hxline
  have hstart : trimStart (' ' :: (c :: (u ++ ':' :: w) ++ r)) = (c :: u) ++ ':' :: (w ++ r) := by
    rw [trimStart_space]
    have hself := trimStart_eq_self (s := c :: (u ++ ':' :: w) ++ r) hx.isTrimmed.1
    rw [hself]
    simp
  have hw : (secondBranch (w ++ r)).isSome = true :=
    secondBranch_isSome (List.mem_append_right w hmem) (by decide)
      (by simpa using ⟨hxline.2.2.2, hline⟩)
  obtain ⟨-, v, hv⟩ :=
    exists_append_of_branches hstart (by simp) (by simpa using ⟨hxline.1, hxline.2.1⟩) hw hxy
  have hle := congrArg List.length hv
  simp only [List.length_append, List.length_cons] at hle ⊢
  omega

/-- Behind an empty first branch, a later colon makes the first one part of a branch. -/
theorem mem_of_branches {s x y : Text} (hcolon : ':' ∈ s.dropLast)
    (hlast : ∀ d ∈ s.getLast?, isBlank d = false) (hline : '\n' ∉ s)
    (hxy : branches (' ' :: (" : ".toList ++ s)) = some (x, y)) : ':' ∈ x := by
  obtain ⟨u, w, d, rfl⟩ := mem_dropLast_iff.1 hcolon
  have hd : isBlank d = false := by
    refine hlast d ?_
    rw [← List.cons_append, ← List.append_assoc, List.getLast?_concat]
    rfl
  have hstart : trimStart (' ' :: (" : ".toList ++ (u ++ ':' :: (w ++ [d])))) =
      (':' :: ' ' :: u) ++ ':' :: (w ++ [d]) := by
    rw [trimStart_space]
    rfl
  simp only [List.mem_append, List.mem_cons, not_or] at hline
  have hw : (secondBranch (w ++ [d])).isSome = true :=
    secondBranch_isSome (c := d) (by simp) hd (by simpa using hline.2.2)
  obtain ⟨hx, v, hv⟩ := exists_append_of_branches hstart (by simp) (by simpa using hline.1) hw hxy
  cases x with
  | nil => exact absurd rfl hx
  | cons c x =>
    obtain rfl : ':' = c := (List.cons.inj hv).1
    exact List.mem_cons_self

/-- Where a colon ends the first branch too early, another text is read for it. -/
theorem trim_ne_of_branches {x y tail x' y' : Text} (hx : IsBranchText x) (hy : IsBranchText y)
    (htail : IsEnding tail) (h : ¬ EndsAtColon x y tail)
    (hxy : branches (' ' :: (x ++ (" : ".toList ++ (y ++ tail)))) = some (x', y')) :
    trim x' ≠ x := by
  have hline : '\n' ∉ y ++ tail := by
    rcases htail with rfl | rfl <;> simpa using hy.line
  have hlast : ∀ d ∈ (y ++ tail).getLast?, isBlank d = false := by
    rcases htail with rfl | rfl
    · simpa using hy.isTrimmed.2
    · simp [isBlank]
  by_cases hfirst : ':' ∈ x.drop 1
  · have hlt := length_lt_of_branches hx hfirst (r := " : ".toList ++ (y ++ tail)) (by simp)
      (by simpa using hline) hxy
    rintro rfl
    exact absurd (length_trim_le x') (by omega)
  · obtain ⟨rfl, hmem⟩ : x = [] ∧ ':' ∈ (y ++ tail).dropLast := by
      by_contra hcon
      exact h ⟨hfirst, fun hnil hmem => hcon ⟨hnil, hmem⟩⟩
    exact List.ne_nil_of_mem
      ((mem_trim_iff (by decide) x').2 (mem_of_branches hmem hlast hline hxy))

end TableSync
