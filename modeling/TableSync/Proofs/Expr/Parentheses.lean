import TableSync.Proofs.Expr.Cut

/-!
# Parentheses around and inside a conditional

A conditional is cut out of a text at the first parenthesis that closes behind its colon, whatever
that parenthesis belongs to.  Parentheses around the conditional and in its first branch come to no
harm by that, and parentheses in the second branch do: what is opened there is closed outside.

* `openAfter` counts the parentheses that are open, and gives up where one closes that is not open.
  `IsBalanced` says that none is open at the end, and `openAfter_append` how the count goes on from
  one part of a text to the next, so that a balanced part can be left out of it.
* `isBalanced_iff_notMem` says that a text that closes nothing behind its first character is
  balanced only without parentheses, which is what a second branch is like
  (`Conditional.Cut.second_open`).
* `isBalanced_scalar_iff` and `Conditional.isBalanced_literal` say that a branch has the parentheses
  of the text that it was read from, and a literal those of its branches.
* `Conditional.isBalanced_literal_iff` says of which texts the branches and the literal are
  balanced: the first branch has to be so in the text, and the second may hold no parenthesis.
* `Conditional.isBalanced_cut_group` is a balanced text of which the literal is not.
-/

set_option autoImplicit false

namespace TableSync

/-! ## Balanced texts

The count is a run over the characters from the left, so each lemma is an induction on the text with
the number of open parentheses general. -/

/-- The number of parentheses that are open after a text before which `n` were; there is none if
one closes that is not open. -/
def openAfter (n : Nat) : Text → Option Nat
  | [] => some n
  | c :: r =>
    if c = '(' then openAfter (n + 1) r
    else if c = ')' then if n = 0 then none else openAfter (n - 1) r
    else openAfter n r

/-- Every parenthesis that closes is open, and all that are opened are closed. -/
def IsBalanced (s : Text) : Prop := openAfter 0 s = some 0

instance (s : Text) : Decidable (IsBalanced s) := inferInstanceAs (Decidable (_ = _))

theorem openAfter_append (n : Nat) (s t : Text) :
    openAfter n (s ++ t) = (openAfter n s).bind fun m => openAfter m t := by
  induction s generalizing n with
  | nil => rfl
  | cons c s ih =>
    rw [List.cons_append, openAfter, openAfter]
    split
    · exact ih (n + 1)
    · split
      · split
        · rfl
        · exact ih (n - 1)
      · exact ih n

/-- Parentheses that were open before make no difference to a text that opens what it closes. -/
theorem openAfter_add {n m : Nat} {s : Text} (h : openAfter n s = some m) (k : Nat) :
    openAfter (n + k) s = some (m + k) := by
  induction s generalizing n with
  | nil =>
    obtain rfl : n = m := by simpa [openAfter] using h
    rfl
  | cons c s ih =>
    rw [openAfter] at h ⊢
    split
    · rename_i hc
      rw [if_pos hc] at h
      rw [Nat.add_right_comm]
      exact ih h
    · rename_i hopen
      rw [if_neg hopen] at h
      split
      · rename_i hc
        rw [if_pos hc] at h
        cases n with
        | zero => exact absurd h (by simp)
        | succ n =>
          rw [if_neg (by omega)] at h ⊢
          rw [Nat.add_right_comm]
          exact ih h
      · rename_i hclose
        rw [if_neg hclose] at h
        exact ih h

theorem IsBalanced.openAfter_eq {s : Text} (h : IsBalanced s) (n : Nat) :
    openAfter n s = some n := by
  have hn := openAfter_add h n
  rwa [Nat.zero_add] at hn

theorem openAfter_balanced_append {s : Text} (h : IsBalanced s) (n : Nat) (t : Text) :
    openAfter n (s ++ t) = openAfter n t := by
  rw [openAfter_append, h.openAfter_eq, Option.bind_some]

theorem openAfter_append_balanced {t : Text} (h : IsBalanced t) (n : Nat) (s : Text) :
    openAfter n (s ++ t) = openAfter n s := by
  rw [openAfter_append]
  cases openAfter n s with
  | none => rfl
  | some m => exact h.openAfter_eq m

/-- Without a parenthesis that closes, all that are opened stay open. -/
theorem openAfter_of_notMem {s : Text} (h : ')' ∉ s) (n : Nat) :
    openAfter n s = some (n + s.count '(') := by
  induction s generalizing n with
  | nil => rfl
  | cons c s ih =>
    rw [List.mem_cons, not_or] at h
    rw [openAfter]
    split
    · rename_i hc
      rw [hc, ih h.2, List.count_cons_self, Nat.add_right_comm, Nat.add_assoc]
    · rename_i hc
      rw [if_neg (Ne.symm h.1), ih h.2, List.count_cons_of_ne hc]

theorem isBalanced_of_notMem {s : Text} (hopen : '(' ∉ s) (hclose : ')' ∉ s) : IsBalanced s := by
  rw [IsBalanced, openAfter_of_notMem hclose, List.count_eq_zero_of_not_mem hopen]

/-- A text that closes nothing behind its first character is balanced only without
parentheses. -/
theorem isBalanced_iff_notMem {s : Text} (h : ')' ∉ s.drop 1) :
    IsBalanced s ↔ '(' ∉ s ∧ ')' ∉ s := by
  refine ⟨fun hs => ?_, fun hs => isBalanced_of_notMem hs.1 hs.2⟩
  have hclose : ')' ∉ s := by
    cases s with
    | nil => simp
    | cons c s =>
      intro hmem
      rcases List.mem_cons.1 hmem with rfl | hmem
      · exact absurd hs (by simp [IsBalanced, openAfter])
      · exact h hmem
  refine ⟨?_, hclose⟩
  rw [IsBalanced, openAfter_of_notMem hclose, Nat.zero_add, Option.some.injEq] at hs
  exact List.count_eq_zero.1 hs

theorem isBalanced_blanks {g : Text} (hg : ∀ c ∈ g, isBlank c = true) : IsBalanced g :=
  isBalanced_of_notMem (notMem_of_blanks hg (by decide)) (notMem_of_blanks hg (by decide))

/-- Blanks around a text make no difference. -/
theorem isBalanced_trim_iff (s : Text) : IsBalanced (trim s) ↔ IsBalanced s := by
  obtain ⟨g, b, hg, hb, hs⟩ := exists_blanks_trim s
  have h : openAfter 0 s = openAfter 0 (trim s) := by
    conv_lhs => rw [hs]
    rw [openAfter_balanced_append (isBalanced_blanks hg),
      openAfter_append_balanced (isBalanced_blanks hb)]
  rw [IsBalanced, IsBalanced, h]

theorem IsBalanced.parenthesized {s : Text} (h : IsBalanced s) :
    IsBalanced ('(' :: (s ++ [')'])) := by
  rw [IsBalanced, openAfter, if_pos rfl, openAfter_balanced_append h]
  rfl

theorem isBalanced_showInt (n : Int) : IsBalanced (showInt n) := by
  have h := isToken_showInt n
  exact isBalanced_of_notMem (h.notMem (by decide) (by decide)) (h.notMem (by decide) (by decide))

theorem isBalanced_word {w : Text} (h : IsWord w) : IsBalanced w :=
  isBalanced_of_notMem (h.isToken.notMem (by decide) (by decide))
    (h.isToken.notMem (by decide) (by decide))

/-! ## Branches and literals -/

/-- The parentheses of a branch are those of the text it is read from. -/
theorem isBalanced_scalar_iff (s : Text) :
    IsBalanced (Value.scalar s).branchText ↔ IsBalanced s := by
  rw [← isBalanced_trim_iff s, Value.scalar]
  cases hs : readInt? (trim s) with
  | none =>
    have htext : (Value.ofText (trim s)).branchText = trim s := String.toList_ofList
    simp only [htext]
  | some n =>
    have hparen : ∀ x : Char, isAsciiDigit x = false → x ≠ '+' → x ≠ '-' → x ∉ trim s :=
      fun x hd hp hm hmem => by
        rcases mem_of_readInt? hs x hmem with h | h | h
        · rw [hd] at h
          exact Bool.noConfusion h
        · exact hp h
        · exact hm h
    exact iff_of_true (isBalanced_showInt n)
      (isBalanced_of_notMem (hparen '(' (by decide) (by decide) (by decide))
        (hparen ')' (by decide) (by decide) (by decide)))

namespace Conditional

/-- A literal has the parentheses of its branches, and those around it. -/
theorem isBalanced_literal {e : Conditional} (hl : IsWord e.left.toList)
    (hr : IsWord e.right.toList) (htrue : IsBalanced e.whenTrue.branchText)
    (hfalse : IsBalanced e.whenFalse.branchText) : IsBalanced e.literal := by
  have hcomparison : ∀ c : Comparison, IsBalanced c.text.toList := by
    intro c
    cases c <;> decide
  have hbase : IsBalanced e.base := by
    rw [IsBalanced, base, openAfter_balanced_append (isBalanced_word hl),
      ← List.singleton_append, openAfter_balanced_append (by decide),
      openAfter_balanced_append (hcomparison e.comparison), ← List.singleton_append,
      openAfter_balanced_append (by decide), openAfter_balanced_append (isBalanced_word hr),
      openAfter_balanced_append (by decide), openAfter_balanced_append htrue,
      openAfter_balanced_append (by decide)]
    exact hfalse
  have hamount : ∀ (sign : Text) (n : Int), IsBalanced sign →
      IsBalanced ('(' :: (e.base ++ [')']) ++ (sign ++ showInt n)) := by
    intro sign n hsign
    rw [IsBalanced, openAfter_balanced_append hbase.parenthesized,
      openAfter_balanced_append hsign]
    exact isBalanced_showInt n
  rw [literal_eq]
  split
  · exact hamount _ _ (by decide)
  · split
    · exact hamount _ _ (by decide)
    · exact hbase

/-- **Where a conditional is cut, its parentheses decide.**  The branches and the literal of what
is found in a text are balanced exactly if the text between the question mark and the colon is, and
no parenthesis at all stands in the second branch: one that is opened there is closed outside. -/
theorem isBalanced_literal_iff {t : Text} {e : Conditional} (h : find? t = some e) :
    Nonempty (e.Cut t) ∧ ∀ c : e.Cut t,
      (IsBalanced e.whenTrue.branchText ∧ IsBalanced e.whenFalse.branchText ∧
          IsBalanced e.literal ↔
        IsBalanced c.first ∧ '(' ∉ c.second ∧ ')' ∉ c.second) := by
  refine ⟨exists_cut h, fun c => ?_⟩
  have htrue : IsBalanced e.whenTrue.branchText ↔ IsBalanced c.first := by
    rw [c.whenTrue, isBalanced_scalar_iff]
  have hfalse : IsBalanced e.whenFalse.branchText ↔ '(' ∉ c.second ∧ ')' ∉ c.second := by
    rw [c.whenFalse, isBalanced_scalar_iff, ← isBalanced_trim_iff,
      isBalanced_iff_notMem c.second_open, mem_trim_iff (by decide), mem_trim_iff (by decide)]
  obtain ⟨-, -, -, -, -, hl, hr, -⟩ := c.isHead
  constructor
  · rintro ⟨h₁, h₂, -⟩
    exact ⟨htrue.1 h₁, hfalse.1 h₂⟩
  · rintro ⟨h₁, h₂⟩
    exact ⟨htrue.2 h₁, hfalse.2 h₂, isBalanced_literal hl hr (htrue.2 h₁) (hfalse.2 h₂)⟩

/-- The parts of a text in which parentheses stand around a conditional and in its first branch. -/
def groupedCut :
    (⟨"A", .eq, "B", .str "f(x)", .int 3, 1, 0⟩ : Conditional).Cut
      "(A == B ? f(x) : 3) + 1".toList where
  before := ['(']
  head := "A == B ?".toList
  first := " f(x) ".toList
  second := " 3".toList
  after := [')']
  tail := " + 1".toList
  isClosed := false
  eq_append := by decide
  isHead := ⟨[' '], [' '], [' '], [], by decide, ⟨by decide, by decide +kernel⟩,
    ⟨by decide, by decide +kernel⟩, by decide⟩
  whenTrue := by decide +kernel
  whenFalse := by decide +kernel
  first_line := by decide
  second_line := by decide
  second_open := by decide
  second_ne_nil := by decide
  second_blank := by decide
  after_closes := by decide
  isTail :=
    have hamount : IsAmount '+' ['1'] " + 1".toList := ⟨[' '], [' '], [], by decide⟩
    .added hamount (by decide)

theorem isBalanced_literal_iff_groupedCut :
    Nonempty ((⟨"A", .eq, "B", .str "f(x)", .int 3, 1, 0⟩ : Conditional).Cut
        "(A == B ? f(x) : 3) + 1".toList) ∧
      (IsBalanced groupedCut.first ∧ '(' ∉ groupedCut.second ∧ ')' ∉ groupedCut.second) ∧
      IsBalanced (literal ⟨"A", .eq, "B", .str "f(x)", .int 3, 1, 0⟩) := by
  have hfound : find? "(A == B ? f(x) : 3) + 1".toList =
      some ⟨"A", .eq, "B", .str "f(x)", .int 3, 1, 0⟩ := by decide +kernel
  have hparts : IsBalanced groupedCut.first ∧
      '(' ∉ groupedCut.second ∧ ')' ∉ groupedCut.second := by decide
  exact ⟨(isBalanced_literal_iff hfound).1, hparts,
    (((isBalanced_literal_iff hfound).2 groupedCut).2 hparts).2.2⟩

/-- A second branch in parentheses is cut inside them. -/
theorem isBalanced_cut_group :
    ∃ e, IsBalanced "A == B ? 1 : (C)".toList ∧ find? "A == B ? 1 : (C)".toList = some e ∧
      ¬ IsBalanced e.whenFalse.branchText ∧ ¬ IsBalanced e.literal := by
  refine ⟨⟨"A", .eq, "B", .int 1, .str "(C", 0, 0⟩, ?_⟩
  decide +kernel

end Conditional

end TableSync
