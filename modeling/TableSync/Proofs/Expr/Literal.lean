import TableSync.Expr.Fold
import TableSync.Expr.Symbolic
import TableSync.Proofs.Text.Word

/-!
# Conditionals as they are written

A conditional is written as its literal: the base of words, marks and branches, and the amounts
outside parentheses around it.  The literal is what the reader of conditionals gets to see again,
and what the compiler reads, so it is taken apart here once for both.

* `Value.IsBare` is what is read again from its text, as `Value.IsBare.scalar_branchText` says.
  Every branch that can be read, `Value.IsBranch`, is bare, and every scalar is such a branch.
* `Conditional.WellFormed` are the conditionals that a table holds: words for operands, scalars for
  branches, and one amount at most.
* `Conditional.literal_eq` takes a literal apart, and `Conditional.notMem_literal` and
  `Conditional.isTrimmed_literal` say how one looks that is `WellFormed`.
* `Conditional.fold?_literal` says that a conditional with an operand that is no numeral is not
  folded, and `fold?_eq_none` that nothing is that has no tokens.  Before a value is taken for a
  conditional it is tried as an expression in numbers, so this is needed wherever one is read.
-/

set_option autoImplicit false

namespace TableSync

/-! ## Well-formed conditionals -/

/-- An integer of 64 bits or a name. -/
def Value.IsScalar : Value → Prop
  | .int n => IsInt64 n
  | .str s => IsName s.toList
  | _ => False

/-- No amount, or a positive one that is either added or taken away. -/
def AreAmounts (toAdd toSubtract : Int) : Prop :=
  (toAdd = 0 ∧ toSubtract = 0) ∨ (0 < toAdd ∧ IsInt64 toAdd ∧ toSubtract = 0) ∨
    (toAdd = 0 ∧ 0 < toSubtract ∧ IsInt64 toSubtract)

namespace Conditional

/-- The operands are words, the branches scalars, and at most one amount is given. -/
structure WellFormed (e : Conditional) : Prop where
  /-- The left operand is a word. -/
  left : IsWord e.left.toList
  /-- The right operand is a word. -/
  right : IsWord e.right.toList
  /-- The first branch is an integer or a name. -/
  whenTrue : e.whenTrue.IsScalar
  /-- The second branch is an integer or a name. -/
  whenFalse : e.whenFalse.IsScalar
  /-- One amount at most is given. -/
  amounts : AreAmounts e.toAdd e.toSubtract

end Conditional

/-! ## Tokens -/

/-- A non-empty text of word characters and minus signs. -/
def IsToken (s : Text) : Prop := s ≠ [] ∧ ∀ c ∈ s, isWordChar c = true ∨ c = '-'

/-- No character of a token is another than a word character or a minus sign. -/
theorem IsToken.notMem {s : Text} (h : IsToken s) {x : Char} (hx : isWordChar x = false)
    (hm : x ≠ '-') : x ∉ s := by
  intro hmem
  rcases h.2 x hmem with hw | hw
  · rw [hx] at hw
    exact Bool.noConfusion hw
  · exact hm hw

theorem IsToken.isBlank_eq_false {s : Text} (h : IsToken s) : ∀ c ∈ s, isBlank c = false := by
  intro c hc
  rcases h.2 c hc with hw | rfl
  · exact TableSync.isBlank_eq_false hw
  · rfl

theorem IsToken.isTrimmed {s : Text} (h : IsToken s) : IsTrimmed s :=
  isTrimmed_of_forall h.isBlank_eq_false

theorem IsWord.isToken {s : Text} (h : IsWord s) : IsToken s := ⟨h.1, fun c hc => .inl (h.2 c hc)⟩

theorem isToken_showInt (n : Int) : IsToken (showInt n) := by
  refine ⟨showInt_ne_nil n, fun c hc => ?_⟩
  rcases mem_showInt hc with hd | hm
  · exact .inl (isWordChar_of_isAsciiDigit hd)
  · exact .inr hm

/-- A scalar is written as a token. -/
theorem Value.IsScalar.isToken {v : Value} (h : v.IsScalar) : IsToken v.branchText := by
  cases v with
  | int n => exact isToken_showInt n
  | str s => exact h.1.isToken
  | _ => exact h.elim

/-! ## Branches

A value is read back from its text if the text is trimmed and is no numeral, or is the numeral of
the value.  How long the text of a branch may go on is another question, which the colon and the
parentheses decide. -/

/-- A text that can be a branch: trimmed, and on one line. -/
structure IsBranchText (s : Text) : Prop where
  /-- No blanks stand around it. -/
  isTrimmed : IsTrimmed s
  /-- It has no line feed. -/
  line : '\n' ∉ s

/-- A branch as it is read from a text: an integer, or a text on one line that writes none. -/
def Value.IsBranch : Value → Prop
  | .int n => IsInt64 n
  | .str s => IsBranchText s.toList ∧ readInt? s.toList = none
  | _ => False

namespace Value

theorem IsBranch.isBranchText {v : Value} (h : v.IsBranch) : IsBranchText v.branchText := by
  cases v with
  | int n =>
    have htoken := isToken_showInt n
    exact ⟨htoken.isTrimmed, htoken.notMem (by decide) (by decide)⟩
  | str s => exact h.1
  | _ => exact h.elim

/-- What a bare token is read as: an integer, or a trimmed text that writes none. -/
def IsBare : Value → Prop
  | .int n => IsInt64 n
  | .str s => IsTrimmed s.toList ∧ readInt? s.toList = none
  | _ => False

theorem IsBare.isTrimmed {v : Value} (h : v.IsBare) : IsTrimmed v.branchText := by
  cases v with
  | int n => exact (isToken_showInt n).isTrimmed
  | str s => exact h.1
  | _ => exact h.elim

/-- A bare token is read from its text. -/
theorem IsBare.scalar_branchText {v : Value} (h : v.IsBare) : scalar v.branchText = v := by
  rw [scalar, trim_eq_self h.isTrimmed]
  cases v with
  | int n =>
    have hn : readInt? (branchText (.int n)) = some n := readInt?_showInt h
    rw [hn]
  | str s =>
    have hs : readInt? (branchText (.str s)) = none := h.2
    rw [hs]
    exact congrArg Value.str String.ofList_toList
  | _ => exact h.elim

theorem IsBranch.isBare {v : Value} (h : v.IsBranch) : v.IsBare := by
  cases v with
  | int n => exact h
  | str s => exact ⟨h.1.isTrimmed, h.2⟩
  | _ => exact h.elim

theorem IsBranch.scalar_branchText {v : Value} (h : v.IsBranch) : scalar v.branchText = v :=
  h.isBare.scalar_branchText

/-- A scalar can be a branch. -/
theorem IsScalar.isBranch {v : Value} (h : v.IsScalar) : v.IsBranch := by
  cases v with
  | int n => exact h
  | str s =>
    exact ⟨⟨h.1.isTrimmed, h.1.isToken.notMem (by decide) (by decide)⟩, h.2⟩
  | _ => exact h.elim

/-- A scalar is read from its token. -/
theorem IsScalar.scalar_branchText {v : Value} (h : v.IsScalar) : scalar v.branchText = v :=
  h.isBranch.scalar_branchText

end Value

/-! ## Reading words -/

theorem IsToken.trimStart_append {s : Text} (h : IsToken s) (r : Text) :
    trimStart (s ++ r) = s ++ r := by
  obtain ⟨hne, -⟩ := id h
  cases s with
  | nil => exact absurd rfl hne
  | cons c s =>
    exact trimStart_eq_self (by simpa using h.isBlank_eq_false c List.mem_cons_self)

/-- A word is read up to what is no word character. -/
theorem wordAt?_word {w r : Text} (hw : IsWord w) (hr : ∀ c ∈ r.head?, isWordChar c = false) :
    wordAt? (w ++ r) = some (w, r) := by
  obtain ⟨hne, hall⟩ := id hw
  rw [wordAt?, hw.isToken.trimStart_append, wordRun_append hall hr]
  cases w with
  | nil => exact absurd rfl hne
  | cons c w => rfl

theorem wordAt?_blank_word {w r : Text} (hw : IsWord w)
    (hr : ∀ c ∈ r.head?, isWordChar c = false) : wordAt? (' ' :: (w ++ r)) = some (w, r) := by
  have hblank : trimStart (' ' :: (w ++ r)) = trimStart (w ++ r) :=
    trimStart_blanks_append (b := [' ']) (by simp [isBlank])
  rw [wordAt?, hblank, ← wordAt?, wordAt?_word hw hr]

theorem comparisonAt?_text (c : Comparison) (r : Text) :
    comparisonAt? (trimStart (' ' :: (c.text.toList ++ ' ' :: r))) = some (c, ' ' :: r) := by
  cases c <;> rfl

namespace Conditional

/-- The comparison and the branches of a conditional, without amounts. -/
def base (e : Conditional) : Text :=
  e.left.toList ++ (' ' :: (e.comparison.text.toList ++ ' ' :: (e.right.toList ++
    (" ? ".toList ++ (e.whenTrue.branchText ++ (" : ".toList ++ e.whenFalse.branchText))))))

/-- The conditional without its amounts. -/
def bare (e : Conditional) : Conditional := { e with toAdd := 0, toSubtract := 0 }

/-- The literal of a conditional is its base, and amounts stand outside parentheses. -/
theorem literal_eq (e : Conditional) :
    e.literal =
      if e.toAdd ≠ 0 then '(' :: (e.base ++ [')']) ++ (" + ".toList ++ showInt e.toAdd)
      else if e.toSubtract ≠ 0 then
        '(' :: (e.base ++ [')']) ++ (" - ".toList ++ showInt e.toSubtract)
      else e.base := by
  simp only [literal, literalOf, base, List.append_assoc, List.cons_append, List.nil_append]
  rfl

variable {e : Conditional}

/-- The base consists of word characters, blanks and the marks of the grammar. -/
theorem notMem_base (h : e.WellFormed) {x : Char} (hx : isWordChar x = false)
    (hmark : x ∉ "-<>=!?: ".toList) : x ∉ e.base := by
  have hm : x ≠ '-' := by
    rintro rfl
    exact hmark (by decide)
  have hcomparison : x ∉ e.comparison.text.toList := by
    intro hmem
    refine hmark ?_
    cases hc : e.comparison <;> rw [hc] at hmem <;> revert hmem <;>
      simp only [Comparison.text, String.reduceToList, List.mem_cons, List.not_mem_nil, or_false] <;>
      grind
  have hspace : x ≠ ' ' ∧ x ≠ '?' ∧ x ≠ ':' := by
    refine ⟨?_, ?_, ?_⟩ <;> rintro rfl <;> exact hmark (by decide)
  have hquestion : x ∉ " ? ".toList := by simp [hspace]
  have hcolon : x ∉ " : ".toList := by simp [hspace]
  simp only [base, List.mem_append, List.mem_cons, not_or]
  exact ⟨h.left.isToken.notMem hx hm, hspace.1, hcomparison, hspace.1,
    h.right.isToken.notMem hx hm, hquestion, h.whenTrue.isToken.notMem hx hm, hcolon,
    h.whenFalse.isToken.notMem hx hm⟩

end Conditional

/-! ## Folding

The name of a constant starts no token, so a text with one has none.  What has no tokens at some
place has none from the start, which the lemmas carry back character by character. -/

namespace Fold

theorem emit_none (digits : Text) : emit digits none = none := by
  cases digits <;> simp [emit]

/-- A character that no token of an expression starts with. -/
def IsStray (c : Char) : Prop :=
  isAsciiDigit c = false ∧ isBlank c = false ∧ single? c = none ∧ ∀ d, double? c d = none

/-- A word character that is no ASCII digit starts no token. -/
theorem isStray_of_isWordChar {c : Char} (h : isWordChar c = true)
    (hd : isAsciiDigit c = false) : IsStray c := by
  have hne : ∀ x : Char, isWordChar x = false → c ≠ x := by
    rintro x hx rfl
    rw [h] at hx
    exact Bool.noConfusion hx
  refine ⟨hd, isBlank_eq_false h, ?_, fun d => ?_⟩
  · unfold single?
    split <;> first | rfl | exact absurd rfl (hne _ (by decide))
  · unfold double?
    split <;> first | rfl | exact absurd rfl (hne _ (by decide))

/-- A text that goes on with a stray character has no tokens. -/
theorem tokensFrom_stray {c : Char} (h : IsStray c) (digits r : Text) :
    tokensFrom digits (c :: r) = none := by
  cases r with
  | nil =>
    rw [tokensFrom, h.1, h.2.1, h.2.2.1]
    exact emit_none digits
  | cons d r => simp only [tokensFrom, h.1, h.2.1, h.2.2.1, h.2.2.2 d, Bool.false_eq_true, if_false]

/-- A word that is not the numeral of an integer gives no tokens, digits before it included. -/
theorem tokensFrom_name {digits w r : Text} (hne : digits.reverse ++ w ≠ [])
    (hn : readInt? (digits.reverse ++ w) = none) (hw : ∀ c ∈ w, isWordChar c = true)
    (hr : ∀ c ∈ r.head?, isBlank c = true) : tokensFrom digits (w ++ r) = none := by
  induction w generalizing digits with
  | nil =>
    rw [List.append_nil] at hne hn
    have hdigits : ∀ rest, emit digits rest = none := by
      intro rest
      have hempty : digits.isEmpty = false := by simpa using hne
      simp [emit, hempty, hn]
    cases r with
    | nil => exact hdigits _
    | cons c r =>
      have hblank : isBlank c = true := hr c rfl
      have hdigit : isAsciiDigit c = false := isAsciiDigit_of_isBlank hblank
      cases r <;> simp [tokensFrom, hblank, hdigit, hdigits]
  | cons c w ih =>
    have hc : isWordChar c = true := hw c List.mem_cons_self
    cases hd : isAsciiDigit c with
    | false => exact tokensFrom_stray (isStray_of_isWordChar hc hd) digits (w ++ r)
    | true =>
      have hrest : tokensFrom (c :: digits) (w ++ r) = none :=
        ih (by simp) (by simpa using hn) fun d hd => hw d (List.mem_cons_of_mem c hd)
      rw [List.cons_append]
      cases hs : w ++ r with
      | nil =>
        rw [hs] at hrest
        rw [tokensFrom, if_pos hd]
        exact hrest
      | cons d s =>
        rw [hs] at hrest
        rw [tokensFrom, if_pos hd, hrest]

/-- Without tokens after a character, or after the two that make up a token, there are none. -/
theorem tokensFrom_cons {c d : Char} {r : Text} (hone : ∀ digits, tokensFrom digits (d :: r) = none)
    (htwo : double? c d = none ∨ tokensFrom [] r = none) (digits : Text) :
    tokensFrom digits (c :: d :: r) = none := by
  rw [tokensFrom, hone, hone, emit_none]
  split
  · rfl
  · split
    · rfl
    · rcases htwo with hnone | hnone
      · rw [hnone]
        cases single? c <;> simp [emit_none]
      · rw [hnone]
        cases double? c d <;> cases single? c <;> simp [emit_none]

/-- What has no tokens after a blank has none at all. -/
theorem tokensFrom_blank {s : Text} (h : tokensFrom [] s = none) :
    ∀ (t digits : Text), tokensFrom digits (t ++ ' ' :: s) = none
  | [], digits => by
    have hspace : isAsciiDigit ' ' = false ∧ isBlank ' ' = true := by decide
    cases s with
    | nil => exact absurd h (by simp [tokensFrom, emit])
    | cons d r =>
      rw [List.nil_append, tokensFrom, hspace.1, hspace.2, h, emit_none]
      rfl
  | [c], digits =>
    tokensFrom_cons (tokensFrom_blank h []) (.inl (by unfold double?; split <;> simp_all)) digits
  | c :: d :: t, digits =>
    tokensFrom_cons (tokensFrom_blank h (d :: t)) (.inr (tokensFrom_blank h t [])) digits

theorem tokensFrom_opening {s : Text} (h : tokensFrom [] s = none) (digits : Text) :
    tokensFrom digits ('(' :: s) = none := by
  have hopening : isAsciiDigit '(' = false ∧ isBlank '(' = false := by decide
  have hdouble : ∀ d, double? '(' d = none := by
    intro d
    unfold double?
    split <;> simp_all
  cases s with
  | nil => exact absurd h (by simp [tokensFrom, emit])
  | cons d r =>
    rw [tokensFrom, hopening.1, hopening.2, hdouble, h]
    exact emit_none digits

end Fold

/-- A text without tokens is not folded. -/
theorem fold?_eq_none {s : Text} (h : Fold.tokensFrom [] s = none) : fold? s = none := by
  have ht : Fold.tokens? s = none := h
  rw [fold?, ht]
  split <;> rfl

theorem fold?_name {w : Text} (h : IsName w) : fold? w = none := by
  have hnone : Fold.tokensFrom [] (w ++ []) = none :=
    Fold.tokensFrom_name h.1.1 h.2 h.1.2 (by simp)
  rw [List.append_nil] at hnone
  exact fold?_eq_none hnone

namespace Conditional

variable {e : Conditional}

/-- A conditional with an operand that is no numeral has no tokens. -/
theorem tokensFrom_base (h : e.WellFormed)
    (hn : readInt? e.left.toList = none ∨ readInt? e.right.toList = none) (r : Text) :
    Fold.tokensFrom [] (e.base ++ r) = none := by
  rw [base]
  rcases hn with hn | hn
  · rw [List.append_assoc]
    exact Fold.tokensFrom_name (by simpa using h.left.1) (by simpa using hn) h.left.2
      (by simp [isBlank])
  · have hright : Fold.tokensFrom [] (e.right.toList ++ (" ? ".toList ++
        (e.whenTrue.branchText ++ (" : ".toList ++ (e.whenFalse.branchText ++ r))))) = none :=
      Fold.tokensFrom_name (by simpa using h.right.1) (by simpa using hn) h.right.2
        (by simp [isBlank])
    have hblank := Fold.tokensFrom_blank hright
      (e.left.toList ++ (' ' :: e.comparison.text.toList)) []
    simpa only [List.append_assoc, List.cons_append] using hblank

/-- **A conditional with an operand that is no numeral is not folded.** -/
theorem fold?_literal (h : e.WellFormed)
    (hn : readInt? e.left.toList = none ∨ readInt? e.right.toList = none) :
    fold? e.literal = none := by
  refine fold?_eq_none ?_
  have hparen : ∀ r : Text, Fold.tokensFrom [] ('(' :: (e.base ++ [')']) ++ r) = none := by
    intro r
    have hbase := tokensFrom_base h hn ([')'] ++ r)
    rw [List.cons_append, List.append_assoc]
    exact Fold.tokensFrom_opening hbase []
  rw [literal_eq]
  split
  · exact hparen _
  · split
    · exact hparen _
    · have hbase := tokensFrom_base h hn []
      rwa [List.append_nil] at hbase

/-- The literal consists of word characters, blanks and the marks of the grammar. -/
theorem notMem_literal (h : e.WellFormed) {x : Char} (hx : isWordChar x = false)
    (hmark : x ∉ "-<>=!?: ()+".toList) : x ∉ e.literal := by
  have hbase : x ∉ e.base := notMem_base h hx fun hmem => hmark (by
    revert hmem
    simp only [String.reduceToList, List.mem_cons, List.not_mem_nil, or_false]
    grind)
  have hne : ∀ y ∈ "-<>=!?: ()+".toList, x ≠ y := by
    rintro y hy rfl
    exact hmark hy
  have hparen : x ∉ '(' :: (e.base ++ [')']) := by
    simp [hbase, hne '(' (by decide), hne ')' (by decide)]
  have hplus : x ∉ " + ".toList := by simp [hne '+' (by decide), hne ' ' (by decide)]
  have hminus : x ∉ " - ".toList := by simp [hne '-' (by decide), hne ' ' (by decide)]
  have hamount : ∀ n, x ∉ showInt n := fun n => (isToken_showInt n).notMem hx (hne '-' (by decide))
  rw [literal_eq]
  split
  · exact List.not_mem_append hparen (List.not_mem_append hplus (hamount _))
  · split
    · exact List.not_mem_append hparen (List.not_mem_append hminus (hamount _))
    · exact hbase

theorem isTrimmed_literal (h : e.WellFormed) : IsTrimmed e.literal := by
  have hparen : IsTrimmed (['('] : Text) := isTrimmed_of_forall (by simp [isBlank])
  have hamount : ∀ (m : Text) (n : Int), IsTrimmed ('(' :: (e.base ++ [')']) ++ (m ++ showInt n)) := by
    intro m n
    have hshape : '(' :: (e.base ++ [')']) ++ (m ++ showInt n) =
        ['('] ++ ((e.base ++ [')'] ++ m) ++ showInt n) := by simp
    rw [hshape]
    exact isTrimmed_append hparen (by simp) (isToken_showInt n).isTrimmed (showInt_ne_nil n) _
  rw [literal_eq]
  split
  · exact hamount _ _
  · split
    · exact hamount _ _
    · have hshape : e.base = e.left.toList ++ ((' ' :: (e.comparison.text.toList ++
          ' ' :: (e.right.toList ++ (" ? ".toList ++ (e.whenTrue.branchText ++ " : ".toList))))) ++
            e.whenFalse.branchText) := by simp [base]
      rw [hshape]
      exact isTrimmed_append h.left.isTrimmed h.left.1 h.whenFalse.isToken.isTrimmed
        h.whenFalse.isToken.1 _

/-- A literal is no integer. -/
theorem readInt?_literal (e : Conditional) : readInt? e.literal = none := by
  refine readInt?_eq_none (c := '?') ?_ (by decide) (by decide) (by decide)
  have hbase : '?' ∈ e.base := by simp [base]
  rw [literal_eq]
  split
  · simp [hbase]
  · split
    · simp [hbase]
    · exact hbase

end Conditional

end TableSync
