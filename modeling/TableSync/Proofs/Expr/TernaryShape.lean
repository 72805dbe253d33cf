import Mathlib.Data.List.Chain
import TableSync.Proofs.Expr.Derivation
import TableSync.Proofs.Expr.Parentheses

/-!
# Which expressions look like a conditional

A text is not folded before it is known to look like a conditional of literals: somewhere in it an
operand stands before a question mark, one between that and a colon, and one behind the colon, where
an operand is a number without a sign or what stands in parentheses on one line.

* `hasTernary_iff` says this of `hasTernary`, which goes over the text with the places that an
  operand can lead to; `operandThen_iff` and `markThen_iff` are one step of it.
* `Fold.Lexes.exists_split` and `Fold.Lexes.cut` cut a text at a token, and the tokens of a text at
  a mark, so that what is said of characters can be said of tokens.
* `Fold.Derives.endsOperand_of_question` and `Fold.Derives.isBalanced` say what an expression of the
  grammar has anyway: an operand ends before each question mark, and parentheses are balanced.
* `Fold.Lexes.isOperand_iff` says that a text on one line is an operand exactly if its tokens are.
* `Fold.Derives.looksTernary_iff` says of the tokens of an expression on one line whether it is
  tried: the grammar also has branches with a sign and sums of numbers, and those are not.
* `fold?_of_evaluate?` draws the conclusion for folding, and `fold?_negativeBranch` has an
  expression with each of the two.
-/

set_option autoImplicit false

namespace TableSync

/-! ## Operands -/

/-- A number in decimal digits, or what stands in parentheses on one line. -/
def IsOperand (s : Text) : Prop :=
  (s ≠ [] ∧ ∀ c ∈ s, isDecimal c = true) ∨ ∃ y, s = '(' :: (y ++ [')']) ∧ '\n' ∉ y

theorem mem_afterDigits_iff {s r : Text} :
    r ∈ afterDigits s ↔ ∃ x, s = x ++ r ∧ x ≠ [] ∧ ∀ c ∈ x, isDecimal c = true := by
  induction s with
  | nil =>
    refine ⟨fun h => absurd h (by simp [afterDigits]), ?_⟩
    rintro ⟨x, hx, hne, -⟩
    exact absurd (List.append_eq_nil_iff.1 hx.symm).1 hne
  | cons c s ih =>
    rw [afterDigits]
    split
    · rename_i hc
      rw [List.mem_cons, ih]
      constructor
      · rintro (rfl | ⟨x, rfl, -, hx⟩)
        · exact ⟨[c], rfl, by simp, by simpa using hc⟩
        · exact ⟨c :: x, rfl, by simp, by simpa [hc] using hx⟩
      · rintro ⟨x, hx, hne, hdigits⟩
        obtain ⟨d, x, rfl⟩ := List.exists_cons_of_ne_nil hne
        obtain ⟨rfl, rfl⟩ := List.cons.inj hx
        cases x with
        | nil => exact .inl rfl
        | cons e x => exact .inr ⟨e :: x, rfl, by simp, fun y hy => hdigits y (by simp [hy])⟩
    · rename_i hc
      refine ⟨fun h => absurd h (by simp), ?_⟩
      rintro ⟨x, hx, hne, hdigits⟩
      obtain ⟨d, x, rfl⟩ := List.exists_cons_of_ne_nil hne
      obtain ⟨rfl, rfl⟩ := List.cons.inj hx
      exact absurd (hdigits c (by simp)) hc

theorem mem_afterClosings_iff {s r : Text} :
    r ∈ afterClosings s ↔ ∃ y, s = y ++ ')' :: r ∧ '\n' ∉ y := by
  induction s with
  | nil => simp [afterClosings]
  | cons c s ih =>
    have hcons : (∃ y, c :: s = y ++ ')' :: r ∧ '\n' ∉ y) ↔
        (c = ')' ∧ s = r) ∨ c ≠ '\n' ∧ ∃ y, s = y ++ ')' :: r ∧ '\n' ∉ y := by
      constructor
      · rintro ⟨y, hy, hline⟩
        cases y with
        | nil => exact .inl (List.cons.inj hy)
        | cons d y =>
          obtain ⟨rfl, rfl⟩ := List.cons.inj hy
          rw [List.mem_cons, not_or] at hline
          exact .inr ⟨Ne.symm hline.1, y, rfl, hline.2⟩
      · rintro (⟨rfl, rfl⟩ | ⟨hc, y, rfl, hline⟩)
        · exact ⟨[], rfl, by simp⟩
        · exact ⟨c :: y, rfl, by simp [Ne.symm hc, hline]⟩
    rw [hcons, afterClosings]
    split
    · rename_i hc
      simp [hc]
    · rename_i hline
      split
      · rename_i hc
        simp [hc, ih, eq_comm]
      · rename_i hc
        simp [hc, hline, ih]

theorem mem_afterOperand_iff {s r : Text} :
    r ∈ afterOperand s ↔ ∃ x, s = x ++ r ∧ IsOperand x := by
  cases s with
  | nil =>
    refine ⟨fun h => absurd h (by simp [afterOperand]), ?_⟩
    rintro ⟨x, hx, hoperand⟩
    obtain rfl := (List.append_eq_nil_iff.1 hx.symm).1
    rcases hoperand with ⟨hne, -⟩ | ⟨y, hy, -⟩
    · exact absurd rfl hne
    · exact absurd hy (by simp)
  | cons c s =>
    have hopening : isDecimal '(' = false := by decide
    rw [afterOperand]
    split
    · rename_i hc
      subst hc
      rw [mem_afterClosings_iff]
      constructor
      · rintro ⟨y, rfl, hline⟩
        exact ⟨'(' :: (y ++ [')']), by simp, .inr ⟨y, rfl, hline⟩⟩
      · rintro ⟨x, hx, ⟨hne, hdigits⟩ | ⟨y, rfl, hline⟩⟩
        · obtain ⟨d, x, rfl⟩ := List.exists_cons_of_ne_nil hne
          obtain ⟨rfl, -⟩ := List.cons.inj hx
          exact absurd (hdigits '(' (by simp)) (by simp [hopening])
        · exact ⟨y, by simpa using hx, hline⟩
    · rename_i hc
      rw [mem_afterDigits_iff]
      constructor
      · rintro ⟨x, hx, hne, hdigits⟩
        exact ⟨x, hx, .inl ⟨hne, hdigits⟩⟩
      · rintro ⟨x, hx, ⟨hne, hdigits⟩ | ⟨y, rfl, -⟩⟩
        · exact ⟨x, hx, hne, hdigits⟩
        · exact absurd (List.cons.inj hx).1 hc

theorem IsOperand.ne_nil {s : Text} (h : IsOperand s) : s ≠ [] := by
  rcases h with ⟨hne, -⟩ | ⟨y, rfl, -⟩
  · exact hne
  · simp

theorem isWordChar_of_isDecimal {c : Char} (h : isDecimal c = true) : isWordChar c = true := by
  rw [isWordChar, h, Bool.or_true, Bool.true_or, Bool.true_or]

theorem IsOperand.isTrimmed {s : Text} (h : IsOperand s) : IsTrimmed s := by
  rcases h with ⟨-, hdigits⟩ | ⟨y, rfl, -⟩
  · exact isTrimmed_of_forall fun c hc => isBlank_eq_false (isWordChar_of_isDecimal (hdigits c hc))
  · have hbracket : ∀ c ∈ ['(', ')'], isBlank c = false := by decide
    exact isTrimmed_append (a := ['(']) (b := [')']) (isTrimmed_of_forall (by simp [hbracket]))
      (by simp) (isTrimmed_of_forall (by simp [hbracket])) (by simp) y

/-- Blanks around an operand are trimmed off. -/
theorem isOperand_trim_iff {s : Text} : IsOperand (trim s) ↔
    ∃ g x b, s = g ++ (x ++ b) ∧ (∀ c ∈ g, isBlank c = true) ∧ (∀ c ∈ b, isBlank c = true) ∧
      IsOperand x := by
  constructor
  · intro h
    obtain ⟨g, b, hg, hb, hs⟩ := exists_blanks_trim s
    exact ⟨g, trim s, b, hs, hg, hb, h⟩
  · rintro ⟨g, x, b, rfl, hg, hb, hx⟩
    rwa [trim_between hg hb hx.ne_nil hx.isTrimmed]

/-! ## The look of a conditional -/

theorem markThen_iff {c : Char} (hc : isBlank c = false) {next : Text → Bool} {s : Text} :
    markThen c next s = true ↔
      ∃ g r, s = g ++ c :: r ∧ (∀ b ∈ g, isBlank b = true) ∧ next r = true := by
  constructor
  · intro h
    obtain ⟨g, r, rfl, hg, hr⟩ := exists_run isBlank s
    rw [markThen, trimStart_blanks_append hg, trimStart_eq_self hr] at h
    cases r with
    | nil => exact absurd h (by simp)
    | cons d r =>
      rw [Bool.and_eq_true, decide_eq_true_eq] at h
      exact ⟨g, r, by rw [h.1], hg, h.2⟩
  · rintro ⟨g, r, rfl, hg, hnext⟩
    rw [markThen, trimStart_blanks_append hg, trimStart_eq_self (by simpa using hc)]
    simpa using hnext

theorem operandThen_iff {next : Text → Bool} {s : Text} :
    operandThen next s = true ↔
      ∃ g x r, s = g ++ (x ++ r) ∧ (∀ b ∈ g, isBlank b = true) ∧ IsOperand x ∧ next r = true := by
  rw [operandThen, List.any_eq_true]
  constructor
  · rintro ⟨r, hr, hnext⟩
    obtain ⟨x, hx, hoperand⟩ := mem_afterOperand_iff.1 hr
    obtain ⟨g, s, rfl, hg, hs⟩ := exists_run isBlank s
    rw [trimStart_blanks_append hg, trimStart_eq_self hs] at hx
    exact ⟨g, x, r, by rw [hx], hg, hoperand, hnext⟩
  · rintro ⟨g, x, r, rfl, hg, hoperand, hnext⟩
    refine ⟨r, mem_afterOperand_iff.2 ⟨x, ?_, hoperand⟩, hnext⟩
    rw [trimStart_blanks_append hg, trimStart_eq_self]
    obtain ⟨c, x, rfl⟩ := List.exists_cons_of_ne_nil hoperand.ne_nil
    simpa using hoperand.isTrimmed.1

theorem hasTernary_iff_exists {s : Text} :
    hasTernary s = true ↔ ∃ p r, s = p ++ r ∧ ternaryStarts r = true := by
  induction s with
  | nil =>
    refine ⟨fun h => absurd h (by simp [hasTernary]), ?_⟩
    rintro ⟨p, r, hs, hr⟩
    obtain ⟨rfl, rfl⟩ := List.append_eq_nil_iff.1 hs.symm
    exact absurd hr (by simp [ternaryStarts, afterOperand])
  | cons c s ih =>
    rw [hasTernary, Bool.or_eq_true, ih]
    constructor
    · rintro (h | ⟨p, r, rfl, hr⟩)
      · exact ⟨[], c :: s, rfl, h⟩
      · exact ⟨c :: p, r, rfl, hr⟩
    · rintro ⟨p, r, hs, hr⟩
      cases p with
      | nil => exact .inl (by rwa [hs])
      | cons d p => exact .inr ⟨p, r, (List.cons.inj hs).2, hr⟩

/-- An operand before a question mark, one between that and a colon, and one behind it. -/
def LooksTernary (s : Text) : Prop :=
  ∃ p x y z r, s = p ++ (x ++ '?' :: (y ++ ':' :: (z ++ r))) ∧
    IsOperand (trim x) ∧ IsOperand (trim y) ∧ IsOperand (trim z)

theorem hasTernary_iff {s : Text} : hasTernary s = true ↔ LooksTernary s := by
  have hquestion : isBlank '?' = false := by decide
  have hcolon : isBlank ':' = false := by decide
  simp only [hasTernary_iff_exists, ternaryStarts, List.any_eq_true, mem_afterOperand_iff,
    markThen_iff hquestion, operandThen_iff, markThen_iff hcolon, LooksTernary, isOperand_trim_iff]
  constructor
  · rintro ⟨p, _, rfl, _, ⟨x, rfl, hx⟩, g, _, rfl, hg, g', y, _, rfl, hg', hy, b, _, rfl, hb, b', z,
      r, rfl, hb', hz, -⟩
    exact ⟨p, x ++ g, g' ++ (y ++ b), b' ++ z, r, by simp, ⟨[], x, g, by simp, by simp, hg, hx⟩,
      ⟨g', y, b, rfl, hg', hb, hy⟩, b', z, [], by simp, hb', by simp, hz⟩
  · rintro ⟨p, _, _, _, r, rfl, ⟨g₁, x, g₂, rfl, -, hg₂, hx⟩, ⟨g₃, y, g₄, rfl, hg₃, hg₄, hy⟩, g₅, z,
      g₆, rfl, hg₅, hg₆, hz⟩
    exact ⟨p ++ g₁, x ++ (g₂ ++ '?' :: (g₃ ++ (y ++ (g₄ ++ ':' :: (g₅ ++ (z ++ (g₆ ++ r))))))),
      by simp, _, ⟨x, rfl, hx⟩, g₂, _, rfl, hg₂, g₃, y, _, rfl, hg₃, hy, g₄, _, rfl, hg₄, g₅, z, _,
      rfl, hg₅, hz, trivial⟩

/-! ## Balanced texts

In a balanced text a parenthesis that closes has one before it that opens, and the other way round.
That is all that the look of a conditional needs: it asks for a parenthesis at the end of an operand
and for one at the start, and not that the two belong together. -/

theorem IsBalanced.append {a b : Text} (ha : IsBalanced a) (hb : IsBalanced b) :
    IsBalanced (a ++ b) := (openAfter_balanced_append ha 0 b).trans hb

/-- What closes has been opened. -/
theorem IsBalanced.mem_opening {a b : Text} (h : IsBalanced (a ++ ')' :: b)) : '(' ∈ a := by
  by_contra hopen
  have hnone : openAfter 0 (a ++ ')' :: b) = none := by
    induction a with
    | nil => rfl
    | cons c a ih =>
      rw [List.mem_cons, not_or] at hopen
      rw [List.cons_append, openAfter, if_neg (Ne.symm hopen.1)]
      split
      · rfl
      · rename_i hc
        refine ih ?_ hopen.2
        rwa [List.cons_append, IsBalanced, openAfter, if_neg (Ne.symm hopen.1), if_neg hc] at h
  rw [IsBalanced, hnone] at h
  exact absurd h (by simp)

/-- What is opened is closed. -/
theorem IsBalanced.mem_closing {a b : Text} (h : IsBalanced (a ++ '(' :: b)) : ')' ∈ b := by
  by_contra hclose
  rw [IsBalanced, openAfter_append] at h
  obtain ⟨m, -, hm⟩ := Option.bind_eq_some_iff.1 h
  rw [openAfter, if_pos rfl, openAfter_of_notMem hclose, Option.some.injEq] at hm
  omega

namespace Fold

/-! ## Cutting a text at a token -/

/-- What a token is written with: its digits if it is an integer, and else its mark. -/
def Token.IsWrittenAs : Token → Text → Prop
  | .int n, w => (∀ c ∈ w, isAsciiDigit c = true) ∧ readInt? w = some n
  | t, w => w = t.mark

theorem Lexes.forall_isBlank {s : Text} (h : Lexes s []) : ∀ c ∈ s, isBlank c = true := by
  generalize hts : ([] : List Token) = ts at h
  induction h with
  | nil => simp
  | blank hc _ ih => simpa [hc] using ih hts
  | int => exact absurd hts (by simp)
  | mark => exact absurd hts (by simp)

/-- Blanks, and the first token. -/
theorem Lexes.exists_cons {s : Text} {t : Token} {ts : List Token} (h : Lexes s (t :: ts)) :
    ∃ g w r, s = g ++ (w ++ r) ∧ (∀ c ∈ g, isBlank c = true) ∧ t.IsWrittenAs w ∧ Lexes r ts := by
  generalize hus : t :: ts = us at h
  induction h with
  | nil => exact absurd hus (by simp)
  | @blank c _ _ hc _ ih =>
    obtain ⟨g, w, r, rfl, hg, hw, hr⟩ := ih hus
    exact ⟨c :: g, w, r, rfl, by simpa [hc] using hg, hw, hr⟩
  | @int d r n _ hd _ hn h =>
    obtain ⟨rfl, rfl⟩ := List.cons.inj hus
    exact ⟨[], d, r, rfl, by simp, ⟨hd, hn⟩, h⟩
  | @mark u r _ hu _ h =>
    obtain ⟨rfl, rfl⟩ := List.cons.inj hus
    refine ⟨[], t.mark, r, rfl, by simp, ?_, h⟩
    cases t with
    | int => exact absurd rfl hu
    | _ => rfl

/-- The text before a token, the token and the text behind it. -/
theorem Lexes.exists_split {s : Text} {us vs : List Token} {t : Token} (h : Lexes s (us ++ t :: vs)) :
    ∃ a w r, s = a ++ (w ++ r) ∧ Lexes a us ∧ t.IsWrittenAs w ∧ Lexes r vs := by
  obtain ⟨p, _, rfl, hp, hrest⟩ := h.exists_append
  obtain ⟨g, w, r, rfl, hg, hw, hr⟩ := hrest.exists_cons
  refine ⟨p ++ g, w, r, by simp, ?_, hw, hr⟩
  rw [← tokens?_eq_some_iff] at hp ⊢
  rwa [tokens?_append_blanks hg]

/-- A mark that is part of no other token cuts the tokens of a text. -/
theorem Lexes.cut {a b : Text} {c : Char} {t : Token} {ts : List Token}
    (hc : c ∉ ['&', '|', '=', '!', '>', '<']) (ht : single? c = some t)
    (h : Lexes (a ++ c :: b) ts) : ∃ us vs, ts = us ++ t :: vs ∧ Lexes a us ∧ Lexes b vs := by
  have hchar := isMark_of_single? ht
  have hseparate : Separate a (c :: b) := by
    intro x _ d hd
    obtain rfl := Option.some.inj hd
    exact splits_right (fun hmem => hc (by simp at hmem ⊢; tauto)) hchar.1 x
  rw [← tokens?_eq_some_iff, tokens?_append hseparate, tokens?_mark hc hchar.1 hchar.2 ht] at h
  obtain ⟨us, hus, h⟩ := Option.bind_eq_some_iff.1 h
  obtain ⟨vs, hvs, rfl⟩ := Option.map_eq_some_iff.1 h
  obtain ⟨vs, hvs', rfl⟩ := Option.map_eq_some_iff.1 hvs
  exact ⟨us, vs, by simp, tokens?_eq_some_iff.1 hus, tokens?_eq_some_iff.1 hvs'⟩

/-! ## What an expression has anyway

An operand ends before a question mark: a statement on two neighbours among the tokens, which is
handed on from the parts of an expression to the whole by looking at where they are joined. -/

/-- An operand may start with the token. -/
def Token.StartsOperand (t : Token) : Prop := (∃ n, t = .int n) ∨ t = .opening

/-- An operand may end with the token. -/
def Token.EndsOperand (t : Token) : Prop := (∃ n, t = .int n) ∨ t = .closing

/-- Before a question mark an operand ends. -/
def Token.Precedes (t u : Token) : Prop := u = .question → t.EndsOperand

theorem Tree.exists_last (t : Tree) : ∃ us a, t.tokens = us ++ [a] ∧ a.EndsOperand := by
  induction t with
  | int n => exact ⟨[], .int n, rfl, .inl ⟨n, rfl⟩⟩
  | group t _ => exact ⟨.opening :: t.tokens, .closing, rfl, .inr rfl⟩
  | negative t ih =>
    obtain ⟨us, a, htokens, ha⟩ := ih
    exact ⟨.minus :: us, a, by simp [tokens, htokens], ha⟩
  | binary o l r _ ih =>
    obtain ⟨us, a, htokens, ha⟩ := ih
    exact ⟨l.tokens ++ o :: us, a, by simp [tokens, htokens], ha⟩
  | choice c t f _ _ ih =>
    obtain ⟨us, a, htokens, ha⟩ := ih
    exact ⟨c.tokens ++ .question :: (t.tokens ++ .colon :: us), a, by simp [tokens, htokens], ha⟩

theorem isChain_join {us vs : List Token} {o : Token} (ho : o ≠ .question)
    (hus : us.IsChain Token.Precedes) (hvs : (o :: vs).IsChain Token.Precedes) :
    (us ++ o :: vs).IsChain Token.Precedes := by
  refine List.isChain_append.2 ⟨hus, hvs, fun a _ b hb hquestion => ?_⟩
  obtain rfl := Option.some.inj hb
  exact absurd hquestion ho

/-- Before each question mark of an expression an operand ends.  Any token may stand in front: an
expression does not start with a question mark. -/
theorem Derives.isChain_tokens {p : Part} {t : Tree} (h : Derives p t) (a : Token) :
    (a :: t.tokens).IsChain Token.Precedes := by
  have hcons : ∀ {o : Token} {us : List Token} (b : Token), o ≠ .question →
      (o :: us).IsChain Token.Precedes → (b :: o :: us).IsChain Token.Precedes := by
    intro o us b ho hus
    exact isChain_join ho (List.isChain_singleton b) hus
  induction h generalizing a with
  | int n => exact hcons a (by simp) (by simp)
  | group _ ih => exact hcons a (by simp) (isChain_join (by simp) (ih .opening) (by simp))
  | negative _ ih => exact hcons a (by simp) (ih .minus)
  | operand _ ih | single _ ih | plain _ ih => exact ih a
  | @link l o _ _ ho _ _ ihl ihr =>
    have hne : o ≠ .question := by
      rintro rfl
      cases l <;> exact absurd ho (by decide)
    exact isChain_join hne (ihl a) (ihr o)
  | @compare o _ _ ho _ _ ihl ihr =>
    have hne : o ≠ .question := by
      rintro rfl
      exact absurd ho (by decide)
    exact isChain_join hne (ihl a) (ihr o)
  | @choice c t f _ _ _ ihc iht ihf =>
    have hbranches := isChain_join (by simp) (iht .question) (ihf .colon)
    refine List.isChain_append.2 ⟨ihc a, hbranches, fun b hb _ _ _ => ?_⟩
    obtain ⟨us, d, htokens, hd⟩ := c.exists_last
    have hlast : (a :: c.tokens).getLast? = some d := by
      rw [htokens, ← List.cons_append, List.getLast?_concat]
    obtain rfl := Option.some.inj (hlast.symm.trans hb)
    exact hd

/-- What stands before a question mark of an expression ends with an operand. -/
theorem Derives.endsOperand_of_question {p : Part} {t : Tree} (h : Derives p t)
    {us vs : List Token} (htokens : t.tokens = us ++ .question :: vs) :
    ∃ us' a, us = us' ++ [a] ∧ a.EndsOperand := by
  have hchain := h.isChain_tokens .plus
  rw [htokens, ← List.cons_append] at hchain
  have hlast := (List.isChain_append.1 hchain).2.2
  rcases List.eq_nil_or_concat us with rfl | ⟨us, a, rfl⟩
  · rcases hlast .plus rfl .question rfl rfl with ⟨n, hn⟩ | hclosing
    · exact absurd hn (by simp)
    · exact absurd hclosing (by simp)
  · rw [List.concat_eq_append] at hlast ⊢
    refine ⟨us, a, rfl, hlast a ?_ .question rfl rfl⟩
    rw [← List.cons_append, List.getLast?_concat]
    rfl

/-- The parentheses of a text are those of its tokens. -/
theorem Lexes.openAfter_eq {s : Text} {ts : List Token} (h : Lexes s ts) (n : Nat) :
    openAfter n s = openAfter n (ts.flatMap Token.mark) := by
  induction h generalizing n with
  | nil => rfl
  | @blank c s _ hc _ ih =>
    have hblank : IsBalanced [c] := isBalanced_blanks (by simpa using hc)
    rw [← List.singleton_append, openAfter_balanced_append hblank, ih]
  | int hd _ _ _ ih =>
    have hdigit : ∀ c, isWordChar c = false → c ∉ _ := fun _ =>
      notMem_of_word fun c hc => isWordChar_of_isAsciiDigit (hd c hc)
    rw [openAfter_balanced_append (isBalanced_of_notMem (hdigit '(' (by decide))
      (hdigit ')' (by decide))), ih]
    rfl
  | mark _ _ _ ih =>
    rw [List.flatMap_cons, openAfter_append, openAfter_append]
    exact Option.bind_congr fun m _ => ih m

theorem Derives.isBalanced_marks {p : Part} {t : Tree} (h : Derives p t) :
    IsBalanced (t.tokens.flatMap Token.mark) := by
  induction h with
  | int => rfl
  | group _ ih =>
    have hgroup := ih.parenthesized
    simpa [Tree.tokens, Token.mark] using hgroup
  | negative _ ih => exact IsBalanced.append (a := ['-']) (by decide) ih
  | operand _ ih | single _ ih | plain _ ih => exact ih
  | @link l o _ _ ho _ _ ihl ihr =>
    have hmark : IsBalanced o.mark := by
      cases l <;> simp only [Level.operators, List.mem_cons, List.not_mem_nil, or_false] at ho <;>
        rcases ho with rfl | rfl <;> decide
    rw [Tree.tokens, List.flatMap_append, List.flatMap_cons]
    exact IsBalanced.append ihl (IsBalanced.append hmark ihr)
  | @compare o _ _ ho _ _ ihl ihr =>
    have hmark : IsBalanced o.mark := by
      simp only [comparisons, List.mem_cons, List.not_mem_nil, or_false] at ho
      rcases ho with rfl | rfl | rfl | rfl | rfl | rfl <;> decide
    rw [Tree.tokens, List.flatMap_append, List.flatMap_cons]
    exact IsBalanced.append ihl (IsBalanced.append hmark ihr)
  | choice _ _ _ ihc iht ihf =>
    rw [Tree.tokens, List.flatMap_append, List.flatMap_cons, List.flatMap_append, List.flatMap_cons]
    exact IsBalanced.append ihc (IsBalanced.append (a := ['?']) (by decide)
      (IsBalanced.append iht (IsBalanced.append (a := [':']) (by decide) ihf)))

/-- **The parentheses of an expression are balanced.** -/
theorem Derives.isBalanced {p : Part} {t : Tree} (h : Derives p t) {s : Text}
    (hs : Lexes s t.tokens) : IsBalanced s := (hs.openAfter_eq 0).trans h.isBalanced_marks

/-! ## The tokens of operands

An operand of the look is told from its first and its last character, and one of the tokens from its
first and its last token.  Decimal digits of other scripts are digits to the look and not to the
grammar, but a text with one of them has no tokens. -/

/-- The tokens of an operand: an integer, or what stands between parentheses. -/
def AreOperand (ts : List Token) : Prop :=
  (∃ n, ts = [.int n]) ∨ ∃ us, ts = .opening :: (us ++ [.closing])

/-- Of all decimal digits only those of ASCII are read. -/
theorem Lexes.isAsciiDigit_of_isDecimal {s : Text} {ts : List Token} (h : Lexes s ts) {c : Char}
    (hc : c ∈ s) (hdecimal : isDecimal c = true) : isAsciiDigit c = true := by
  have hword := isWordChar_of_isDecimal hdecimal
  rcases h.char c hc with hblank | hdigit | hmark
  · exact absurd hword (by simp [isWordChar_of_isBlank hblank])
  · exact hdigit
  · exact absurd hword (by simp [isWordChar_markCharacters c hmark])

theorem Lexes.eq_nil {ts : List Token} (h : Lexes [] ts) : ts = [] :=
  (Option.some.inj (show some [] = some ts from h.tokens?_eq)).symm

/-- A parenthesis at the start is the first token. -/
theorem Lexes.exists_opening {s : Text} {ts : List Token} (h : Lexes ('(' :: s) ts) :
    ∃ us, ts = .opening :: us ∧ Lexes s us := by
  obtain ⟨us, vs, rfl, hus, hvs⟩ := Lexes.cut (a := []) (t := .opening) (by decide) rfl h
  exact ⟨vs, by rw [hus.eq_nil, List.nil_append], hvs⟩

/-- A digit at the start belongs to an integer. -/
theorem Lexes.exists_int {c : Char} {s : Text} {ts : List Token} (hc : isAsciiDigit c = true)
    (h : Lexes (c :: s) ts) : ∃ n us, ts = .int n :: us := by
  generalize ha : c :: s = a at h
  cases h with
  | nil => exact absurd ha (by simp)
  | blank hb =>
    obtain ⟨rfl, -⟩ := List.cons.inj ha
    exact absurd hc (by simp [isAsciiDigit_of_isBlank hb])
  | int => exact ⟨_, _, rfl⟩
  | @mark t _ _ ht =>
    obtain ⟨d, w, hmark⟩ := List.exists_cons_of_ne_nil ht
    rw [hmark, List.cons_append, List.cons.injEq] at ha
    have hchar := isWordChar_markCharacters c (t.mem_markCharacters c (by simp [hmark, ha.1]))
    exact absurd (isWordChar_of_isAsciiDigit hc) (by simp [hchar])

theorem isOperand_of_readInt? {w : Text} {n : Int} (hw : ∀ c ∈ w, isAsciiDigit c = true)
    (hn : readInt? w = some n) : IsOperand w := by
  refine .inl ⟨?_, fun c hc => isDecimal_of_isAsciiDigit (hw c hc)⟩
  rintro rfl
  exact absurd hn (by simp [readInt?, digitsValue?])

/-- A text on one line is an operand, blanks aside, exactly if its tokens are. -/
theorem Lexes.isOperand_iff {s : Text} {ts : List Token} (h : Lexes s ts) (hline : '\n' ∉ s) :
    IsOperand (trim s) ↔ AreOperand ts := by
  constructor
  · intro hoperand
    have htrim : Lexes (trim s) ts := by
      rw [← tokens?_eq_some_iff, tokens?_trim]
      exact h.tokens?_eq
    rcases hoperand with ⟨hne, hdigits⟩ | ⟨y, hy, -⟩
    · have htokens := tokens?_digits_eq
        (fun c hc => htrim.isAsciiDigit_of_isDecimal hc (hdigits c hc)) hne
      obtain ⟨n, -, hn⟩ := Option.map_eq_some_iff.1 (htokens.symm.trans htrim.tokens?_eq)
      exact .inl ⟨n, hn.symm⟩
    · rw [hy] at htrim
      obtain ⟨us, rfl, hus⟩ := htrim.exists_opening
      obtain ⟨us, vs, rfl, -, hvs⟩ := hus.cut (t := .closing) (by decide) rfl
      exact .inr ⟨us, by rw [hvs.eq_nil]⟩
  · rw [isOperand_trim_iff]
    rintro (⟨n, rfl⟩ | ⟨us, rfl⟩)
    · obtain ⟨g, w, r, rfl, hg, ⟨hw, hn⟩, hr⟩ := h.exists_cons
      exact ⟨g, w, r, rfl, hg, hr.forall_isBlank, isOperand_of_readInt? hw hn⟩
    · obtain ⟨g, _, r, rfl, hg, rfl, hr⟩ := h.exists_cons
      obtain ⟨a, _, b, rfl, -, rfl, hb⟩ := hr.exists_split
      refine ⟨g, '(' :: (a ++ [')']), b, by simp [Token.mark], hg, hb.forall_isBlank,
        .inr ⟨a, rfl, fun hmem => hline (by simp [hmem])⟩⟩

/-- The tokens of a text that starts with an operand start with one of its tokens. -/
theorem Lexes.exists_startsOperand {z r : Text} {ts : List Token} (h : Lexes (z ++ r) ts)
    (hz : IsOperand (trim z)) : ∃ a ∈ ts.head?, a.StartsOperand := by
  obtain ⟨g, x, b, rfl, hg, -, hx⟩ := isOperand_trim_iff.1 hz
  have hlexes : Lexes (x ++ (b ++ r)) ts := by
    rw [← tokens?_eq_some_iff, ← h.tokens?_eq, List.append_assoc, List.append_assoc,
      tokens?_blanks_append hg]
  rcases hx with ⟨hne, hdigits⟩ | ⟨y, rfl, -⟩
  · obtain ⟨c, x, rfl⟩ := List.exists_cons_of_ne_nil hne
    have hc := hlexes.isAsciiDigit_of_isDecimal (by simp) (hdigits c (by simp))
    obtain ⟨n, us, rfl⟩ := Lexes.exists_int hc hlexes
    exact ⟨.int n, rfl, .inl ⟨n, rfl⟩⟩
  · obtain ⟨us, rfl, -⟩ := hlexes.exists_opening
    exact ⟨.opening, rfl, .inr rfl⟩

theorem Lexes.exists_operand_start {s : Text} {ts : List Token} (h : Lexes s ts)
    (hline : '\n' ∉ s) (hclosed : ∀ a b, s = a ++ '(' :: b → ')' ∈ b) {t : Token}
    (ht : t ∈ ts.head?) (hstarts : t.StartsOperand) : ∃ z r, s = z ++ r ∧ IsOperand (trim z) := by
  obtain ⟨us, rfl⟩ : ∃ us, ts = t :: us := ⟨ts.tail, List.eq_cons_of_mem_head? ht⟩
  obtain ⟨g, w, r, rfl, hg, hw, -⟩ := h.exists_cons
  rcases hstarts with ⟨n, rfl⟩ | rfl
  · exact ⟨g ++ w, r, by simp, isOperand_trim_iff.2
      ⟨g, w, [], by simp, hg, by simp, isOperand_of_readInt? hw.1 hw.2⟩⟩
  · obtain rfl : w = ['('] := hw
    obtain ⟨y, r, rfl⟩ := List.append_of_mem (hclosed g r rfl)
    refine ⟨g ++ '(' :: (y ++ [')']), r, by simp, isOperand_trim_iff.2
      ⟨g, '(' :: (y ++ [')']), [], by simp, hg, by simp, .inr ⟨y, rfl, fun hmem => hline ?_⟩⟩⟩
    simp [hmem]

theorem Lexes.exists_operand_end {s : Text} {us : List Token} {t : Token} (h : Lexes s (us ++ [t]))
    (hline : '\n' ∉ s) (hopened : ∀ a b, s = a ++ ')' :: b → '(' ∈ a) (hends : t.EndsOperand) :
    ∃ p x, s = p ++ x ∧ IsOperand (trim x) := by
  obtain ⟨a, w, r, rfl, -, hw, hr⟩ := h.exists_split
  rcases hends with ⟨n, rfl⟩ | rfl
  · exact ⟨a, w ++ r, rfl, isOperand_trim_iff.2
      ⟨[], w, r, rfl, by simp, hr.forall_isBlank, isOperand_of_readInt? hw.1 hw.2⟩⟩
  · obtain rfl : w = [')'] := hw
    obtain ⟨p, y, rfl⟩ := List.append_of_mem (hopened a r rfl)
    refine ⟨p, '(' :: (y ++ ')' :: r), by simp, isOperand_trim_iff.2
      ⟨[], '(' :: (y ++ [')']), r, by simp, by simp, hr.forall_isBlank,
        .inr ⟨y, rfl, fun hmem => hline ?_⟩⟩⟩
    simp [hmem]

/-! ## The look of an expression -/

/-- **Which expressions on one line look like a conditional**: between a question mark and a colon
behind it stands an integer or what a parenthesis opens and one closes, and the colon stands before
an integer or a parenthesis that opens.  What stands before the question mark makes no
difference. -/
theorem Derives.looksTernary_iff {t : Tree} (h : Derives .ternary t) {s : Text}
    (hs : Lexes s t.tokens) (hline : '\n' ∉ s) : LooksTernary s ↔
      ∃ us ms ws, t.tokens = us ++ .question :: (ms ++ .colon :: ws) ∧ AreOperand ms ∧
        ∃ a ∈ ws.head?, a.StartsOperand := by
  constructor
  · rintro ⟨p, x, y, z, r, rfl, -, hy, hz⟩
    rw [← List.append_assoc] at hs
    obtain ⟨us, vs, htokens, -, hvs⟩ := hs.cut (t := .question) (by decide) rfl
    obtain ⟨ms, ws, rfl, hms, hws⟩ := hvs.cut (t := .colon) (by decide) rfl
    have hbranch := (hms.isOperand_iff fun hmem => hline (by simp [hmem])).1 hy
    exact ⟨us, ms, ws, htokens, hbranch, hws.exists_startsOperand hz⟩
  · rintro ⟨us, ms, ws, htokens, hms, a, ha, hstarts⟩
    -- the parenthesis at the end of the first operand has been opened on the line, and the one at
    -- the start of the last is closed on it
    have hbalanced := h.isBalanced hs
    obtain ⟨us', e, rfl, hends⟩ := h.endsOperand_of_question htokens
    rw [htokens] at hs
    obtain ⟨d, _, b, rfl, hd, rfl, hb⟩ := hs.exists_split
    obtain ⟨y, _, c, rfl, hy, rfl, hc⟩ := hb.exists_split
    simp only [Token.mark, String.reduceToList, List.cons_append, List.nil_append] at hbalanced hline
    obtain ⟨p, x, rfl, hx⟩ := hd.exists_operand_end (fun hmem => hline (by simp [hmem]))
      (fun u v huv => by
        rw [huv, List.append_assoc, List.cons_append] at hbalanced
        exact hbalanced.mem_opening) hends
    obtain ⟨z, r, rfl, hz⟩ := hc.exists_operand_start (fun hmem => hline (by simp [hmem]))
      (fun u v huv => by
        rw [huv, ← List.cons_append, ← List.append_assoc, ← List.cons_append, ← List.append_assoc]
          at hbalanced
        exact hbalanced.mem_closing) ha hstarts
    exact ⟨p, x, y, z, r, by simp [Token.mark], hx,
      (hy.isOperand_iff fun hmem => hline (by simp [hmem])).2 hms, hz⟩

end Fold

/-! ## Folding -/

open Fold in
/-- **Which expressions are folded**: of the texts that the grammar gives a value, those that look
like a conditional; all others are left as they are. -/
theorem fold?_of_evaluate? {s : Text} {ts : List Token} {v : Int} (hts : tokens? s = some ts)
    (hv : evaluate? ts = some v) :
    fold? s = (if hasTernary s then some v else none) ∧ (hasTernary s = true ↔ LooksTernary s) ∧
    ('\n' ∉ s → (hasTernary s = true ↔
      ∃ us ms ws, ts = us ++ .question :: (ms ++ .colon :: ws) ∧ AreOperand ms ∧
        ∃ a ∈ ws.head?, a.StartsOperand)) := by
  obtain ⟨t, ht, -, rfl⟩ := (evaluate?_eq_some_iff.1 hv).exists_derives
  have hlexes := tokens?_eq_some_iff.1 hts
  refine ⟨?_, hasTernary_iff, fun hline => ?_⟩
  · rw [fold?, hts, Option.bind_some, hv]
  · rw [hasTernary_iff, ht.looksTernary_iff hlexes hline]

open Fold in
theorem fold?_of_evaluate?_group :
    (tokens? "(8 >= 6) ? (7 - 2) : 60 / 4".toList).bind evaluate? = some 5 ∧
      fold? "(8 >= 6) ? (7 - 2) : 60 / 4".toList = some 5 := by
  have hts : tokens? "(8 >= 6) ? (7 - 2) : 60 / 4".toList =
      some [.opening, .int 8, .ge, .int 6, .closing, .question, .opening, .int 7, .minus, .int 2,
        .closing, .colon, .int 60, .slash, .int 4] := by
    decide +kernel
  have hv : (tokens? "(8 >= 6) ? (7 - 2) : 60 / 4".toList).bind evaluate? = some 5 := by
    decide +kernel
  refine ⟨hv, ?_⟩
  rw [hts, Option.bind_some] at hv
  obtain ⟨hfold, -, hlook⟩ := fold?_of_evaluate? hts hv
  rw [hfold, if_pos ((hlook (by decide +kernel)).2 ⟨[.opening, .int 8, .ge, .int 6, .closing],
    [.opening, .int 7, .minus, .int 2, .closing], [.int 60, .slash, .int 4], rfl,
    .inr ⟨[.int 7, .minus, .int 2], rfl⟩, .int 60, rfl, .inl ⟨60, rfl⟩⟩)]

open Fold in
/-- A first branch with a sign, and one that is a sum. -/
theorem fold?_negativeBranch :
    ((tokens? "(1 > 0) ? -1 : 2".toList).bind evaluate? = some (-1) ∧
      hasTernary "(1 > 0) ? -1 : 2".toList = false ∧ fold? "(1 > 0) ? -1 : 2".toList = none) ∧
    (tokens? "(1 > 0) ? 1 + 2 : 3".toList).bind evaluate? = some 3 ∧
      hasTernary "(1 > 0) ? 1 + 2 : 3".toList = false ∧
      fold? "(1 > 0) ? 1 + 2 : 3".toList = none := by
  decide +kernel

end TableSync
