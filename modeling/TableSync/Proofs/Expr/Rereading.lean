import TableSync.Proofs.Expr.Branches

/-!
# Reading a conditional again from its literal

A conditional that was found in a text is written as its literal, and is looked for in it again.
The literal has no parentheses around its branches, so two things can go wrong that the text had
kept apart: a colon in the first branch can end it, and the end of the second branch can be taken
for the amount.

* `Conditional.isFound_of_find?` says what every conditional is like that was found in a text.
  Nothing else about the text is used.
* `amountAtEnd?_mark` says that the second branch alone decides whether a literal without an amount
  seems to end in one, since the mark before it ends the search from the end of the text.
* `Conditional.find?_literal_iff_of_amount` is about a literal with an amount: the parenthesis
  before the amount ends the second branch, so only the first can be mistaken.
* `Conditional.find?_literal_iff_of_nothing` is about one without.  If the second branch seems to
  end in an amount, the conditional is looked for in what precedes that, and only where none is
  found there in the whole literal again; `Conditional.not_eq_of_body` says that what is found
  before it is another conditional.
* `Conditional.find?_literal_iff` says which conditionals are found again as they were, and
  `Conditional.find?_literal` that those are that are `WellFormed`.
* `Conditional.resolve?_rereading` draws the conclusion for the values: what is found again is
  decided by every table as before.
-/

set_option autoImplicit false

namespace TableSync

/-! ## Branches that were read from a text -/

namespace Value

theorem isBranch_scalar {s : Text} (hs : '\n' ∉ trim s) : (scalar s).IsBranch := by
  rw [scalar]
  cases h : readInt? (trim s) with
  | some n => exact isInt64_of_readInt? h
  | none =>
    have htext : (String.ofList (trim s)).toList = trim s := String.toList_ofList
    exact ⟨⟨htext.symm ▸ isTrimmed_trim s, htext.symm ▸ hs⟩, htext.symm ▸ h⟩

/-- A branch with a character that no integer is written with is the text it was read from. -/
theorem trim_eq_branchText {s : Text} {c : Char} (hc : c ∈ (scalar s).branchText)
    (hw : isWordChar c = false) (hm : c ≠ '-') : trim s = (scalar s).branchText := by
  rw [scalar] at hc ⊢
  cases h : readInt? (trim s) with
  | some n =>
    rw [h] at hc
    exact absurd hc ((isToken_showInt n).notMem hw hm)
  | none => exact String.toList_ofList.symm

theorem branchText_scalar_eq_nil {s : Text} : (scalar s).branchText = [] ↔ trim s = [] := by
  rw [scalar]
  cases h : readInt? (trim s) with
  | some n =>
    refine iff_of_false (showInt_ne_nil n) fun hempty => ?_
    rw [hempty] at h
    exact absurd h (by simp [readInt?, digitsValue?])
  | none =>
    have htext : (ofText (trim s)).branchText = trim s := String.toList_ofList
    rw [htext]

end Value

namespace Conditional

/-- A conditional as it is read from a text. -/
structure IsFound (e : Conditional) : Prop where
  /-- The left operand is a word. -/
  left : IsWord e.left.toList
  /-- The right operand is a word. -/
  right : IsWord e.right.toList
  /-- The first branch is one that is read from a text. -/
  whenTrue : e.whenTrue.IsBranch
  /-- The second branch is one that is read from a text. -/
  whenFalse : e.whenFalse.IsBranch
  /-- Nothing closes in the second branch behind its first character. -/
  opened : ')' ∉ e.whenFalse.branchText.drop 1
  /-- One amount at most is given, and it is not negative. -/
  amounts : AreAmounts e.toAdd e.toSubtract
  /-- Behind an empty second branch there is no amount. -/
  closed : e.whenFalse.branchText = [] → e.toAdd = 0 ∧ e.toSubtract = 0

/-- An amount is not negative. -/
theorem isNatInt64_of_isAmount {sign : Char} {digits s : Text} {n : Int}
    (h : IsAmount sign digits s) (hn : readInt? digits = some n) : 0 ≤ n ∧ IsInt64 n := by
  obtain ⟨g, g', b, -, -, -, -, -, hne, hdecimal, -⟩ := h
  refine ⟨?_, isInt64_of_readInt? hn⟩
  unfold readInt? at hn
  split at hn
  · exact absurd (hdecimal '+' List.mem_cons_self) (by decide)
  · exact absurd (hdecimal '-' List.mem_cons_self) (by decide)
  · obtain ⟨m, -, hm⟩ := Option.bind_eq_some_iff.1 hn
    obtain ⟨rfl, -⟩ := int64?_eq_some_iff.1 hm
    exact Int.natCast_nonneg m

theorem areAmounts_of_isTail {s : Text} {toAdd toSubtract : Int} (h : IsTail s toAdd toSubtract) :
    AreAmounts toAdd toSubtract := by
  have hcases : ∀ n : Int, 0 ≤ n ∧ IsInt64 n → n = 0 ∨ 0 < n ∧ IsInt64 n := by
    rintro n ⟨hle, hn⟩
    rcases Int.lt_or_eq_of_le hle with hlt | heq
    · exact .inr ⟨hlt, hn⟩
    · exact .inl heq.symm
  cases h with
  | nothing h => exact .inl ⟨rfl, rfl⟩
  | added h hn =>
    rcases hcases _ (isNatInt64_of_isAmount h hn) with rfl | hpos
    · exact .inl ⟨rfl, rfl⟩
    · exact .inr (.inl ⟨hpos.1, hpos.2, rfl⟩)
  | taken h hn =>
    rcases hcases _ (isNatInt64_of_isAmount h hn) with rfl | hpos
    · exact .inl ⟨rfl, rfl⟩
    · exact .inr (.inr ⟨rfl, hpos⟩)

variable {e : Conditional}

/-- What a cut says of the conditional that is cut out, but for an empty second branch. -/
theorem Cut.isFound {t : Text} (c : e.Cut t)
    (hclosed : e.whenFalse.branchText = [] → e.toAdd = 0 ∧ e.toSubtract = 0) : e.IsFound := by
  obtain ⟨-, -, -, -, -, hl, hr, -⟩ := c.isHead
  refine ⟨hl, hr, c.whenTrue ▸ Value.isBranch_scalar c.first_line,
    c.whenFalse ▸ Value.isBranch_scalar c.second_line, fun hmem => c.second_open ?_,
    areAmounts_of_isTail c.isTail, hclosed⟩
  have hparen := List.mem_of_mem_drop hmem
  rw [c.whenFalse] at hparen hmem
  rwa [Value.trim_eq_branchText hparen (by decide) (by decide)]

/-- What is cut out of a text on one line, of which the last character is not blank, has a second
branch. -/
theorem Cut.second_branch_ne_nil {t : Text} (c : e.Cut t) (hc : c.tail = []) (hline : '\n' ∉ t)
    (hlast : ∀ x ∈ t.getLast?, isBlank x = false) : e.whenFalse.branchText ≠ [] := by
  rw [c.whenFalse, Ne, Value.branchText_scalar_eq_nil]
  intro hempty
  have ht := c.eq_append
  rw [hc, List.append_nil] at ht
  rcases c.second_blank hempty with hafter | hafter
  · obtain ⟨u, x, hx⟩ := (List.eq_nil_or_concat c.second).resolve_left c.second_ne_nil
    rw [List.concat_eq_append] at hx
    have hopen : isBlank x = false := hlast x (by
      rw [ht, hafter, hx]
      simp [List.getLast?_append, List.getLast?_cons])
    have hmem : x ∈ trim c.second := (mem_trim_iff hopen c.second).2 (by simp [hx])
    rw [hempty] at hmem
    exact absurd hmem (by simp)
  · refine hline ?_
    rw [ht]
    simp [hafter]

theorem isFound_of_find? {t : Text} (h : find? t = some e) : e.IsFound := by
  rcases find?_cases h with hin | ⟨body, isAdded, digits, e', n, hamount, hin, hn, rfl⟩
  · obtain ⟨⟨c, -⟩, hadd, hsub⟩ := exists_cut_of_conditionalIn? hin
    exact c.isFound fun _ => ⟨hadd, hsub⟩
  · obtain ⟨tail, rfl, htail, hline, hlast⟩ := exists_of_amountAtEnd? hamount
    obtain ⟨⟨c, hc⟩, hadd, hsub⟩ := exists_cut_of_conditionalIn? hin
    have hne := c.second_branch_ne_nil hc hline hlast
    have hfound : e'.IsFound := c.isFound fun hempty => absurd hempty hne
    cases isAdded with
    | true =>
      rw [if_pos rfl, hsub]
      exact { hfound with
        amounts := areAmounts_of_isTail (.added htail hn)
        closed := fun hempty => absurd hempty hne }
    | false =>
      rw [if_neg (by decide), hadd]
      exact { hfound with
        amounts := areAmounts_of_isTail (.taken htail hn)
        closed := fun hempty => absurd hempty hne }

end Conditional

/-! ## What seems to be an amount

The amount is looked for from the end of the text: digits, blanks, a sign and blanks again.  Any
other character on the way ends the search. -/

theorem head?_append_eq_false {p : Char → Bool} {u v : Text} (hu : ∀ c ∈ u.head?, p c = false)
    (hv : ∀ c ∈ v.head?, p c = false) : ∀ c ∈ (u ++ v).head?, p c = false := by
  cases u with
  | nil => exact hv
  | cons d u => exact hu

/-- A mark that is no part of an amount ends the search for one from the end of the text. -/
theorem amountAtEnd?_mark {p s : Text} {c : Char} (hb : isBlank c = false)
    (hd : isDecimal c = false) (hplus : c ≠ '+') (hminus : c ≠ '-') (hline : '\n' ∉ p) :
    amountAtEnd? (p ++ c :: s) =
      (amountAtEnd? s).map fun (body, isAdded, digits) => (p ++ c :: body, isAdded, digits) := by
  obtain ⟨b, r, hs, hblank, hr⟩ := exists_run isBlank s.reverse
  obtain ⟨d, r, rfl, hdigits, hr'⟩ := exists_run isDecimal r
  obtain ⟨g', r, rfl, hg', hr''⟩ := exists_run isBlank r
  have hrev : (p ++ c :: s).reverse = b ++ (d ++ (g' ++ (r ++ c :: p.reverse))) := by
    simp [hs]
  have hbc : ∀ x ∈ (c :: p.reverse).head?, isBlank x = false := by simpa using hb
  have hdc : ∀ x ∈ (c :: p.reverse).head?, isDecimal x = false := by simpa using hd
  have hdrop : ∀ q, (∀ x ∈ q.head?, isBlank x = false) → (b ++ q).dropWhile isBlank = q :=
    fun q hq => (trimStart_blanks_append hblank).trans (trimStart_eq_self hq)
  have hshape : d ++ (g' ++ (r ++ c :: p.reverse)) = (d ++ (g' ++ r)) ++ c :: p.reverse := by simp
  have hshape' : g' ++ (r ++ c :: p.reverse) = (g' ++ r) ++ c :: p.reverse := by simp
  rw [amountAtEnd?, amountAtEnd?, hrev, hs, hdrop _ hr,
    hdrop _ (hshape ▸ head?_append_eq_false hr hbc),
    span_append hdigits (hshape' ▸ head?_append_eq_false hr' hdc), span_append hdigits hr']
  simp only [span_append hg' hr'', span_append hg' (head?_append_eq_false hr'' hbc)]
  cases r with
  | nil => simp [hplus, hminus]
  | cons sign r =>
    obtain ⟨g, r, rfl, hg, hr₃⟩ := exists_run isBlank r
    have hcn : '\n' ≠ c := by
      rintro rfl
      exact absurd hb (by decide)
    simp only [List.cons_append, List.append_assoc, span_append hg hr₃,
      span_append hg (head?_append_eq_false hr₃ hbc)]
    by_cases hcond : (sign = '+' ∨ sign = '-') ∧ d ≠ [] ∧ g' ≠ [] ∧ g ≠ [] ∧ '\n' ∉ r
    · rw [if_pos hcond, if_pos (by simpa [hcn, hline] using hcond)]
      simp
    · rw [if_neg hcond, if_neg (by simpa [hcn, hline] using hcond)]
      rfl

theorem IsAmount.length_gt {sign : Char} {digits s : Text}
    (h : IsAmount sign digits s) : 3 < s.length := by
  obtain ⟨g, g', b, rfl, hg, -, hg', -, hd, -⟩ := h
  have := List.length_pos_iff.2 hg
  have := List.length_pos_iff.2 hg'
  have := List.length_pos_iff.2 hd
  simp only [List.length_append, List.length_cons]
  omega

/-- A blank stands behind the sign of an amount. -/
theorem IsAmount.exists_blank {sign : Char} {digits s : Text} (h : IsAmount sign digits s) :
    ∃ u c v, s = u ++ c :: v ∧ u ≠ [] ∧ isBlank c = true := by
  obtain ⟨g, g', b, rfl, -, -, hg', hblank, -⟩ := h
  cases g' with
  | nil => exact absurd rfl hg'
  | cons c g' =>
    exact ⟨g ++ [sign], c, g' ++ (digits ++ b), by simp, by simp, hblank c List.mem_cons_self⟩

/-- An amount behind one character has a blank in it, behind its sign. -/
theorem exists_blank_of_amountAtEnd? {c : Char} {s : Text} {found : Text × Bool × Text}
    (h : amountAtEnd? (c :: s) = some found) : ∃ x ∈ s, isBlank x = true := by
  obtain ⟨body, isAdded, digits⟩ := found
  obtain ⟨tail, hs, htail, -⟩ := exists_of_amountAtEnd? h
  obtain ⟨u, x, v, rfl, hu, hblank⟩ := htail.exists_blank
  refine ⟨x, ?_, hblank⟩
  exact mem_drop_of_append (w := c :: s) (hs.trans (List.append_assoc body u (x :: v)).symm)
    (List.append_ne_nil_of_right_ne_nil body hu) List.mem_cons_self

/-- A number at the end of a text after a sign between blanks is an amount. -/
theorem amountAtEnd?_amount {t : Text} {c sign : Char} {n : Nat} (hc : isBlank c = false)
    (ht : '\n' ∉ t ++ [c]) (hs : sign = '+' ∨ sign = '-') :
    amountAtEnd? (t ++ c :: ' ' :: sign :: ' ' :: showNat n) =
      some (t ++ [c], decide (sign = '+'), showNat n) := by
  have hrev : (t ++ c :: ' ' :: sign :: ' ' :: showNat n).reverse =
      (showNat n).reverse ++ ' ' :: sign :: ' ' :: c :: t.reverse := by simp
  have hdigit : ∀ x ∈ (showNat n).reverse, isAsciiDigit x = true := fun x hx =>
    isAsciiDigit_of_mem_showNat (List.mem_reverse.1 hx)
  have hstart : ((showNat n).reverse ++ ' ' :: sign :: ' ' :: c :: t.reverse).dropWhile isBlank =
      (showNat n).reverse ++ ' ' :: sign :: ' ' :: c :: t.reverse := by
    cases hr : (showNat n).reverse with
    | nil => exact absurd (List.reverse_eq_nil_iff.1 hr) (showNat_ne_nil n)
    | cons d s =>
      have hd : isAsciiDigit d = true := hdigit d (hr ▸ List.mem_cons_self)
      rw [List.cons_append, List.dropWhile_cons,
        isBlank_eq_false (isWordChar_of_isAsciiDigit hd)]
      rfl
  have hsign : isBlank sign = false := by rcases hs with rfl | rfl <;> rfl
  have hdigits : ((showNat n).reverse ++ ' ' :: sign :: ' ' :: c :: t.reverse).span isDecimal =
      ((showNat n).reverse, ' ' :: sign :: ' ' :: c :: t.reverse) :=
    span_append (fun x hx => isDecimal_of_isAsciiDigit (hdigit x hx))
      (by simp [isDecimal, isAsciiDigit])
  have hgap : (' ' :: sign :: ' ' :: c :: t.reverse).span isBlank =
      ([' '], sign :: ' ' :: c :: t.reverse) :=
    span_append (w := [' ']) (by simp [isBlank]) (by simpa using hsign)
  have hgap' : (' ' :: c :: t.reverse).span isBlank = ([' '], c :: t.reverse) :=
    span_append (w := [' ']) (by simp [isBlank]) (by simpa using hc)
  have hline : '\n' ∉ c :: t.reverse := by
    simpa [and_comm] using ht
  rw [amountAtEnd?, hrev, hstart]
  simp only [hdigits, hgap, hgap']
  rw [if_pos ⟨hs, by simpa using showNat_ne_nil n, by simp, by simp, hline⟩]
  simp

/-! ## The literal

Behind its question mark a conditional is what its branches are, so reading a literal again comes
down to reading its branches; `ReadsBack` says when they are read as they are. -/

namespace Conditional

/-- The comparison with the question mark, as it is written. -/
def question (e : Conditional) : Text :=
  e.left.toList ++ (' ' :: (e.comparison.text.toList ++ ' ' :: (e.right.toList ++ " ?".toList)))

variable {e : Conditional}

theorem base_eq_question (e : Conditional) :
    e.base = e.question ++ ' ' :: (e.whenTrue.branchText ++ " :".toList)
      ++ ' ' :: e.whenFalse.branchText := by
  simp [base, question]

theorem notMem_question (hl : IsWord e.left.toList) (hr : IsWord e.right.toList) {x : Char}
    (hx : isWordChar x = false) (hm : x ≠ '-') (hcomparison : ∀ c : Comparison, x ∉ c.text.toList)
    (hmark : x ∉ " ?".toList) : x ∉ e.question := by
  have hspace : x ≠ ' ' := by
    rintro rfl
    exact hmark (by decide)
  simp only [question, List.mem_append, List.mem_cons, not_or]
  exact ⟨hl.isToken.notMem hx hm, hspace, hcomparison e.comparison, hspace,
    hr.isToken.notMem hx hm, hmark⟩

/-- Behind its question mark a conditional is what its branches are. -/
theorem conditionalIn?_question (hl : IsWord e.left.toList) (hr : IsWord e.right.toList)
    {s x y : Text} (hs : branches s = some (x, y)) :
    conditionalIn? false (e.question ++ s) =
      some { e.bare with whenTrue := .scalar x, whenFalse := .scalar y } := by
  have hshape : e.question ++ s = e.left.toList ++ (' ' :: (e.comparison.text.toList ++
      ' ' :: (e.right.toList ++ (" ?".toList ++ s)))) := by
    simp [question]
  have hquestion : afterQuestion? (" ?".toList ++ s) = some s := rfl
  have hat : conditionalAt? (e.question ++ s) =
      some { e.bare with whenTrue := .scalar x, whenFalse := .scalar y } := by
    rw [hshape, conditionalAt?, wordAt?_word hl (by simp [isWordChar_space])]
    simp only [Option.bind_eq_bind, Option.bind_some]
    rw [comparisonAt?_text]
    simp only [Option.bind_some]
    rw [wordAt?_blank_word hr (by simp [isWordChar_space])]
    simp only [Option.bind_some]
    rw [hquestion, Option.bind_some, hs]
    simp only [Option.bind_some, String.ofList_toList]
    rfl
  obtain ⟨hne, hall⟩ := hl
  cases hw : e.left.toList with
  | nil => exact absurd hw hne
  | cons c w =>
    have hc : isWordChar c = true := hall c (hw ▸ List.mem_cons_self)
    rw [question, hw, List.cons_append, List.cons_append] at hat ⊢
    rw [conditionalIn?, hc, hat]
    rfl

/-- The branches that are read from the base, before what may end it, are those of the conditional
exactly if no colon ends the first of them early. -/
theorem exists_conditionalIn?_base (h : e.IsFound) {tail : Text} (htail : IsEnding tail)
    (hne : e.whenFalse.branchText = [] → tail = []) :
    ∃ x y, conditionalIn? false (e.base ++ tail) =
        some { e.bare with whenTrue := .scalar x, whenFalse := .scalar y } ∧
      (Value.scalar x = e.whenTrue ∧ Value.scalar y = e.whenFalse ↔
        EndsAtColon e.whenTrue.branchText e.whenFalse.branchText tail) := by
  have hx := h.whenTrue.isBranchText
  have hy := h.whenFalse.isBranchText
  have hshape : e.base ++ tail = e.question ++
      ' ' :: (e.whenTrue.branchText ++ (" : ".toList ++ (e.whenFalse.branchText ++ tail))) := by
    simp [base, question]
  have hsecond := secondBranch_text hy.isTrimmed hy.line h.opened htail hne
  have hsome : (branches (' ' :: (e.whenTrue.branchText ++
      (" : ".toList ++ (e.whenFalse.branchText ++ tail))))).isSome = true := by
    have hu : '\n' ∉ e.whenTrue.branchText ++ [' '] := by simp [hx.line]
    have := branches_isSome hu (Option.isSome_of_eq_some hsecond)
    rwa [List.append_assoc] at this
  obtain ⟨⟨x, y⟩, hxy⟩ := Option.isSome_iff_exists.1 hsome
  refine ⟨x, y, hshape ▸ conditionalIn?_question h.left h.right hxy, ?_, fun hends => ?_⟩
  -- A colon that ends the first branch earlier gives another first branch, even when trimmed.
  · rintro ⟨hxv, -⟩
    by_contra hends
    refine trim_ne_of_branches hx hy htail hends hxy ?_
    by_cases hempty : e.whenTrue.branchText = []
    · rw [hempty]
      rw [← hxv] at hempty
      exact Value.branchText_scalar_eq_nil.1 hempty
    · have hcolon : ':' ∈ e.whenTrue.branchText := by
        by_contra hmem
        exact hends ⟨fun hdrop => hmem (List.mem_of_mem_drop hdrop), fun hnil => absurd hnil hempty⟩
      rw [← hxv] at hcolon ⊢
      exact Value.trim_eq_branchText hcolon (by decide) (by decide)
  · rw [branches_text hx hy h.opened htail hne hends] at hxy
    obtain ⟨rfl, rfl⟩ : e.whenTrue.branchText = x ∧ e.whenFalse.branchText = y := by
      simpa using hxy
    exact ⟨h.whenTrue.scalar_branchText, h.whenFalse.scalar_branchText⟩

/-- What stands behind the second branch in the literal. -/
def ending (e : Conditional) : Text := if e.toAdd = 0 ∧ e.toSubtract = 0 then [] else [')']

/-- What the branches have to be like to be read again from the literal.  No colon ends the first
one early, and the second does not end in an amount that the literal would have without it: only
where nothing at all is left of the second branch without that amount, and where the first holds
no colon, the conditional is still looked for in the whole literal. -/
structure ReadsBack (e : Conditional) : Prop where
  /-- No colon ends the first branch early. -/
  branches : EndsAtColon e.whenTrue.branchText e.whenFalse.branchText e.ending
  /-- Without an amount, the second branch does not end in one; or else it is nothing but that, and
  no colon stands in the first. -/
  amount : e.toAdd = 0 → e.toSubtract = 0 →
    ∀ found ∈ amountAtEnd? (' ' :: e.whenFalse.branchText),
      found.1 = [] ∧ ':' ∉ e.whenTrue.branchText

/-- A conditional in parentheses with an amount behind them. -/
theorem find?_amount {t : Text} (ht : '\n' ∉ t) {found : Conditional}
    (hin : conditionalIn? false (t ++ [')']) = some found) {sign : Char}
    (hs : sign = '+' ∨ sign = '-') {n : Nat} (hn : IsInt64 n) :
    find? ('(' :: (t ++ [')']) ++ ' ' :: sign :: ' ' :: showNat n) =
      some (if sign = '+' then { found with toAdd := n } else { found with toSubtract := n }) := by
  have hamount := amountAtEnd?_amount (t := '(' :: t) (c := ')') (n := n) rfl (by simp [ht]) hs
  have hshape : '(' :: (t ++ [')']) ++ ' ' :: sign :: ' ' :: showNat n =
      '(' :: t ++ ')' :: ' ' :: sign :: ' ' :: showNat n := by simp
  have hbody : conditionalIn? false ('(' :: t ++ [')']) = some found := by
    have hparen : isWordChar '(' = false := by decide
    rw [List.cons_append, conditionalIn?, hparen]
    exact hin
  rw [find?, hshape, hamount]
  simp only [hbody, readInt?_showNat hn, Option.map_some]
  rcases hs with rfl | rfl <;> rfl

theorem IsFound.notMem_question (h : e.IsFound) : '\n' ∉ e.question ∧ ':' ∉ e.question :=
  ⟨Conditional.notMem_question h.left h.right (by decide) (by decide)
      (fun c => by cases c <;> decide) (by decide),
    Conditional.notMem_question h.left h.right (by decide) (by decide)
      (fun c => by cases c <;> decide) (by decide)⟩

theorem IsFound.notMem_base (h : e.IsFound) : '\n' ∉ e.base := by
  rw [base_eq_question]
  simp [h.notMem_question.1, h.whenTrue.isBranchText.line, h.whenFalse.isBranchText.line]

theorem eq_iff_branches {v w : Value} :
    ({ e with whenTrue := v, whenFalse := w } : Conditional) = e ↔
      v = e.whenTrue ∧ w = e.whenFalse := by
  obtain ⟨l, c, r, t, f, a, s⟩ := e
  simp

/-- With an amount, only the end of the first branch can be mistaken. -/
theorem find?_literal_iff_of_amount (h : e.IsFound)
    (hamount : ¬ (e.toAdd = 0 ∧ e.toSubtract = 0)) :
    find? e.literal = some e ↔
      EndsAtColon e.whenTrue.branchText e.whenFalse.branchText [')'] := by
  obtain ⟨x, y, hin, hiff⟩ := exists_conditionalIn?_base h (.inr rfl)
    fun hempty => absurd (h.closed hempty) hamount
  rw [← hiff, ← eq_iff_branches, literal_eq]
  rcases h.amounts with hnone | ⟨hpos, hn, hzero⟩ | ⟨hzero, hpos, hn⟩
  · exact absurd hnone hamount
  · obtain ⟨n, hadd⟩ := Int.eq_ofNat_of_zero_le (Int.le_of_lt hpos)
    have hfound := find?_amount h.notMem_base hin (.inl rfl) (hadd ▸ hn)
    have hshow : showInt e.toAdd = showNat n := by rw [hadd]; rfl
    rw [if_pos (Int.ne_of_gt hpos), hshow]
    refine (iff_of_eq (congrArg (· = some e) hfound)).trans ?_
    rw [Option.some.injEq, if_pos rfl, bare, ← hadd, ← hzero]
  · obtain ⟨n, hsub⟩ := Int.eq_ofNat_of_zero_le (Int.le_of_lt hpos)
    have hfound := find?_amount h.notMem_base hin (.inr rfl) (hsub ▸ hn)
    have hshow : showInt e.toSubtract = showNat n := by rw [hsub]; rfl
    rw [if_neg (not_not.2 hzero), if_pos (Int.ne_of_gt hpos), hshow]
    refine (iff_of_eq (congrArg (· = some e) hfound)).trans ?_
    rw [Option.some.injEq, if_neg (by decide), bare, ← hsub, ← hzero]

/-! ### Without an amount -/

/-- No conditional is found where the only colon has nothing behind it. -/
theorem conditionalIn?_eq_none {t : Text} (h : ':' ∉ t) :
    conditionalIn? false (t ++ [':']) = none := by
  cases hin : conditionalIn? false (t ++ [':']) with
  | none => rfl
  | some e =>
    obtain ⟨⟨c, hc⟩, -⟩ := exists_cut_of_conditionalIn? hin
    have ht := c.eq_append
    obtain ⟨s, d, hs⟩ := (List.eq_nil_or_concat (c.second ++ (c.after ++ c.tail))).resolve_left
      fun hnil => c.second_ne_nil (List.append_eq_nil_iff.1 hnil).1
    refine absurd ?_ h
    rw [hs, List.concat_eq_append, ← List.cons_append, ← List.append_assoc, ← List.append_assoc,
      ← List.append_assoc] at ht
    rw [(List.append_inj' ht rfl).1]
    simp

/-- Two branches are read up to a point after the colon exactly if anything stands behind a
colon. -/
theorem branches_body_isSome {x b : Text} (hx : '\n' ∉ x) (hb : '\n' ∉ b)
    (hlast : ∀ c ∈ b.getLast?, isBlank c = false) (h : ¬ (b = [] ∧ ':' ∉ x)) :
    (branches (' ' :: (x ++ " :".toList ++ b))).isSome = true := by
  by_cases hcolon : ':' ∈ x
  · obtain ⟨u, w, rfl⟩ := List.append_of_mem hcolon
    simp only [List.mem_append, List.mem_cons, not_or] at hx
    have hw : (secondBranch (w ++ (" :".toList ++ b))).isSome = true :=
      secondBranch_isSome (c := ':') (by simp) (by decide) (by
        simp only [List.mem_append, not_or]
        exact ⟨hx.2.2, by decide, hb⟩)
    have := branches_isSome hx.1 hw
    simpa using this
  · obtain ⟨b', c, rfl⟩ := (List.eq_nil_or_concat b).resolve_left fun hnil => h ⟨hnil, hcolon⟩
    rw [List.concat_eq_append] at hb hlast ⊢
    have hw : (secondBranch (b' ++ [c])).isSome = true :=
      secondBranch_isSome (c := c) (by simp) (hlast c (by simp)) hb
    have := branches_isSome (u := x ++ [' ']) (by simp [hx]) hw
    simpa using this

/-- A text that goes on after the second branch was cut short is not read as it was: either its
first branch is longer than what was read for it, or its second is. -/
theorem not_eq_of_body {x y b tail x' y' : Text} (hy : ' ' :: y = b ++ tail)
    (htail : 3 < tail.length)
    (hxy : branches (' ' :: (x ++ " :".toList ++ b)) = some (x', y'))
    (hcolon : ':' ∈ x → trim x' = x) : trim y' ≠ y := by
  rintro rfl
  obtain ⟨first, r, hs, hfirst, -, hsecond⟩ := exists_of_branches hxy
  obtain ⟨second, after, rfl, hsecond', -⟩ := exists_of_secondBranch hsecond
  have hle := length_trim_le second
  have hle' := length_trim_le first
  have hlen := congrArg List.length hs
  have hlen' := congrArg List.length hy
  simp only [List.length_cons, List.length_append, String.reduceToList, List.length_nil]
    at hlen hlen'
  rw [hsecond'] at hle
  rw [← hsecond', trim_trim, hsecond'] at hlen'
  rw [← hfirst, trim_trim, hfirst] at hcolon
  rw [hfirst] at hle'
  have hshort : first.length < x.length := by omega
  have hmem : ':' ∈ x := by
    rw [List.append_assoc, ← List.cons_append] at hs
    rcases List.append_eq_append_iff.1 hs with ⟨u, rfl, -⟩ | ⟨u, hu, hu'⟩
    · rw [List.length_append, List.length_cons] at hshort
      omega
    · cases u with
      | nil =>
        rw [List.append_nil] at hu
        rw [← hu, List.length_cons] at hshort
        omega
      | cons c u =>
        obtain rfl : ':' = c := (List.cons.inj hu').1
        have hmem : ':' ∈ ' ' :: x := by rw [hu]; simp
        simpa using hmem
  rw [hcolon hmem] at hle'
  omega

/-- What is found before an amount at the end of the second branch has less in its branches. -/
theorem not_eq_of_amountAtEnd? {body digits x y : Text} {isAdded : Bool}
    (hamount : amountAtEnd? (' ' :: e.whenFalse.branchText) = some (body, isAdded, digits))
    (hxy : branches (' ' :: (e.whenTrue.branchText ++ " :".toList ++ body)) = some (x, y)) :
    ¬ (Value.scalar x = e.whenTrue ∧ Value.scalar y = e.whenFalse) := by
  rintro ⟨hx, hy⟩
  obtain ⟨tail, hbody, htail, -⟩ := exists_of_amountAtEnd? hamount
  obtain ⟨c, hc, hblank⟩ := exists_blank_of_amountAtEnd? hamount
  have hword := isWordChar_of_isBlank hblank
  have hminus : c ≠ '-' := by
    rintro rfl
    exact absurd hblank (by decide)
  refine not_eq_of_body hbody htail.length_gt hxy (fun hcolon => ?_) ?_
  · rw [← hx] at hcolon ⊢
    exact Value.trim_eq_branchText hcolon (by decide) (by decide)
  · rw [← hy] at hc ⊢
    exact Value.trim_eq_branchText hc hword hminus

/-- Only the second branch can make the base of a conditional end in an amount. -/
theorem IsFound.amountAtEnd?_base (h : e.IsFound) :
    amountAtEnd? e.base = (amountAtEnd? (' ' :: e.whenFalse.branchText)).map
      fun (body, isAdded, digits) =>
        (e.question ++ ' ' :: (e.whenTrue.branchText ++ " :".toList ++ body), isAdded, digits) := by
  have hshape : ∀ r, e.question ++ ' ' :: (e.whenTrue.branchText ++ " :".toList ++ r) =
      (e.question ++ ' ' :: (e.whenTrue.branchText ++ [' '])) ++ ':' :: r := by
    simp
  have hbase : e.base = e.question ++
      ' ' :: (e.whenTrue.branchText ++ " :".toList ++ ' ' :: e.whenFalse.branchText) := by
    simp [base_eq_question]
  simp only [hbase, hshape]
  refine amountAtEnd?_mark (by decide) (by decide) (by decide) (by decide) ?_
  simp [h.notMem_question.1, h.whenTrue.isBranchText.line]

/-- Without an amount, one may be found at the end of the second branch. -/
theorem find?_literal_iff_of_nothing (h : e.IsFound) (hadd : e.toAdd = 0)
    (hsub : e.toSubtract = 0) :
    find? e.literal = some e ↔
      EndsAtColon e.whenTrue.branchText e.whenFalse.branchText [] ∧
        ∀ found ∈ amountAtEnd? (' ' :: e.whenFalse.branchText),
          found.1 = [] ∧ ':' ∉ e.whenTrue.branchText := by
  have hbare : e.bare = e := by
    obtain ⟨l, c, r, t, f, a, s⟩ := e
    obtain ⟨rfl, rfl⟩ : a = 0 ∧ s = 0 := ⟨hadd, hsub⟩
    rfl
  have hliteral : e.literal = e.base := by
    rw [literal_eq, if_neg (by simp [hadd]), if_neg (by simp [hsub])]
  have hwhole : conditionalIn? false e.base = some e ↔
      EndsAtColon e.whenTrue.branchText e.whenFalse.branchText [] := by
    obtain ⟨x, y, hin, hiff⟩ := exists_conditionalIn?_base h (.inl rfl) fun _ => rfl
    rw [List.append_nil, hbare] at hin
    rw [← hiff, ← eq_iff_branches, hin, Option.some.injEq]
  rw [hliteral, find?, h.amountAtEnd?_base]
  cases hamount : amountAtEnd? (' ' :: e.whenFalse.branchText) with
  | none => simpa using hwhole
  | some found =>
    obtain ⟨body, isAdded, digits⟩ := found
    obtain ⟨tail, -, -, hline, hlast⟩ := exists_of_amountAtEnd? hamount
    simp only [Option.map_some, Option.mem_def, Option.some.injEq, forall_eq']
    by_cases hnothing : body = [] ∧ ':' ∉ e.whenTrue.branchText
    · have hnone : conditionalIn? false
          (e.question ++ ' ' :: (e.whenTrue.branchText ++ " :".toList ++ body)) = none := by
        have hcolon : ':' ∉ e.question ++ ' ' :: (e.whenTrue.branchText ++ [' ']) := by
          simp [h.notMem_question.2, hnothing.2]
        have := conditionalIn?_eq_none hcolon
        rw [hnothing.1]
        simpa using this
      rw [hnone]
      exact hwhole.trans (iff_of_eq (by rw [eq_true hnothing, and_true]))
    · -- a conditional is found before the amount, but not this one
      obtain ⟨⟨x, y⟩, hxy⟩ := Option.isSome_iff_exists.1
        (branches_body_isSome h.whenTrue.isBranchText.line hline hlast hnothing)
      rw [conditionalIn?_question h.left h.right hxy]
      refine iff_of_false (fun heq => ?_) fun hends => hnothing hends.2
      obtain ⟨n, -, heq⟩ := Option.map_eq_some_iff.1 heq
      refine not_eq_of_amountAtEnd? hamount hxy ?_
      cases isAdded <;> exact heq ▸ ⟨rfl, rfl⟩

/-- What was found in a text is found again in its literal exactly if its branches are read from it
as they are. -/
theorem IsFound.readsBack_iff (h : e.IsFound) : find? e.literal = some e ↔ e.ReadsBack := by
  by_cases hamount : e.toAdd = 0 ∧ e.toSubtract = 0
  · have hending : e.ending = [] := if_pos hamount
    rw [find?_literal_iff_of_nothing h hamount.1 hamount.2]
    constructor
    · rintro ⟨hends, hnone⟩
      exact ⟨hending ▸ hends, fun _ _ => hnone⟩
    · intro hreads
      exact ⟨hending ▸ hreads.branches, hreads.amount hamount.1 hamount.2⟩
  · have hending : e.ending = [')'] := if_neg hamount
    rw [find?_literal_iff_of_amount h hamount]
    constructor
    · intro hends
      exact ⟨hending ▸ hends, fun hadd hsub => absurd ⟨hadd, hsub⟩ hamount⟩
    · intro hreads
      exact hending ▸ hreads.branches

/-- **A conditional that was found in a text is found in its literal again exactly if its branches
are read from it as they are.** -/
theorem find?_literal_iff {t : Text} (h : find? t = some e) :
    find? e.literal = some e ↔ e.ReadsBack :=
  (isFound_of_find? h).readsBack_iff

theorem find?_literal_iff_groupedSum :
    find? "(A == B ? C : 5) + 1".toList = some ⟨"A", .eq, "B", .str "C", .int 5, 1, 0⟩ ∧
      (find? (literal ⟨"A", .eq, "B", .str "C", .int 5, 1, 0⟩) =
          some ⟨"A", .eq, "B", .str "C", .int 5, 1, 0⟩ ↔
        ReadsBack ⟨"A", .eq, "B", .str "C", .int 5, 1, 0⟩) := by
  have h : find? "(A == B ? C : 5) + 1".toList =
      some ⟨"A", .eq, "B", .str "C", .int 5, 1, 0⟩ := by decide +kernel
  exact ⟨h, find?_literal_iff h⟩

/-- The amount in a second branch that stood in parentheses is read as that of the whole. -/
theorem find?_literal_sumInBranch :
    ∃ e e', find? "(A == B ? C : D + 5)".toList = some e ∧ find? e.literal = some e' ∧
      e.whenFalse = .str "D + 5" ∧ e.toAdd = 0 ∧ e'.whenFalse = .str "D" ∧ e'.toAdd = 5 := by
  refine ⟨⟨"A", .eq, "B", .str "C", .str "D + 5", 0, 0⟩, ⟨"A", .eq, "B", .str "C", .str "D", 5, 0⟩,
    by decide +kernel, by decide +kernel, rfl, rfl, rfl, rfl⟩

/-! ## Well-formed conditionals -/

theorem WellFormed.isFound (h : e.WellFormed) : e.IsFound where
  left := h.left
  right := h.right
  whenTrue := h.whenTrue.isBranch
  whenFalse := h.whenFalse.isBranch
  opened hmem :=
    h.whenFalse.isToken.notMem (by decide) (by decide) (List.mem_of_mem_drop hmem)
  amounts := h.amounts
  closed hnil := absurd hnil h.whenFalse.isToken.1

/-- The branches of a well-formed conditional hold neither a colon nor a blank. -/
theorem WellFormed.readsBack (h : e.WellFormed) : e.ReadsBack where
  branches :=
    ⟨fun hmem => h.whenTrue.isToken.notMem (by decide) (by decide) (List.mem_of_mem_drop hmem),
      fun hnil => absurd hnil h.whenTrue.isToken.1⟩
  amount _ _ found hfound := by
    obtain ⟨c, hc, hblank⟩ := exists_blank_of_amountAtEnd? hfound
    rw [h.whenFalse.isToken.isBlank_eq_false c hc] at hblank
    exact Bool.noConfusion hblank

/-- **A well-formed conditional is found in its literal.** -/
theorem find?_literal (h : e.WellFormed) : find? e.literal = some e :=
  h.isFound.readsBack_iff.2 h.readsBack

/-- **Writing a well-formed conditional and finding it again loses nothing**: every table of
constants decides what is found as it decides the conditional. -/
theorem resolve?_rereading (h : e.WellFormed) :
    find? e.literal = some e ∧ ∀ constants : ConstantTable,
      ((find? e.literal).bind fun found => found.resolve? constants) = e.resolve? constants := by
  have hfound := find?_literal h
  refine ⟨hfound, fun constants => ?_⟩
  rw [hfound, Option.bind_some]

theorem resolve?_rereading_negativeBranch :
    ∃ e : Conditional, e.WellFormed ∧
      e.literal = "(P_GEN < 6 ? -9223372036854775808 : TYPE_NONE) - 3".toList ∧
      find? e.literal = some e ∧
      ((find? e.literal).bind fun found => found.resolve? [("P_GEN", 5)]) =
        e.resolve? [("P_GEN", 5)] := by
  have h : WellFormed ⟨"P_GEN", .lt, "6", .int (-9223372036854775808), .str "TYPE_NONE", 0, 3⟩ :=
    { left := ⟨by decide, by decide +kernel⟩
      right := ⟨by decide, by decide +kernel⟩
      whenTrue := (by decide : IsInt64 (-9223372036854775808))
      whenFalse := ⟨⟨by decide, by decide +kernel⟩, by decide +kernel⟩
      amounts := .inr (.inr (by decide)) }
  exact ⟨_, h, by decide +kernel, (resolve?_rereading h).1, (resolve?_rereading h).2 _⟩

end Conditional

end TableSync
