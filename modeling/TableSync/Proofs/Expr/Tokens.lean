import TableSync.Proofs.Expr.Cut
import TableSync.Proofs.Expr.Sums

/-!
# The tokens of a text in parts

The tokens of an expression are those of its parts, wherever no token goes from one part to the
next.  Whether one does is seen from the last character of the one part and the first of the other:
two digits belong to one integer, and some pairs of marks to one token.

* `Fold.Splits` says that two characters do not belong together, and `Fold.Separate` that this is so
  where two texts are joined.
* `Fold.tokens?_append` says that the tokens of two such texts after each other are the tokens of
  both.
* `Fold.tokens?_bracketing`, `Fold.tokens?_digits_append` and `Fold.tokens?_comparison_append` give
  the tokens of blanks and parentheses, of integers and of comparisons.
* `Fold.areInt64_tokensFrom` says that the integers among the tokens are of 64 bits, as no other
  numeral has a token.
* `Conditional.Cut.tokens?_eq` gives the tokens of a text by the parts of a conditional in it.  The
  branches are expressions of their own, and `Fold.AreSummand` are the tokens of the amount.
-/

set_option autoImplicit false

namespace TableSync

namespace Fold

/-- No token consists of the one character and the other after it, and no integer either. -/
def Splits (c d : Char) : Prop :=
  double? c d = none ∧ ¬ (isAsciiDigit c = true ∧ isAsciiDigit d = true)

theorem double?_eq_none_left {c : Char} (h : c ∉ ['&', '|', '=', '!', '>', '<']) (d : Char) :
    double? c d = none := by
  unfold double?
  split <;> simp_all

theorem double?_eq_none_right {d : Char} (h : d ∉ ['&', '|', '=']) (c : Char) :
    double? c d = none := by
  unfold double?
  split <;> simp_all

/-- A character that is no digit and starts no token of two characters. -/
theorem splits_left {c : Char} (h : c ∉ ['&', '|', '=', '!', '>', '<'])
    (hc : isAsciiDigit c = false) (d : Char) : Splits c d :=
  ⟨double?_eq_none_left h d, by simp [hc]⟩

/-- A character that is no digit and ends no token of two characters. -/
theorem splits_right {d : Char} (h : d ∉ ['&', '|', '=']) (hd : isAsciiDigit d = false)
    (c : Char) : Splits c d :=
  ⟨double?_eq_none_right h c, by simp [hd]⟩

/-- No token goes from the one text to the other. -/
def Separate (s r : Text) : Prop := ∀ c ∈ s.getLast?, ∀ d ∈ r.head?, Splits c d

/-- Two lists of tokens after each other. -/
def joined (a b : Option (List Token)) : Option (List Token) := a.bind fun us => b.map (us ++ ·)

theorem emit_joined (digits : Text) (a b : Option (List Token)) :
    emit digits (joined a b) = joined (emit digits a) b := by
  cases digits with
  | nil => rfl
  | cons c digits =>
    simp only [emit, joined]
    cases readInt? (c :: digits).reverse <;> cases a <;> cases b <;> simp

theorem joined_cons (t : Token) (a b : Option (List Token)) :
    (joined a b).map (t :: ·) = joined (a.map (t :: ·)) b := by
  cases a <;> cases b <;> rfl

/-- An integer ends before what is no digit. -/
theorem tokensFrom_emit {r : Text} (h : ∀ d ∈ r.head?, isAsciiDigit d = false) (digits : Text) :
    tokensFrom digits r = emit digits (tokensFrom [] r) := by
  match r with
  | [] => rfl
  | [c] =>
    have hc : ¬ isAsciiDigit c = true := by simp [h c rfl]
    rw [tokensFrom, tokensFrom, if_neg hc, if_neg hc]
    split <;> rfl
  | c :: d :: r =>
    have hc : ¬ isAsciiDigit c = true := by simp [h c rfl]
    rw [tokensFrom, tokensFrom, if_neg hc, if_neg hc]
    split
    · rfl
    · split
      · rfl
      · split
        · rfl
        · exact (emit_none digits).symm

theorem joined_nil_left (b : Option (List Token)) : joined (some []) b = b := by
  cases b <;> rfl

theorem joined_nil_right (a : Option (List Token)) : joined a (some []) = a := by
  cases a <;> simp [joined]

theorem joined_some_some (us vs : List Token) (b : Option (List Token)) :
    joined (some us) (joined (some vs) b) = joined (some (us ++ vs)) b := by
  cases b <;> simp [joined]

/-- **The tokens of two texts after each other are the tokens of both**, if none goes from the one
to the other. -/
theorem tokensFrom_append {r : Text} : ∀ (digits s : Text),
    (∀ c ∈ digits.head?, isAsciiDigit c = true) → Separate (digits.reverse ++ s) r →
      tokensFrom digits (s ++ r) = joined (tokensFrom digits s) (tokensFrom [] r)
  | digits, [], hdigits, h => by
    rw [List.nil_append, tokensFrom, ← emit_joined, joined_nil_left]
    cases digits with
    | nil => rfl
    | cons c digits =>
      refine tokensFrom_emit (fun d hd => ?_) (c :: digits)
      -- The digits end at the cut, since `Separate` lets no number run across it.
      have hsplits := (h c (by simp) d hd).2
      simpa [hdigits c rfl] using hsplits
  | digits, [c], hdigits, h => by
    cases r with
    | nil => exact (joined_nil_right _).symm
    | cons d r =>
      obtain ⟨hdouble, hdigit⟩ := h c (by simp) d rfl
      rw [List.singleton_append, tokensFrom, tokensFrom, hdouble]
      split
      · rename_i hc
        rw [← emit_joined, joined_nil_left]
        -- A digit right before the cut: the number must end here.
        exact tokensFrom_emit (by simpa [hc] using hdigit) (c :: digits)
      · split
        · rw [← emit_joined, joined_nil_left]
        · rw [← emit_joined]
          cases single? c with
          | none => exact (emit_none digits).symm
          | some t =>
            have hcons := joined_cons t (some []) (tokensFrom [] (d :: r))
            rw [joined_nil_left] at hcons
            exact congrArg (emit digits) hcons
  | digits, c :: d :: s, hdigits, h => by
    -- Only the last character of the left text meets the cut, so both tails stay separate.
    have htail : Separate (d :: s) r := by
      intro x hx
      refine h x ?_
      rw [List.getLast?_append, List.getLast?_cons_cons, Option.mem_def.1 hx]
      rfl
    have htail' : Separate s r := by
      cases s with
      | nil => simp [Separate]
      | cons e s => simpa [Separate, List.getLast?_cons_cons] using htail
    have hnil : ∀ x ∈ ([] : Text).head?, isAsciiDigit x = true := by simp
    rw [List.cons_append, List.cons_append, tokensFrom, tokensFrom]
    split
    · rename_i hc
      exact tokensFrom_append (c :: digits) (d :: s) (by simpa using hc) (by simpa using h)
    · split
      · rw [← emit_joined]
        exact congrArg _ (tokensFrom_append [] (d :: s) hnil htail)
      · split
        · rw [← emit_joined, ← joined_cons, ← tokensFrom_append [] s hnil htail']
        · split
          · rw [← emit_joined, ← joined_cons, ← tokensFrom_append [] (d :: s) hnil htail,
              List.cons_append]
          · rfl

theorem tokens?_append {s r : Text} (h : Separate s r) :
    tokens? (s ++ r) = joined (tokens? s) (tokens? r) := tokensFrom_append [] s (by simp) h

/-- A mark that starts no token of two characters. -/
theorem tokens?_mark {c : Char} {t : Token} (h : c ∉ ['&', '|', '=', '!', '>', '<'])
    (hd : isAsciiDigit c = false) (hb : isBlank c = false) (ht : single? c = some t) (r : Text) :
    tokens? (c :: r) = joined (some [t]) (tokens? r) := by
  have hseparate : Separate [c] r := by
    intro x hx d _
    obtain rfl : c = x := by simpa using hx
    exact splits_left h hd d
  have hmark : tokens? [c] = some [t] := by
    rw [tokens?, tokensFrom, if_neg (by simp [hd]), if_neg (by simp [hb]), ht]
    rfl
  rw [← List.singleton_append, tokens?_append hseparate, hmark]

/-! ## Blanks and brackets -/

theorem splits_blank_left {c : Char} (h : isBlank c = true) (d : Char) : Splits c d := by
  refine splits_left (fun hmem => ?_) (isAsciiDigit_of_isBlank h) d
  simp only [List.mem_cons, List.not_mem_nil, or_false] at hmem
  rcases hmem with rfl | rfl | rfl | rfl | rfl | rfl <;> exact absurd h (by decide)

theorem splits_blank_right {d : Char} (h : isBlank d = true) (c : Char) : Splits c d := by
  refine splits_right (fun hmem => ?_) (isAsciiDigit_of_isBlank h) c
  simp only [List.mem_cons, List.not_mem_nil, or_false] at hmem
  rcases hmem with rfl | rfl | rfl <;> exact absurd h (by decide)

/-- Only blanks and parentheses. -/
def IsBracketing (s : Text) : Prop := ∀ c ∈ s, isBlank c = true ∨ c = '(' ∨ c = ')'

instance (s : Text) : Decidable (IsBracketing s) := inferInstanceAs (Decidable (∀ c ∈ s, _))

theorem isBracketing_of_blanks {g : Text} (hg : ∀ c ∈ g, isBlank c = true) : IsBracketing g :=
  fun c hc => .inl (hg c hc)

theorem splits_bracket {c : Char} (h : isBlank c = true ∨ c = '(' ∨ c = ')') (d : Char) :
    Splits c d := by
  rcases h with h | rfl | rfl
  · exact splits_blank_left h d
  · exact splits_left (by decide) (by decide) d
  · exact splits_left (by decide) (by decide) d

theorem splits_bracket_right {d : Char} (h : isBlank d = true ∨ d = '(' ∨ d = ')') (c : Char) :
    Splits c d := by
  rcases h with h | rfl | rfl
  · exact splits_blank_right h c
  · exact splits_right (by decide) (by decide) c
  · exact splits_right (by decide) (by decide) c

theorem single?_blank {c : Char} (h : isBlank c = true) : single? c = none := by
  unfold single?
  split <;> first | rfl | exact absurd h (by decide)

theorem tokens?_bracket {c : Char} (h : isBlank c = true ∨ c = '(' ∨ c = ')') :
    tokens? [c] = some (single? c).toList := by
  rcases h with h | rfl | rfl
  · have hdigit : ¬ isAsciiDigit c = true := by simp [isAsciiDigit_of_isBlank h]
    rw [tokens?, tokensFrom, if_neg hdigit, if_pos h, single?_blank h]
    rfl
  · rfl
  · rfl

/-- Blanks have no tokens, and a parenthesis is one. -/
theorem tokens?_bracketing {s : Text} (h : IsBracketing s) :
    tokens? s = some (s.filterMap single?) := by
  induction s with
  | nil => rfl
  | cons c s ih =>
    have hc := h c List.mem_cons_self
    have hseparate : Separate [c] s := by
      intro x hx d _
      obtain rfl : c = x := by simpa using hx
      exact splits_bracket hc d
    rw [← List.singleton_append, tokens?_append hseparate, tokens?_bracket hc,
      ih fun d hd => h d (List.mem_cons_of_mem c hd), List.filterMap_append]
    cases hs : single? c <;> simp [joined, hs]

theorem tokens?_blanks {g : Text} (hg : ∀ c ∈ g, isBlank c = true) : tokens? g = some [] := by
  rw [tokens?_bracketing (isBracketing_of_blanks hg)]
  exact congrArg some (List.filterMap_eq_nil_iff.2 fun c hc => single?_blank (hg c hc))

theorem tokens?_blanks_append {g : Text} (hg : ∀ c ∈ g, isBlank c = true) (s : Text) :
    tokens? (g ++ s) = tokens? s := by
  rw [tokens?_append fun c hc d _ => splits_blank_left (hg c (List.mem_of_getLast? hc)) d,
    tokens?_blanks hg, joined_nil_left]

theorem tokens?_append_blanks {g : Text} (hg : ∀ c ∈ g, isBlank c = true) (s : Text) :
    tokens? (s ++ g) = tokens? s := by
  rw [tokens?_append fun c _ d hd => splits_blank_right (hg d (List.mem_of_mem_head? hd)) c,
    tokens?_blanks hg, joined_nil_right]

/-- Blanks around a text make no difference to its tokens. -/
theorem tokens?_trim (s : Text) : tokens? (trim s) = tokens? s := by
  obtain ⟨g, b, hg, hb, hs⟩ := exists_blanks_trim s
  conv_rhs => rw [hs]
  rw [tokens?_blanks_append hg, tokens?_append_blanks hb]

/-! ## Integers -/

theorem tokensFrom_digits {w : Text} (hw : ∀ c ∈ w, isAsciiDigit c = true) (digits : Text) :
    tokensFrom digits w = emit (w.reverse ++ digits) (some []) := by
  induction w generalizing digits with
  | nil => rfl
  | cons c w ih =>
    have hc := hw c List.mem_cons_self
    have htail := ih (fun d hd => hw d (List.mem_cons_of_mem c hd)) (c :: digits)
    have hrev : (c :: w).reverse ++ digits = w.reverse ++ c :: digits := by simp
    rw [hrev, ← htail]
    cases w with
    | nil => exact if_pos hc
    | cons d w => exact if_pos hc

theorem tokens?_digits_eq {w : Text} (hw : ∀ c ∈ w, isAsciiDigit c = true) (hne : w ≠ []) :
    tokens? w = (readInt? w).map fun n => [.int n] := by
  have hempty : (w.reverse ++ []).isEmpty = false := by simpa using hne
  rw [tokens?, tokensFrom_digits hw, emit, hempty]
  cases hn : readInt? w <;> simp [hn]

theorem tokens?_digits {w : Text} {n : Int} (hw : ∀ c ∈ w, isAsciiDigit c = true)
    (hn : readInt? w = some n) : tokens? w = some [.int n] := by
  have hne : w ≠ [] := by
    rintro rfl
    exact absurd hn (by simp [readInt?, digitsValue?])
  rw [tokens?_digits_eq hw hne, hn]
  rfl

/-- A word that is an integer consists of digits. -/
theorem isAsciiDigit_of_readInt? {w : Text} {n : Int} (h : readInt? w = some n)
    (hplus : '+' ∉ w) (hminus : '-' ∉ w) : ∀ c ∈ w, isAsciiDigit c = true := by
  intro c hc
  rcases mem_of_readInt? h c hc with hd | rfl | rfl
  · exact hd
  · exact absurd hc hplus
  · exact absurd hc hminus

/-! ## Comparisons -/

/-- The token of a comparison. -/
def ofComparison : Comparison → Token
  | .eq => .eq
  | .ne => .ne
  | .gt => .gt
  | .ge => .ge
  | .lt => .lt
  | .le => .le

theorem comparison?_ofComparison (c : Comparison) :
    comparison? (ofComparison c) = some c.holds := by
  cases c <;> rfl

theorem splits_digit {c d : Char} (hc : isAsciiDigit c = true) (hd : isAsciiDigit d = false) :
    Splits c d := by
  refine ⟨double?_eq_none_left (fun hmem => ?_) d, by simp [hd]⟩
  simp only [List.mem_cons, List.not_mem_nil, or_false] at hmem
  rcases hmem with rfl | rfl | rfl | rfl | rfl | rfl <;> exact absurd hc (by decide)

/-- An integer before what is no digit. -/
theorem tokens?_digits_append {w r : Text} {n : Int} (hw : ∀ c ∈ w, isAsciiDigit c = true)
    (hn : readInt? w = some n) (hr : ∀ c ∈ r.head?, isAsciiDigit c = false) :
    tokens? (w ++ r) = joined (some [.int n]) (tokens? r) := by
  rw [tokens?_append fun c hc d hd => splits_digit (hw c (List.mem_of_getLast? hc)) (hr d hd),
    tokens?_digits hw hn]

/-- A comparison before a blank or a digit. -/
theorem tokens?_comparison_append (c : Comparison) {r : Text}
    (hr : ∀ d ∈ r.head?, isBlank d = true ∨ isAsciiDigit d = true) :
    tokens? (c.text.toList ++ r) = joined (some [ofComparison c]) (tokens? r) := by
  have hlast : ∀ x ∈ c.text.toList.getLast?, isAsciiDigit x = false := by cases c <;> decide
  have hseparate : Separate c.text.toList r := by
    intro x hx d hd
    refine ⟨double?_eq_none_right (fun hmem => ?_) x, by simp [hlast x hx]⟩
    simp only [List.mem_cons, List.not_mem_nil, or_false] at hmem
    rcases hr d hd with h | h <;> rcases hmem with rfl | rfl | rfl <;> exact absurd h (by decide)
  rw [tokens?_append hseparate]
  cases c <;> rfl

/-! ## The range of the integers -/

theorem areInt64_emit {digits : Text} {rest : Option (List Token)} {ts : List Token}
    (h : emit digits rest = some ts) (hrest : ∀ us, rest = some us → AreInt64 us) :
    AreInt64 ts := by
  rw [emit] at h
  split at h
  · exact hrest ts h
  · simp only [Option.bind_eq_bind, Option.bind_eq_some_iff] at h
    obtain ⟨n, hn, us, hus, heq⟩ := h
    obtain rfl := Option.some.inj heq
    intro m hm
    rcases List.mem_cons.1 hm with heq | hm
    · obtain rfl := Token.int.inj heq
      exact isInt64_of_readInt? hn
    · exact hrest us hus m hm

theorem areInt64_nil : AreInt64 [] := fun _ hn => absurd hn (by simp)

theorem areInt64_map_cons {t : Token} (ht : ∀ n, t ≠ .int n) {us : Option (List Token)}
    (hus : ∀ vs, us = some vs → AreInt64 vs) :
    ∀ vs, us.map (t :: ·) = some vs → AreInt64 vs := by
  intro vs h
  obtain ⟨vs', hvs', rfl⟩ := Option.map_eq_some_iff.1 h
  intro n hn
  rcases List.mem_cons.1 hn with heq | hn
  · exact absurd heq.symm (ht n)
  · exact hus vs' hvs' n hn

theorem single?_ne_int {c : Char} {t : Token} (h : single? c = some t) : ∀ n, t ≠ .int n := by
  rintro n rfl
  unfold single? at h
  split at h <;> simp at h

theorem double?_ne_int {c d : Char} {t : Token} (h : double? c d = some t) : ∀ n, t ≠ .int n := by
  rintro n rfl
  unfold double? at h
  split at h <;> simp at h

/-- The integers among the tokens of a text are of 64 bits. -/
theorem areInt64_tokensFrom : ∀ (digits s : Text) (ts : List Token),
    tokensFrom digits s = some ts → AreInt64 ts
  | digits, [], ts, h => areInt64_emit h fun us hus => by
    obtain rfl := Option.some.inj hus
    exact areInt64_nil
  | digits, [c], ts, h => by
    have hnil : ∀ us, some [] = some us → AreInt64 us := by
      rintro us hus
      obtain rfl := Option.some.inj hus
      exact areInt64_nil
    rw [tokensFrom] at h
    split at h
    · exact areInt64_emit h hnil
    · split at h
      · exact areInt64_emit h hnil
      · refine areInt64_emit h fun us hus => ?_
        obtain ⟨t, ht, rfl⟩ := Option.map_eq_some_iff.1 hus
        exact areInt64_map_cons (single?_ne_int ht) hnil [t] rfl
  | digits, c :: d :: s, ts, h => by
    rw [tokensFrom] at h
    split at h
    · exact areInt64_tokensFrom _ _ ts h
    · split at h
      · exact areInt64_emit h (areInt64_tokensFrom [] (d :: s))
      · split at h
        · rename_i t ht
          exact areInt64_emit h
            (areInt64_map_cons (double?_ne_int ht) (areInt64_tokensFrom [] s))
        · split at h
          · rename_i t ht
            exact areInt64_emit h
              (areInt64_map_cons (single?_ne_int ht) (areInt64_tokensFrom [] (d :: s)))
          · exact absurd h (by simp)

/-! ## Conditionals

The parts of a cut are joined at blanks, at marks that start no other token, or at parentheses, so
the tokens are put together from left to right without looking into the branches. -/

theorem forall_head?_blanks_append {p : Char → Prop} {g r : Text}
    (hg : ∀ c, isBlank c = true → p c) (hblank : ∀ c ∈ g, isBlank c = true)
    (hr : ∀ c ∈ r.head?, p c) : ∀ c ∈ (g ++ r).head?, p c := by
  cases g with
  | nil => exact hr
  | cons d g =>
    intro c hc
    obtain rfl : d = c := by simpa using hc
    exact hg d (hblank d List.mem_cons_self)

/-- The token of the parenthesis before the question mark, if there is one. -/
def closingTokens (isClosed : Bool) : List Token := if isClosed then [.closing] else []

/-- The end of a head, which starts with no digit. -/
theorem tokens?_closing (isClosed : Bool) {g : Text} (hg : ∀ c ∈ g, isBlank c = true) :
    tokens? ((if isClosed = true then [')'] else []) ++ (g ++ ['?'])) =
        some (closingTokens isClosed ++ [.question]) ∧
      ∀ x ∈ ((if isClosed = true then [')'] else []) ++ (g ++ ['?'])).head?,
        isAsciiDigit x = false := by
  have hquestion : tokens? (g ++ ['?']) = some [.question] := by
    rw [tokens?_blanks_append hg]
    rfl
  cases isClosed with
  | false =>
    have hstart : ∀ x ∈ (g ++ ['?']).head?, isAsciiDigit x = false :=
      forall_head?_blanks_append (fun c => isAsciiDigit_of_isBlank) hg (by decide)
    exact ⟨hquestion, hstart⟩
  | true =>
    refine ⟨?_, fun x hx => ?_⟩
    · rw [if_pos rfl, List.singleton_append,
        tokens?_mark (by decide) (by decide) (by decide) rfl, hquestion]
      rfl
    · obtain rfl : ')' = x := by simpa using hx
      decide

theorem tokens?_head {left right s : Text} {c : Comparison} {isClosed : Bool} {a b : Int}
    (h : Conditional.IsHead left c right isClosed s) (ha : readInt? left = some a)
    (hb : readInt? right = some b) :
    tokens? s =
      some (.int a :: ofComparison c :: .int b :: (closingTokens isClosed ++ [.question])) := by
  obtain ⟨g₁, g₂, g₃, g₄, rfl, hl, hr, hblank⟩ := h
  simp only [List.forall_mem_cons] at hblank
  obtain ⟨hg₁, hg₂, hg₃, hg₄, -⟩ := hblank
  have hdigits : ∀ {w : Text} {n : Int}, IsWord w → readInt? w = some n →
      ∀ c ∈ w, isAsciiDigit c = true := fun hw hn =>
    isAsciiDigit_of_readInt? hn (notMem_of_word hw.2 (by decide)) (notMem_of_word hw.2 (by decide))
  obtain ⟨hclosing, hend⟩ := tokens?_closing isClosed hg₄
  have hright : ∀ d ∈ (right ++ (g₃ ++ ((if isClosed = true then [')'] else []) ++
      (g₄ ++ ['?'])))).head?, isBlank d = true ∨ isAsciiDigit d = true := by
    obtain ⟨d, w, rfl⟩ := List.exists_cons_of_ne_nil hr.1
    intro x hx
    obtain rfl : d = x := by simpa using hx
    exact .inr (hdigits hr hb d List.mem_cons_self)
  have hcomparison : ∀ r, ∀ x ∈ (c.text.toList ++ r).head?, isAsciiDigit x = false := by
    intro r
    cases c <;> simp [Comparison.text, isAsciiDigit]
  rw [tokens?_digits_append (hdigits hl ha) ha
      (forall_head?_blanks_append (fun c => isAsciiDigit_of_isBlank) hg₁ (hcomparison _)),
    tokens?_blanks_append hg₁, tokens?_comparison_append c
      (forall_head?_blanks_append (fun c => Or.inl) hg₂ hright),
    tokens?_blanks_append hg₂, tokens?_digits_append (hdigits hr hb) hb
      (forall_head?_blanks_append (fun c => isAsciiDigit_of_isBlank) hg₃ hend),
    tokens?_blanks_append hg₃, hclosing]
  rfl

/-- The tokens of an amount. -/
inductive AreSummand : List Token → Int → Int → Prop
  | nothing : AreSummand [] 0 0
  | added (n : Int) : AreSummand [.plus, .int n] n 0
  | taken (n : Int) : AreSummand [.minus, .int n] 0 n

theorem tokens?_isAmount {sign : Char} {digits s : Text} {n : Int} {t : Token}
    (h : IsAmount sign digits s) (hn : readInt? digits = some n) (ht : single? sign = some t)
    (hsign : sign = '+' ∨ sign = '-') : tokens? s = some [t, .int n] := by
  obtain ⟨g, g', b, rfl, -, hg, hg'ne, hg', -, hdecimal, hb⟩ := h
  have hdigits : ∀ c ∈ digits, isAsciiDigit c = true :=
    isAsciiDigit_of_readInt? hn (fun h => absurd (hdecimal _ h) (by decide))
      fun h => absurd (hdecimal _ h) (by decide)
  have hmark : ∀ r, tokens? (sign :: r) = joined (some [t]) (tokens? r) := by
    intro r
    rcases hsign with rfl | rfl <;>
      exact tokens?_mark (by decide) (by decide) (by decide) ht r
  rw [tokens?_blanks_append hg, hmark, tokens?_blanks_append hg', tokens?_append_blanks hb,
    tokens?_digits hdigits hn]
  rfl

theorem exists_tokens?_isTail {s : Text} {toAdd toSubtract : Int}
    (h : Conditional.IsTail s toAdd toSubtract) :
    ∃ us, tokens? s = some us ∧ AreSummand us toAdd toSubtract := by
  cases h with
  | nothing h => exact ⟨[], by rw [h]; rfl, .nothing⟩
  | added h hn => exact ⟨_, tokens?_isAmount h hn rfl (.inl rfl), .added _⟩
  | taken h hn => exact ⟨_, tokens?_isAmount h hn rfl (.inr rfl), .taken _⟩

end Fold

theorem Conditional.IsTail.head?_isBlank {s : Text} {toAdd toSubtract : Int}
    (h : IsTail s toAdd toSubtract) : ∀ c ∈ s.head?, isBlank c = true := by
  have hamount : ∀ {sign : Char} {digits : Text}, IsAmount sign digits s →
      ∀ c ∈ s.head?, isBlank c = true := by
    rintro sign digits ⟨g, g', b, rfl, hne, hg, -⟩ c hc
    obtain ⟨d, g, rfl⟩ := List.exists_cons_of_ne_nil hne
    obtain rfl : d = c := by simpa using hc
    exact hg d List.mem_cons_self
  cases h with
  | nothing h => simp [h]
  | added h => exact hamount h
  | taken h => exact hamount h

/-- **The tokens of a text are those of the parts of a conditional in it**, where only blanks and
parentheses stand around it.  The second branch may go on in `inner`, which was cut off from it. -/
theorem Conditional.Cut.tokens?_eq {e : Conditional} {t : Text} (c : e.Cut t) {a b : Int}
    (ha : readInt? e.left.toList = some a) (hb : readInt? e.right.toList = some b)
    (hbefore : Fold.IsBracketing c.before) {inner outer : Text} (hafter : c.after = inner ++ outer)
    (houter : Fold.IsBracketing outer) :
    ∃ us, Fold.AreSummand us e.toAdd e.toSubtract ∧
      Fold.tokens? t = Fold.joined (some (c.before.filterMap Fold.single? ++
          .int a :: Fold.ofComparison e.comparison :: .int b ::
            (Fold.closingTokens c.isClosed ++ [.question])))
        (Fold.joined (Fold.tokens? c.first) (Fold.joined (some [.colon])
          (Fold.joined (Fold.tokens? (c.second ++ inner))
            (some (outer.filterMap Fold.single? ++ us))))) := by
  obtain ⟨us, hus, hsummand⟩ := Fold.exists_tokens?_isTail c.isTail
  have hbracket : ∀ {s : Text}, Fold.IsBracketing s → ∀ r, Fold.Separate s r :=
    fun hs r x hx d _ => Fold.splits_bracket (hs x (List.mem_of_getLast? hx)) d
  have hhead : ∀ r, Fold.Separate c.head r := by
    intro r x hx d _
    obtain ⟨g₁, g₂, g₃, g₄, hshape, -⟩ := c.isHead
    obtain rfl : '?' = x := by
      rw [hshape] at hx
      simpa [List.getLast?_append, List.getLast?_cons] using hx
    exact Fold.splits_left (by decide) (by decide) d
  have hcolon : ∀ r, Fold.tokens? (':' :: r) = Fold.joined (some [.colon]) (Fold.tokens? r) :=
    Fold.tokens?_mark (by decide) (by decide) (by decide) rfl
  have hfirst : ∀ r, Fold.Separate c.first (':' :: r) := by
    intro r x _ d hd
    obtain rfl : ':' = d := by simpa using hd
    exact Fold.splits_right (by decide) (by decide) x
  -- The second branch meets a parenthesis or the blank before an amount, never a character
  -- that could join its last token.
  have hsecond : Fold.Separate (c.second ++ inner) (outer ++ c.tail) := by
    intro x _ d hd
    cases outer with
    | nil => exact Fold.splits_blank_right (c.isTail.head?_isBlank d hd) x
    | cons y outer =>
      obtain rfl : y = d := by simpa using hd
      exact Fold.splits_bracket_right (houter y List.mem_cons_self) x
  have hshape : c.second ++ (c.after ++ c.tail) = c.second ++ inner ++ (outer ++ c.tail) := by
    rw [hafter]
    simp
  -- Every part is now cut from the next one, and the tokens of the text are those of its parts.
  refine ⟨us, hsummand, ?_⟩
  conv_lhs => rw [c.eq_append, hshape]
  rw [Fold.tokens?_append (hbracket hbefore _), Fold.tokens?_bracketing hbefore,
    Fold.tokens?_append (hhead _), Fold.tokens?_head c.isHead ha hb, Fold.joined_some_some,
    Fold.tokens?_append (hfirst _), hcolon, Fold.tokens?_append hsecond,
    Fold.tokens?_append (hbracket houter _), Fold.tokens?_bracketing houter, hus]
  rfl

end TableSync
