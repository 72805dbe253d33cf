import TableSync.Proofs.Expr.Tokens

/-!
# Folding a conditional and taking it apart

A text in numbers can be folded, and it can be taken apart as a conditional and decided.  The two
readers do not divide it in the same way.  Taking it apart stops at the first colon and the first
parenthesis that closes, and the amount at the end is always that of the whole.  Folding follows the
grammar, to which `2 : 3 + 4` has the sum in its second branch, and counts the parentheses.

* `Fold.isRead_choice` and `Fold.isRead_brackets` say how far the grammar reads a conditional that
  an amount follows, without parentheses around it and with them.  Parentheses open and close at
  different places, so this is said of every number of them by `Fold.IsRead`, and not of groups.
* `Value.meaning?` is the value that the grammar gives to a branch.
* `Conditional.Cut.IsLiteral` says that only parentheses stand around the conditional, that each
  branch is an expression by itself, and that the amount is that of the whole to the grammar, too.
* `Conditional.resolve?_of_fold?` says that both give the same value then.  A branch that is a text
  is left as it is, without the amount.

## Which parentheses are covered

Parentheses around the whole, around the comparison and around the first branch are, in any number
that the two readers accept, and so are those around a second branch that is not chosen: what is cut
off behind its first closing parenthesis is given back to it as `inner`.  A second branch that is
chosen and stands in parentheses of its own is left out.  Of `(1 == 2) ? 3 : (4)`, which folds to 4,
the second branch is taken to be `(4`, which is a text without a value, so no division of this text
is a literal (`uncut`).  `Conditional.isBalanced_literal_iff` is about branches that are cut so.

The sums are those of the integers.  They are 64-bit integers where a text can be folded, as folding
gives no other (`Fold.Reads.isInt64`), and the conditional that is found has one amount at most.
-/

set_option autoImplicit false

namespace TableSync

/-! ## The value of a branch -/

/-- The value of a branch: an integer, or what the grammar gives to its text. -/
def Value.meaning? : Value → Option Int
  | .int n => some n
  | .str s => (Fold.tokens? s.toList).bind Fold.evaluate?
  | _ => none

namespace Fold

/-- An expression starts with an integer, a parenthesis or a sign. -/
theorem Reads.head_mem {p : Part} {t : Token} {ts rest : List Token} {v : Int}
    (h : Reads p (t :: ts) v rest) (hp : ∀ l lhs, p ≠ .tail l lhs) :
    (∃ n, t = .int n) ∨ t = .opening ∨ t = .minus := by
  generalize hts : t :: ts = us at h
  induction h with
  | int n _ => exact .inl ⟨n, (List.cons.inj hts).1⟩
  | group => exact .inr (.inl (List.cons.inj hts).1)
  | negative => exact .inr (.inr (List.cons.inj hts).1)
  | @chain l _ _ _ _ _ _ _ ih => exact ih (by cases l <;> simp [Level.operand]) hts
  | step | done => exact absurd rfl (hp _ _)
  | compare _ _ _ ih | single _ _ ih | choice _ _ _ ih | plain _ _ ih => exact ih (by simp) hts

theorem tokens?_of_digitsValue? {s : Text} {m : Nat} (h : digitsValue? s = some m) :
    tokens? s = (int64? m).map fun n => [.int n] := by
  have hdigits := isAsciiDigit_of_digitsValue? h
  have hne : s ≠ [] := by
    rintro rfl
    exact absurd h (by simp [digitsValue?])
  rw [tokens?_digits_eq hdigits hne, readInt?_of_digits hdigits, h, Option.bind_some]

/-- An integer without a plus sign is an operand of the grammar. -/
theorem reads_numeral {s : Text} {n : Int} (hn : readInt? s = some n) {ts : List Token}
    (hts : tokens? s = some ts) :
    ts.head? = some .plus ∨ ∀ rest, Reads .atom (ts ++ rest) n rest := by
  unfold readInt? at hn
  split at hn
  · obtain ⟨m, hm, -⟩ := Option.bind_eq_some_iff.1 hn
    rw [tokens?_mark (by decide) (by decide) (by decide) rfl, tokens?_of_digitsValue? hm] at hts
    cases hk : int64? (m : Int) with
    | none => exact absurd hts (by simp [hk, joined])
    | some k =>
      obtain rfl : [.plus, .int k] = ts := by simpa [hk, joined] using hts
      exact .inl rfl
  · obtain ⟨m, hm, hint⟩ := Option.bind_eq_some_iff.1 hn
    obtain ⟨rfl, hrange⟩ := int64?_eq_some_iff.1 hint
    rw [tokens?_mark (by decide) (by decide) (by decide) rfl, tokens?_of_digitsValue? hm] at hts
    cases hk : int64? (m : Int) with
    | none => exact absurd hts (by simp [hk, joined])
    | some k =>
      obtain ⟨rfl, -⟩ := int64?_eq_some_iff.1 hk
      obtain rfl : [.minus, .int (m : Int)] = ts := by simpa [hk, joined] using hts
      exact .inr fun rest => .negative (.int _ rest) hrange
  · obtain ⟨m, hm, hint⟩ := Option.bind_eq_some_iff.1 hn
    rw [tokens?_of_digitsValue? hm, hint] at hts
    obtain rfl := Option.some.inj hts
    exact .inr fun rest => .int _ rest

/-- The value of a branch is that of its tokens as a whole, unless a plus sign starts it. -/
theorem reads_branch {s : Text} {x : Int} (hx : (Value.scalar s).meaning? = some x)
    {ts : List Token} (hts : tokens? s = some ts) :
    ts.head? = some .plus ∨ Reads .ternary ts x [] := by
  rw [← tokens?_trim] at hts
  rw [Value.scalar] at hx
  cases hn : readInt? (trim s) with
  | some n =>
    rw [hn] at hx
    obtain rfl : n = x := by simpa [Value.meaning?] using hx
    refine (reads_numeral hn hts).imp_right fun hatom => ?_
    have hatom := hatom []
    rw [List.append_nil] at hatom
    exact .plain (.chain (.single (.chain (.chain hatom (.done (by simp))) (.done (by simp)))
      (by simp)) (.done (by simp))) (by simp)
  | none =>
    rw [hn, Value.ofText, Value.meaning?, String.toList_ofList, hts, Option.bind_some] at hx
    exact .inr (evaluate?_eq_some_iff.1 hx)

/-! ## Conditionals among the tokens

The grammar reads a branch as far as it can, so a branch without parentheses takes the amount behind
it in, and one in parentheses does not.  Where the reading stops is therefore said together with the
value: `IsRead` has one case for each of the two places, and the parentheses around the conditional
are taken off one by one from there. -/

theorem reads_comparison (c : Comparison) (a b : Int) {rest : List Token}
    (h : (Part.chain .logic).StopsAt rest) :
    Reads (.chain .logic) (.int a :: ofComparison c :: .int b :: rest) (ofBool (c.holds a b))
      rest := by
  have hleft : Reads (.chain .additive) (.int a :: ofComparison c :: .int b :: rest) a
      (ofComparison c :: .int b :: rest) :=
    reads_int (by simp) (by cases c <;> simp [Part.StopsAt, Part.rank, ofComparison, Token.rank]) a
  have hright : Reads (.chain .additive) (.int b :: rest) b rest :=
    reads_int (by simp) (h.mono (by decide)) b
  exact .chain (.compare hleft (comparison?_ofComparison c) hright)
    (.done fun t ht => Level.step?_eq_none (h t ht))

/-- Only parentheses. -/
def AreBrackets (ts : List Token) : Prop := ∀ t ∈ ts, t = .opening ∨ t = .closing

theorem stopsAt_brackets {cs : List Token} (hcs : AreBrackets cs) (hne : cs ≠ [])
    (us : List Token) : Part.ternary.StopsAt (cs ++ us) := by
  obtain ⟨t, cs, rfl⟩ := List.exists_cons_of_ne_nil hne
  intro s hs
  obtain rfl : t = s := by simpa using hs
  rcases hcs t List.mem_cons_self with rfl | rfl <;> decide

/-- How far a conditional of the value `u` can be read that an amount `us` follows: up to
parentheses, or with the amount up to the end. -/
inductive IsRead (u : Int) (us : List Token) (total : Int) : Int → List Token → Prop
  | before {cs : List Token} (hcs : AreBrackets cs) : IsRead u us total u (cs ++ us)
  | all (hus : us ≠ []) : IsRead u us total total []

variable {us : List Token} {toAdd toSubtract : Int}

/-- An amount is nothing, or an integer and a sign that adds it or takes it away. -/
theorem AreSummand.eq_nil_or (h : AreSummand us toAdd toSubtract) :
    (us = [] ∧ toAdd = 0 ∧ toSubtract = 0) ∨
      ∃ t f n, us = [t, .int n] ∧ (t = .plus ∨ t = .minus) ∧ Level.additive.step? t = some f ∧
        (toAdd = 0 → toSubtract = 0 → n = 0) ∧
          ∀ u w, f u n = some w → w = u + toAdd - toSubtract := by
  cases h with
  | nothing => exact .inl ⟨rfl, rfl, rfl⟩
  | added =>
    refine .inr ⟨.plus, _, _, rfl, .inl rfl, rfl, fun hn _ => hn, fun u w hw => ?_⟩
    rw [Int.sub_zero]
    exact (int64?_eq_some_iff.1 hw).1.symm
  | taken =>
    refine .inr ⟨.minus, _, _, rfl, .inr rfl, rfl, fun _ hn => hn, fun u w hw => ?_⟩
    rw [Int.add_zero]
    exact (int64?_eq_some_iff.1 hw).1.symm

theorem isRead_int {cs rest : List Token} {u w : Int} (hus : AreSummand us toAdd toSubtract)
    (hcs : AreBrackets cs) (h : Reads .ternary (.int u :: (cs ++ us)) w rest) :
    IsRead u us (u + toAdd - toSubtract) w rest := by
  have hstops : Part.ternary.StopsAt (cs ++ us) →
      IsRead u us (u + toAdd - toSubtract) w rest := by
    intro hstops
    obtain ⟨rfl, rfl⟩ := (reads_int (by simp) hstops u).det h
    exact .before hcs
  have hatom : ∀ rest, Reads .atom ([.int u] ++ rest) u rest := fun rest => .int u rest
  by_cases hne : cs = []
  · subst hne
    rcases hus.eq_nil_or with ⟨rfl, -, -⟩ | ⟨t, f, n, rfl, -, ht, -, htotal⟩
    · exact hstops (by simp [Part.StopsAt])
    · obtain ⟨hsum, rfl⟩ := Reads.eq_sum hatom ht h
      obtain rfl := htotal u w hsum
      exact .all (by simp)
  · exact hstops (stopsAt_brackets hcs hne us)

/-- Parentheses before a conditional make no difference to how far it is read. -/
theorem isRead_brackets {core opens : List Token} {u : Int}
    (hus : AreSummand us toAdd toSubtract)
    (hcore : ∀ w rest, Reads .ternary core w rest → IsRead u us (u + toAdd - toSubtract) w rest)
    (hopens : AreBrackets opens) :
    ∀ w rest, Reads .ternary (opens ++ core) w rest →
      IsRead u us (u + toAdd - toSubtract) w rest := by
  induction opens with
  | nil => exact hcore
  | cons t opens ih =>
    intro w rest h
    rcases hopens t List.mem_cons_self with rfl | rfl
    · -- the group ends at the first of the parentheses that close, so the amount is behind it
      obtain ⟨u', ts', hgroup, h⟩ := h.exists_group (by simp)
      have hread := ih (fun t ht => hopens t (List.mem_cons_of_mem _ ht)) _ _ hgroup
      generalize hts : .closing :: ts' = ts at hread
      cases hread with
      | @before cs hcs =>
        cases cs with
        | nil => cases hus <;> exact absurd hts (by simp)
        | cons s cs =>
          obtain ⟨rfl, rfl⟩ := List.cons.inj hts
          exact isRead_int hus (fun t ht => hcs t (List.mem_cons_of_mem _ ht)) h
      | all _ => exact absurd hts (by simp)
    · exact absurd (h.head_mem (by simp)) (by simp)

theorem Reads.head?_ne_plus {ts us rest : List Token} {v : Int}
    (h : Reads .ternary (ts ++ us) v rest) : ts.head? ≠ some .plus := by
  intro hplus
  obtain ⟨ts, rfl⟩ := List.head?_eq_some_iff.1 hplus
  exact absurd (h.head_mem (by simp)) (by simp)

theorem Reads.exists_false {head tx rest : List Token} {c x w : Int} {ts : List Token}
    (hhead : ∀ r, Reads (.chain .logic) (head ++ .question :: r) c (.question :: r))
    (hx : tx.head? = some .plus ∨ Reads .ternary tx x [])
    (h : Reads .ternary (head ++ .question :: (tx ++ .colon :: ts)) w rest) :
    ∃ f, Reads .ternary ts f rest ∧ w = if c ≠ 0 then x else f := by
  cases h with
  | choice hc ht hf =>
    obtain ⟨rfl, hts⟩ := (hhead _).det hc
    obtain rfl := (List.cons.inj hts).2
    obtain ⟨us, hus, hread⟩ := (hx.resolve_left ht.head?_ne_plus).append
    rw [List.append_nil] at hus
    subst hus
    have hcolon : Part.ternary.StopsAt (.colon :: ts) := by
      simp [Part.StopsAt, Part.rank, Token.rank]
    obtain ⟨rfl, hts⟩ := (hread _ (.inr hcolon)).det ht
    obtain rfl := (List.cons.inj hts).2
    exact ⟨_, hf, rfl⟩
  | plain h hrest =>
    obtain ⟨-, rfl⟩ := (hhead _).det h
    exact absurd rfl hrest

/-- Whether the amount at the end is that of the whole conditional for the grammar, too: there is
none, or a parenthesis closes before it, or the second branch is chosen and an integer. -/
def OwnsAmount (toAdd toSubtract c y : Int) (ty cs : List Token) : Prop :=
  (toAdd = 0 ∧ toSubtract = 0) ∨ cs ≠ [] ∨
    (c = 0 ∧ (ty.head? = some .plus ∨ ∀ rest, Reads .atom (ty ++ rest) y rest))

theorem isRead_choice {head tx ty cs : List Token} {c x y : Int}
    (hhead : ∀ r, Reads (.chain .logic) (head ++ .question :: r) c (.question :: r))
    (hx : tx.head? = some .plus ∨ Reads .ternary tx x [])
    (hy : ty.head? = some .plus ∨ Reads .ternary ty y []) (hty : AreInt64 ty)
    (hcs : AreBrackets cs) (hus : AreSummand us toAdd toSubtract)
    (hown : OwnsAmount toAdd toSubtract c y ty cs) :
    ∀ w rest, Reads .ternary (head ++ .question :: (tx ++ .colon :: (ty ++ (cs ++ us)))) w rest →
      IsRead (if c ≠ 0 then x else y) us ((if c ≠ 0 then x else y) + toAdd - toSubtract) w
        rest := by
  intro w rest h
  obtain ⟨f, hf, rfl⟩ := Reads.exists_false hhead hx h
  replace hy := hy.resolve_left hf.head?_ne_plus
  -- the second branch ends before what follows
  have hstops : Part.ternary.StopsAt (cs ++ us) → f = y ∧ rest = cs ++ us := by
    intro hstops
    obtain ⟨vs, hvs, hread⟩ := hy.append
    rw [List.append_nil] at hvs
    subst hvs
    exact hf.det (hread _ (.inr hstops))
  by_cases hne : cs = []
  · subst hne
    rcases hus.eq_nil_or with ⟨rfl, -, -⟩ | ⟨t, g, n, rfl, hsign, ht, hzero, htotal⟩
    · obtain ⟨rfl, rfl⟩ := hstops (by simp [Part.StopsAt])
      exact .before hcs
    · -- or it takes the amount in
      rcases hown with ⟨rfl, rfl⟩ | hnil | ⟨rfl, hatom⟩
      · obtain rfl := hzero rfl rfl
        obtain ⟨rfl, rfl⟩ :=
          hf.det (hy.append_zero (by decide) (hy.ne_nil rfl) hty (by simp) hsign)
        rw [Int.add_zero, Int.sub_zero]
        exact .all (by simp)
      · exact absurd rfl hnil
      · obtain ⟨hsum, rfl⟩ := Reads.eq_sum (hatom.resolve_left hf.head?_ne_plus) ht hf
        obtain rfl := htotal y f hsum
        exact .all (by simp)
  · obtain ⟨rfl, rfl⟩ := hstops (stopsAt_brackets hcs hne us)
    exact .before hcs

theorem reads_comparison_closed (k : Comparison) (a b : Int) (ts : List Token) :
    Reads .ternary (.int a :: ofComparison k :: .int b :: .closing :: ts) (ofBool (k.holds a b))
      (.closing :: ts) :=
  .plain (reads_comparison k a b (by simp [Part.StopsAt, Part.rank, Token.rank])) (by simp)

/-- A comparison that stands in parentheses by itself. -/
theorem isRead_closed {k : Comparison} {a b : Int} {ts : List Token}
    {P : Int → List Token → Prop}
    (h : ∀ w rest,
      Reads .ternary (.int (ofBool (k.holds a b)) :: .question :: ts) w rest → P w rest) :
    ∀ w rest, Reads .ternary
      (.opening :: .int a :: ofComparison k :: .int b :: .closing :: .question :: ts) w rest →
        P w rest := by
  intro w rest hread
  obtain ⟨u, ts', hgroup, hread⟩ := hread.exists_group (by simp)
  obtain ⟨rfl, hts⟩ := (reads_comparison_closed k a b (.question :: ts)).det hgroup
  obtain rfl := (List.cons.inj hts).2
  exact h w rest hread

theorem areBrackets_filterMap {s : Text} (h : IsBracketing s) :
    AreBrackets (s.filterMap single?) := by
  intro t ht
  obtain ⟨c, hc, hct⟩ := List.mem_filterMap.1 ht
  rcases h c hc with hblank | rfl | rfl
  · rw [single?_blank hblank] at hct
    exact absurd hct (by simp)
  · exact .inl (Option.some.inj hct).symm
  · exact .inr (Option.some.inj hct).symm

/-- **A conditional between parentheses is read as a whole**, with the amount behind it. -/
theorem eq_of_reads_conditional {opens tx ty cs : List Token} {k : Comparison} {a b x y n : Int}
    {isClosed : Bool} (hopens : AreBrackets opens)
    (hx : tx.head? = some .plus ∨ Reads .ternary tx x [])
    (hy : ty.head? = some .plus ∨ Reads .ternary ty y []) (hty : AreInt64 ty)
    (hcs : AreBrackets cs) (hus : AreSummand us toAdd toSubtract)
    (hown : OwnsAmount toAdd toSubtract (ofBool (k.holds a b)) y ty cs)
    (h : Reads .ternary (opens ++ .int a :: ofComparison k :: .int b ::
      (closingTokens isClosed ++ .question :: (tx ++ .colon :: (ty ++ (cs ++ us))))) n []) :
    n = (if k.holds a b then x else y) + toAdd - toSubtract := by
  have hholds : (if ofBool (k.holds a b) ≠ 0 then x else y) = if k.holds a b then x else y := by
    cases k.holds a b <;> rfl
  have hquestion : ∀ r, (Part.chain .logic).StopsAt (.question :: r) := by
    simp [Part.StopsAt, Part.rank, Token.rank]
  have hread : IsRead (if k.holds a b then x else y) us
      ((if k.holds a b then x else y) + toAdd - toSubtract) n [] := by
    rw [← hholds]
    cases isClosed with
    | false =>
      have hhead : ∀ r, Reads (.chain .logic) ([.int a, ofComparison k, .int b] ++ .question :: r)
          (ofBool (k.holds a b)) (.question :: r) := fun r => reads_comparison k a b (hquestion r)
      have hcore := isRead_choice hhead hx hy hty hcs hus hown
      exact isRead_brackets hus hcore hopens n [] h
    | true =>
      -- the parenthesis before the question mark closes the last of those before the comparison
      have hhead : ∀ r, Reads (.chain .logic) ([.int (ofBool (k.holds a b))] ++ .question :: r)
          (ofBool (k.holds a b)) (.question :: r) := fun r => reads_int (by simp) (hquestion r) _
      have hcore := isRead_closed (isRead_choice hhead hx hy hty hcs hus hown)
      rcases List.eq_nil_or_concat opens with rfl | ⟨opens, t, rfl⟩
      · exact absurd ((reads_comparison_closed k a b _).det h).2 (by simp)
      · rw [List.concat_eq_append, List.append_assoc] at h
        rw [List.concat_eq_append] at hopens
        refine isRead_brackets hus (fun w rest h => ?_)
          (fun s hs => hopens s (List.mem_append_left _ hs)) n [] h
        rcases hopens t (by simp) with rfl | rfl
        · exact hcore w rest h
        · exact absurd (h.head_mem (by simp)) (by simp)
  generalize hnil : ([] : List Token) = rest at hread
  cases hread with
  | before =>
    obtain ⟨-, rfl⟩ := List.append_eq_nil_iff.1 hnil.symm
    cases hus
    omega
  | all => rfl

end Fold

/-! ## Deciding what has been found

The parts of the text are given by a `Cut`, and the tokens of the whole are put together from those
of the parts.  The operands are numerals, so the comparison is decided without a table. -/

theorem reads_of_fold? {t : Text} {n : Int} (h : fold? t = some n) :
    ∃ ts, Fold.tokens? t = some ts ∧ Fold.Reads .ternary ts n [] := by
  rw [fold?] at h
  split at h
  · obtain ⟨ts, hts, hn⟩ := Option.bind_eq_some_iff.1 h
    exact ⟨ts, hts, Fold.evaluate?_eq_some_iff.1 hn⟩
  · exact absurd h (by simp)

namespace Conditional

variable {e : Conditional} {t : Text}

/-- Whether the amount of a conditional is that of the whole for the grammar, too: there is none, or
a parenthesis closes before it, in `outer`, or the second branch is chosen and an integer. -/
def OwnsAmount (e : Conditional) (outer : Text) : Prop :=
  (e.toAdd = 0 ∧ e.toSubtract = 0) ∨ ')' ∈ outer ∨
    (e.holds? [] = some false ∧ ∃ m, e.whenFalse = .int m)

/-- Only parentheses stand around the conditional, its branches are expressions, and its amount is
that of the whole.  The second branch may have been cut inside its parentheses, so that `inner`
belongs to it, if it is not the one that is chosen.  A chosen second branch in parentheses of its
own is left out by this. -/
structure Cut.IsLiteral (c : e.Cut t) (inner outer : Text) (x y : Int) : Prop where
  /-- Parentheses and blanks alone stand before the comparison. -/
  before : Fold.IsBracketing c.before
  /-- What stands between the second branch and the amount is the rest of that branch, and what
  closes behind it. -/
  after_eq : c.after = inner ++ outer
  /-- What closes behind the second branch is parentheses and blanks alone. -/
  after : Fold.IsBracketing outer
  /-- The first branch has the value `x` to the grammar. -/
  whenTrue : e.whenTrue.meaning? = some x
  /-- The second branch has the value `y`, with what has been cut off it. -/
  whenFalse : (Value.scalar (c.second ++ inner)).meaning? = some y
  /-- A second branch that is chosen is whole: deciding the conditional gives it as it was cut. -/
  uncut : e.holds? [] = some false → inner = []
  /-- The amount is that of the whole to the grammar, too. -/
  amount : e.OwnsAmount outer

theorem exists_operands {k : Bool} (h : e.holds? [] = some k) :
    ∃ a b, readInt? e.left.toList = some a ∧ readInt? e.right.toList = some b ∧
      k = e.comparison.holds a b := by
  simp only [holds?, Option.bind_eq_bind, Option.bind_eq_some_iff] at h
  obtain ⟨a, ha, b, hb, hk⟩ := h
  exact ⟨a, b, by simpa [operand?] using ha, by simpa [operand?] using hb, by simpa using hk.symm⟩

/-- Whether the amount is that of the whole can be told from the tokens. -/
theorem Cut.IsLiteral.ownsAmount {c : e.Cut t} {inner outer : Text} {x y a b : Int}
    {ty : List Fold.Token} (hc : c.IsLiteral inner outer x y)
    (hk : e.holds? [] = some (e.comparison.holds a b))
    (hty : Fold.tokens? (c.second ++ inner) = some ty) :
    Fold.OwnsAmount e.toAdd e.toSubtract (Fold.ofBool (e.comparison.holds a b)) y ty
      (outer.filterMap Fold.single?) := by
  rcases hc.amount with hzero | houter | ⟨hfalse, m, hm⟩
  · exact .inl hzero
  · exact .inr (.inl (List.ne_nil_of_mem (List.mem_filterMap.2 ⟨')', houter, rfl⟩)))
  · refine .inr (.inr ⟨?_, ?_⟩)
    · rw [hk] at hfalse
      rw [Option.some.inj hfalse]
      rfl
    · have hy := hc.whenFalse
      rw [hc.uncut hfalse, List.append_nil] at hy hty
      rw [← c.whenFalse, hm] at hy
      obtain rfl : m = y := by simpa [Value.meaning?] using hy
      rw [c.whenFalse, Value.scalar] at hm
      cases hn : readInt? (trim c.second) with
      | none =>
        rw [hn] at hm
        exact absurd hm (by simp [Value.ofText])
      | some n =>
        rw [hn] at hm
        obtain rfl : n = m := by simpa using hm
        exact Fold.reads_numeral hn ((Fold.tokens?_trim c.second).trans hty)

/-- The value that the grammar gives to the whole is that of the chosen branch, with the amount. -/
theorem Cut.eq_of_fold? (c : e.Cut t) {inner outer : Text} {x y n : Int} {k : Bool}
    (hc : c.IsLiteral inner outer x y) (hk : e.holds? [] = some k) (hfold : fold? t = some n) :
    n = (if k then x else y) + e.toAdd - e.toSubtract := by
  obtain ⟨a, b, ha, hb, rfl⟩ := exists_operands hk
  obtain ⟨us, hus, htokens⟩ := c.tokens?_eq ha hb hc.before hc.after_eq hc.after
  obtain ⟨ts, hts, hread⟩ := reads_of_fold? hfold
  rw [htokens] at hts
  cases htx : Fold.tokens? c.first with
  | none => exact absurd hts (by simp [htx, Fold.joined])
  | some tx =>
    cases hty : Fold.tokens? (c.second ++ inner) with
    | none => exact absurd hts (by simp [hty, Fold.joined])
    | some ty =>
      rw [htx, hty] at hts
      obtain rfl := Option.some.inj hts
      have hx := Fold.reads_branch (c.whenTrue ▸ hc.whenTrue) htx
      have hy := Fold.reads_branch hc.whenFalse hty
      have hwhole : Fold.Reads .ternary (c.before.filterMap Fold.single? ++
          .int a :: Fold.ofComparison e.comparison :: .int b ::
            (Fold.closingTokens c.isClosed ++ .question :: (tx ++ .colon :: (ty ++
              (outer.filterMap Fold.single? ++ us))))) n [] := by
        simpa using hread
      have hty64 := Fold.areInt64_tokensFrom [] (c.second ++ inner) ty hty
      exact Fold.eq_of_reads_conditional (Fold.areBrackets_filterMap hc.before) hx hy hty64
        (Fold.areBrackets_filterMap hc.after) hus (hc.ownsAmount hk hty) hwhole

/-- The amounts go to an integer, and not to a text. -/
theorem withAmounts_scalar (e : Conditional) (s : Text) :
    (∃ m, Value.scalar s = .int m ∧
        e.withAmounts (.scalar s) = .int (m + e.toAdd - e.toSubtract)) ∨
      ∃ r, Value.scalar s = .str r ∧ e.withAmounts (.scalar s) = .str r := by
  rw [Value.scalar]
  cases hread : readInt? (trim s) with
  | some m => exact .inl ⟨m, rfl, rfl⟩
  | none =>
    have hint : (Value.ofText (trim s)).toInt? = none := by
      rw [Value.ofText, Value.toInt?, String.toList_ofList, trim_trim, hread]
    refine .inr ⟨_, rfl, ?_⟩
    dsimp only
    rw [withAmounts, hint]
    rfl

/-- **Folding a text and deciding the conditional in it give one value.**  The conditional has to
stand between parentheses alone, its branches have to be expressions, and its amount has to be that
of the whole.  A branch that is not chosen may have been cut inside its parentheses; one that is
chosen and a text is left as it is, without the amount. -/
theorem resolve?_of_fold? {n : Int} {v : Value} (hfold : fold? t = some n)
    (hfind : find? t = some e) (hv : e.resolve? [] = some v) :
    Nonempty (e.Cut t) ∧
      ∀ (c : e.Cut t) (inner outer : Text) (x y : Int), c.IsLiteral inner outer x y →
        v = .int n ∨ ∃ s, v = .str s ∧ v.meaning? = some (n - e.toAdd + e.toSubtract) := by
  refine ⟨exists_cut hfind, fun c inner outer x y hc => ?_⟩
  obtain ⟨k, hk, rfl⟩ := Option.map_eq_some_iff.1 hv
  have hn := c.eq_of_fold? hc hk hfold
  have hchosen : (e.branch k).meaning? = some (if k then x else y) := by
    cases k with
    | false =>
      have hfalse := hc.whenFalse
      rwa [hc.uncut hk, List.append_nil, ← c.whenFalse] at hfalse
    | true => exact hc.whenTrue
  have hscalar : ∃ s, e.branch k = .scalar s := by
    cases k
    · exact ⟨_, c.whenFalse⟩
    · exact ⟨_, c.whenTrue⟩
  obtain ⟨s, hs⟩ := hscalar
  rw [hs] at hchosen ⊢
  rcases e.withAmounts_scalar s with ⟨m, hm, htotal⟩ | ⟨r, hr, htotal⟩
  · rw [hm] at hchosen
    obtain rfl : m = if k then x else y := by simpa [Value.meaning?] using hchosen
    exact .inl (htotal.trans (congrArg Value.int hn.symm))
  · refine .inr ⟨r, htotal, ?_⟩
    rw [htotal, ← hr, hchosen, hn]
    congr 1
    omega

/-- The parts of a text with a comparison and a branch in parentheses, and an amount outside. -/
def groupedSum : (⟨"1", .lt, "2", .int 3, .str "(4", 5, 0⟩ : Conditional).Cut
    "((1 < 2) ? 3 : (4)) + 5".toList where
  before := "((".toList
  head := "1 < 2) ?".toList
  first := " 3 ".toList
  second := " (4".toList
  after := "))".toList
  tail := " + 5".toList
  isClosed := true
  eq_append := by decide
  isHead := ⟨[' '], [' '], [], [' '], by decide, ⟨by decide, by decide +kernel⟩,
    ⟨by decide, by decide +kernel⟩, by decide⟩
  whenTrue := by decide +kernel
  whenFalse := by decide +kernel
  first_line := by decide
  second_line := by decide
  second_open := by decide
  second_ne_nil := by decide
  second_blank := by decide
  after_closes := by decide
  isTail :=
    have hamount : IsAmount '+' ['5'] " + 5".toList := ⟨[' '], [' '], [], by decide⟩
    .added hamount (by decide)

theorem resolve?_of_fold?_groupedSum :
    fold? "((1 < 2) ? 3 : (4)) + 5".toList = some 8 ∧ groupedSum.IsLiteral [')'] [')'] 3 4 ∧
      ∃ v, resolve? ⟨"1", .lt, "2", .int 3, .str "(4", 5, 0⟩ [] = some v ∧
        (v = .int 8 ∨ ∃ s, v = .str s ∧ v.meaning? = some 3) := by
  have hfold : fold? "((1 < 2) ? 3 : (4)) + 5".toList = some 8 := by decide +kernel
  have hfind : find? "((1 < 2) ? 3 : (4)) + 5".toList =
      some ⟨"1", .lt, "2", .int 3, .str "(4", 5, 0⟩ := by decide +kernel
  have hresolve : resolve? ⟨"1", .lt, "2", .int 3, .str "(4", 5, 0⟩ [] = some (.int 8) := by
    decide +kernel
  have hliteral : groupedSum.IsLiteral [')'] [')'] 3 4 :=
    { before := by decide
      after_eq := by decide
      after := by decide
      whenTrue := rfl
      whenFalse := by decide +kernel
      uncut := fun hfalse => absurd hfalse (by decide +kernel)
      amount := .inr (.inl (by decide)) }
  exact ⟨hfold, hliteral, .int 8, hresolve,
    (resolve?_of_fold? hfold hfind hresolve).2 groupedSum [')'] [')'] 3 4 hliteral⟩

/-- An amount behind the second branch alone is that of the branch when the text is folded. -/
theorem resolve?_of_fold?_sumInBranch :
    fold? "1 == 1 ? 2 : 3 + 4".toList = some 2 ∧
      ∃ e, find? "1 == 1 ? 2 : 3 + 4".toList = some e ∧ e.resolve? [] = some (.int 6) :=
  ⟨by decide +kernel, ⟨"1", .eq, "1", .int 2, .int 3, 4, 0⟩, by decide +kernel, by decide +kernel⟩

/-- A chosen second branch in parentheses is cut at the parenthesis that closes it. -/
example : fold? "(1 == 2) ? 3 : (4)".toList = some 4 ∧
    find? "(1 == 2) ? 3 : (4)".toList = some ⟨"1", .eq, "2", .int 3, .str "(4", 0, 0⟩ ∧
    resolve? ⟨"1", .eq, "2", .int 3, .str "(4", 0, 0⟩ [] = some (.str "(4") := by
  decide +kernel

end Conditional

end TableSync
