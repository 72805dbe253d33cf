import TableSync.Proofs.Expr.CExpression
import TableSync.Proofs.Expr.Derivation

/-!
# Folding and the C language

A text that is folded stands in a C source, where the compiler gives it a value too.  The grammar of
literal expressions is that of C but for two things: it reads `&&` and `||` on one level, from the
left, and it reads two minus signs side by side, which are the decrement operator to C.  Integers
are another matter of the text: one that starts with a zero and goes on is octal to C.

* `C.ParsesBinary`, `C.StartsChain` and `C.ParsesConditional` say that the reader of C expressions
  gets through with the bound on its depth that it is given.  Each says of some tokens what is read
  from them in front of any rest that does not go on with them.
* `Fold.Lexes.tokens?_toC` says that both readers divide a text into the same tokens.
* `Fold.Tree.Translates` takes a tree of literals to a tree of C, with its value.
* `Fold.Derives.parsesC` says that C reads a tree of the grammar as it is meant, if `&&` stands
  behind `||` in no chain of it (`Fold.Tree.IsOrdered`); with parentheses added
  (`Fold.Tree.grouped`) each tree is of this kind.  It goes by induction on the derivation, with one
  case for each part of the grammar.
* `C.strictValue?_of_fold?` compares the values.
-/

set_option autoImplicit false

namespace TableSync

/-! ## The value of a text to a compiler -/

/-- Whether an integer of a text starts with a zero and goes on; `inDigits` says that a digit stands
before the text. -/
def hasLeadingZero : (inDigits : Bool) → Text → Bool
  | _, [] => false
  | inDigits, c :: r =>
    (!inDigits && c == '0' && r.head?.any isAsciiDigit) || hasLeadingZero (isAsciiDigit c) r

namespace C

/-- Two minus signs side by side, which are one token of C: the decrement operator. -/
def HasDecrement (s : Text) : Prop := "--".toList <:+: s

instance (s : Text) : Decidable (HasDecrement s) := inferInstanceAs (Decidable (_ <:+: _))

/-- The value of a text that a compiler accepts: no integer and no name can be decremented. -/
def strictValue? (ρ : Environment) (s : Text) : Option Int :=
  if HasDecrement s then none else value? ρ s

/-! ## The bound on the depth of calls

The bound is ten for each token.  A level of operators takes two calls, one to read the first
operand and one to go on behind it, so that there are fourteen between a `unary` and the
`conditional` around it; back from a `conditional` to a `unary` leads a group only, which has the
two tokens of its parentheses. -/

/-- The tokens are read as a `unary`, whatever follows them. -/
def ParsesUnary (us : List Token) (t : Tree) : Prop :=
  ∀ rest n, 10 * us.length ≤ n + 9 → unary n (us ++ rest) = some (t, rest)

/-- The tokens are read with the operators of a level and of those above it, if none of them comes
next. -/
def ParsesBinary (level : Nat) (us : List Token) (t : Tree) : Prop :=
  ∀ rest n, Ends level rest → 10 * us.length + 4 ≤ n + 2 * level →
    binary n level (us ++ rest) = some (t, rest)

/-- The tokens are read as the start of a chain of operators of a level: what the chain is read as
is what it is continued to. -/
def StartsChain (level : Nat) (us : List Token) (t : Tree) : Prop :=
  ∀ rest reading b, Ends (level + 1) rest → (∀ n, b ≤ n → binaryTail n level t rest = reading) →
    ∀ n, b + 10 * us.length + 3 ≤ n + 2 * level → binary n level (us ++ rest) = reading

/-- The tokens are read as a `conditional`, if nothing comes next that goes on with it. -/
def ParsesConditional (us : List Token) (t : Tree) : Prop :=
  ∀ rest n, Ends 0 rest → rest.head? ≠ some .question → 10 * us.length + 5 ≤ n →
    conditional n (us ++ rest) = some (t, rest)

variable {us vs ws : List Token} {t u v : Tree} {level : Nat}

theorem parsesUnary_int (m : Nat) : ParsesUnary [.int m] (.int m) := by
  intro rest n hn
  obtain ⟨n, rfl⟩ : ∃ k, n = k + 1 := ⟨n - 1, by simp at hn; omega⟩
  rfl

theorem ParsesUnary.minus (h : ParsesUnary us t) :
    ParsesUnary (.operator .sub :: us) (.neg t) := by
  intro rest n hn
  rw [List.length_cons] at hn
  obtain ⟨n, rfl⟩ : ∃ k, n = k + 1 := ⟨n - 1, by omega⟩
  rw [List.cons_append, unary, h rest n (by omega)]
  rfl

theorem ParsesConditional.group (h : ParsesConditional us t) :
    ParsesUnary (.opening :: (us ++ [.closing])) t := by
  intro rest n hn
  have hinner := fun m hm => h (.closing :: rest) m (by simp [Ends]) (by simp) hm
  have hshape : .opening :: (us ++ [.closing]) ++ rest = .opening :: (us ++ .closing :: rest) := by
    simp
  rw [hshape]
  exact unary_parenthesized hinner n (by simp at hn; omega)

theorem ParsesUnary.parsesBinary (hus : us ≠ []) (h : ParsesUnary us t) : ParsesBinary 6 us t := by
  intro rest n _ hn
  have hpos := List.length_pos_iff.2 hus
  obtain ⟨n, rfl⟩ : ∃ k, n = k + 1 := ⟨n - 1, by omega⟩
  rw [binary, if_pos rfl]
  exact h rest n (by omega)

theorem ParsesBinary.startsChain (hlevel : level ≤ 5) (hus : us ≠ [])
    (h : ParsesBinary (level + 1) us t) : StartsChain level us t := by
  intro rest reading b hends htail n hn
  have hpos := List.length_pos_iff.2 hus
  obtain ⟨n, rfl⟩ : ∃ k, n = k + 1 := ⟨n - 1, by omega⟩
  rw [binary, if_neg (by omega), h rest n hends (by omega), Option.bind_some]
  exact htail n (by omega)

/-- A chain is continued by an operator of its level and an operand of the next one.  The chain is
read from the left, so the first part of it is not read up to its end: it is continued. -/
theorem StartsChain.link {o : Operator} (h : StartsChain o.level us t)
    (hv : ParsesBinary (o.level + 1) vs u) :
    StartsChain o.level (us ++ .operator o :: vs) (.binary o t u) := by
  intro rest reading b hends htail n hn
  have hshape : us ++ .operator o :: vs ++ rest = us ++ .operator o :: (vs ++ rest) := by simp
  have hnext : ∀ m, b + 10 * vs.length + 4 ≤ m →
      binaryTail m o.level t (.operator o :: (vs ++ rest)) = reading := by
    intro m hm
    obtain ⟨m, rfl⟩ : ∃ k, m = k + 1 := ⟨m - 1, by omega⟩
    rw [binaryTail, if_pos rfl, hv rest m hends (by omega), Option.bind_some]
    exact htail m (by omega)
  rw [List.length_append, List.length_cons] at hn
  rw [hshape]
  exact h _ reading _ (by simp [Ends]) hnext n (by omega)

theorem StartsChain.parsesBinary (h : StartsChain level us t) : ParsesBinary level us t := by
  intro rest n hends hn
  refine h rest _ 1 (hends.mono (Nat.le_succ level)) (fun m hm => ?_) n (by omega)
  obtain ⟨m, rfl⟩ : ∃ k, m = k + 1 := ⟨m - 1, by omega⟩
  exact binaryTail_of_ends hends m t

theorem ParsesBinary.mono {m : Nat} (hle : level ≤ m) (hm : m ≤ 6) (hus : us ≠ [])
    (h : ParsesBinary m us t) : ParsesBinary level us t := by
  induction hle with
  | refl => exact h
  | step _ ih => exact ih (by omega) (h.startsChain (by omega) hus).parsesBinary

theorem ParsesBinary.parsesConditional (h : ParsesBinary 0 us t) : ParsesConditional us t :=
  fun rest n hends hrest hn =>
    conditional_of_binary hrest (fun m hm => h rest m hends (by omega)) n hn

theorem ParsesConditional.choice (hc : ParsesBinary 0 us t) (ht : ParsesConditional vs u)
    (hf : ParsesConditional ws v) :
    ParsesConditional (us ++ .question :: (vs ++ .colon :: ws)) (.choice t u v) := by
  intro rest n hends hrest hn
  have hshape : us ++ .question :: (vs ++ .colon :: ws) ++ rest =
      us ++ .question :: (vs ++ .colon :: (ws ++ rest)) := by simp
  simp only [List.length_append, List.length_cons] at hn
  rw [hshape]
  exact conditional_choice (k := n - 1) (fun m hm => hc _ m (by simp [Ends]) (by omega))
    (fun m hm => ht _ m (by simp [Ends]) (by simp) (by omega))
    (fun m hm => hf rest m hends hrest (by omega)) n (by omega)

theorem ParsesConditional.parse?_eq (h : ParsesConditional us t) : parse? us = some t := by
  have hread := h [] (10 * (us.length + 1)) (by simp [Ends]) (by simp) (by omega)
  rw [List.append_nil] at hread
  rw [parse?, hread]

end C

namespace Fold

/-! ## Tokens -/

/-- The token of C. -/
def Token.toC : Token → C.Token
  | .int n => .int n.toNat
  | .question => .question
  | .colon => .colon
  | .and => .operator .and
  | .or => .operator .or
  | .eq => .operator .eq
  | .ne => .operator .ne
  | .ge => .operator .ge
  | .le => .operator .le
  | .gt => .operator .gt
  | .lt => .operator .lt
  | .plus => .operator .add
  | .minus => .operator .sub
  | .star => .operator .mul
  | .slash => .operator .div
  | .opening => .opening
  | .closing => .closing

theorem single?_toC {c : Char} {t : Token} (h : single? c = some t) :
    C.single? c = some t.toC := by
  unfold single? at h
  split at h <;> simp only [reduceCtorEq, Option.some.injEq] at h <;> subst h <;> rfl

theorem double?_toC {c d : Char} {t : Token} (h : double? c d = some t) :
    C.double? c (some d) = some t.toC := by
  unfold double? at h
  split at h <;> simp only [reduceCtorEq, Option.some.injEq] at h <;> subst h <;> rfl

theorem double?_toC_eq_none {c : Char} {r : Text} (h : ∀ d ∈ r.head?, double? c d = none) :
    C.double? c r.head? = none := by
  unfold C.double?
  split <;> simp_all [double?]

/-- An integer without leading zeros is an integer of C. -/
theorem wordToken?_digits {d r : Text} {n : Int} (hd : ∀ c ∈ d, isAsciiDigit c = true)
    (hn : readInt? d = some n) (hzero : hasLeadingZero false (d ++ r) = false) :
    C.wordToken? d = some (.int n.toNat) := by
  rw [readInt?_of_digits hd] at hn
  obtain ⟨m, hm, hint⟩ := Option.bind_eq_some_iff.1 hn
  obtain ⟨rfl, -⟩ := int64?_eq_some_iff.1 hint
  have hname : ¬ C.IsIdentifier d := by
    rintro ⟨⟨hne, -⟩, hfirst⟩
    obtain ⟨c, e, rfl⟩ := List.exists_cons_of_ne_nil hne
    exact absurd (hfirst c rfl) (by simp [hd c List.mem_cons_self])
  have hplain : ¬ (1 < d.length ∧ d.head? = some '0') := by
    rintro ⟨hlen, hhead⟩
    match d with
    | [] | [_] => exact absurd hlen (by simp)
    | c :: e :: d =>
      obtain rfl := Option.some.inj hhead
      have he : isAsciiDigit e = true := hd e (by simp)
      simp [hasLeadingZero, he] at hzero
  rw [C.wordToken?, if_neg hname, if_neg hplain, hm]
  rfl

theorem hasLeadingZero_digits {d r : Text} (hd : ∀ c ∈ d, isAsciiDigit c = true)
    (hr : ∀ c ∈ r.head?, isAsciiDigit c = false) {b : Bool}
    (h : hasLeadingZero b (d ++ r) = false) : hasLeadingZero false r = false := by
  induction d generalizing b with
  | nil =>
    cases r with
    | nil => rfl
    | cons c r =>
      have hc : (c == '0') = false := by
        rw [beq_eq_false_iff_ne]
        rintro rfl
        exact absurd (hr '0' rfl) (by decide)
      simpa [hasLeadingZero, hc] using h
  | cons c d ih =>
    rw [List.cons_append, hasLeadingZero, Bool.or_eq_false_iff] at h
    exact ih (fun x hx => hd x (List.mem_cons_of_mem c hx)) h.2

theorem hasLeadingZero_tail {c : Char} {r : Text} (hc : isAsciiDigit c = false) {b : Bool}
    (h : hasLeadingZero b (c :: r) = false) : hasLeadingZero false r = false := by
  rw [hasLeadingZero, Bool.or_eq_false_iff, hc] at h
  exact h.2

/-- C divides a text as the reader of literals does, if no integer has leading zeros. -/
theorem Lexes.tokens?_toC {s : Text} {ts : List Token} (h : Lexes s ts)
    (hzero : hasLeadingZero false s = false) : C.tokens? s = some (ts.map Token.toC) := by
  induction h with
  | nil => rfl
  | blank hc _ ih =>
    rw [C.tokens?_blank (isWordChar_of_isBlank hc) hc,
      ih (hasLeadingZero_tail (isAsciiDigit_of_isBlank hc) hzero)]
  | @int d s n ts hd hs hn h ih =>
    have hword : IsWord d := ⟨by rintro rfl; exact absurd hn (by simp [readInt?, digitsValue?]),
      fun c hc => isWordChar_of_isAsciiDigit (hd c hc)⟩
    -- A number ends before a blank or a mark, never inside a word.
    have hend : ∀ c ∈ s.head?, isWordChar c = false := by
      intro c hc
      rcases h.char c (List.mem_of_mem_head? hc) with hblank | hdigit | hmark
      · exact isWordChar_of_isBlank hblank
      · exact absurd hdigit (by simp [hs c hc])
      · exact isWordChar_markCharacters c hmark
    rw [C.tokens?_word hword hend (wordToken?_digits hd hn hzero),
      ih (hasLeadingZero_digits hd hs hzero)]
    rfl
  | @mark t s ts ht hlongest _ ih =>
    have hword := fun c hc => isWordChar_markCharacters c (t.mem_markCharacters c hc)
    have hdigit : ∀ c ∈ t.mark, isAsciiDigit c = false := fun c hc => by
      rw [← Bool.not_eq_true]
      exact fun hd => absurd (isWordChar_of_isAsciiDigit hd) (by simp [hword c hc])
    rcases t.mark_cases with ⟨n, rfl⟩ | ⟨c, hmark, hsingle⟩ | ⟨c, d, hmark, hdouble⟩
    · exact absurd rfl ht
    · rw [hmark] at hlongest hzero hword hdigit ⊢
      -- The longest mark of this language is also the longest one that C reads here.
      have hblank := (isMark_of_single? hsingle).2
      have hnone := double?_toC_eq_none ((Token.isLongestIn_single_iff hmark s).1 hlongest)
      rw [List.singleton_append, C.tokens?_single (hword c (by simp)) hblank hnone
        (single?_toC hsingle), ih (hasLeadingZero_tail (hdigit c (by simp)) hzero)]
      rfl
    · rw [hmark] at hzero hword hdigit ⊢
      have hblank := (isMark_of_double? hdouble).2
      have hrest := hasLeadingZero_tail (hdigit d (by simp))
        (hasLeadingZero_tail (hdigit c (by simp)) hzero)
      rw [List.cons_append, List.singleton_append, C.tokens?_double (hword c (by simp)) hblank
        (double?_toC hdouble), ih hrest]
      rfl

/-- The integers of a text have no sign. -/
theorem Lexes.nonneg {s : Text} {ts : List Token} (h : Lexes s ts) :
    ∀ n, .int n ∈ ts → 0 ≤ n := by
  induction h with
  | nil => simp
  | blank _ _ ih => exact ih
  | int hd _ hn _ ih =>
    intro m hm
    rcases List.mem_cons.1 hm with heq | hm
    · obtain rfl := Token.int.inj heq
      rw [readInt?_of_digits hd] at hn
      obtain ⟨k, -, hk⟩ := Option.bind_eq_some_iff.1 hn
      obtain ⟨rfl, -⟩ := int64?_eq_some_iff.1 hk
      exact Int.natCast_nonneg k
    · exact ih m hm
  | mark ht _ _ ih =>
    intro m hm
    rcases List.mem_cons.1 hm with rfl | hm
    · exact absurd rfl ht
    · exact ih m hm

/-! ## Trees

Parentheses are a node of a tree of literals, and leave no trace in a tree of C.  A tree with
parentheses added therefore has the tokens of another text and the value of this one. -/

/-- The tree of C that a tree of literals is: parentheses leave no trace. -/
inductive Tree.Translates : Tree → C.Tree → Prop
  | int (n : Nat) : Translates (.int n) (.int n)
  | group {t : Tree} {u : C.Tree} (h : Translates t u) : Translates (.group t) u
  | negative {t : Tree} {u : C.Tree} (h : Translates t u) : Translates (.negative t) (.neg u)
  | binary {o : Token} {p : C.Operator} {l r : Tree} {l' r' : C.Tree} (ho : o.toC = .operator p)
      (hl : Translates l l') (hr : Translates r r') : Translates (.binary o l r) (.binary p l' r')
  | choice {c t f : Tree} {c' t' f' : C.Tree} (hc : Translates c c') (ht : Translates t t')
      (hf : Translates f f') : Translates (.choice c t f) (.choice c' t' f')

theorem Tree.tokens_ne_nil (t : Tree) : t.tokens ≠ [] := by
  cases t <;> simp [tokens]

theorem Token.value?_toC {o : Token} {p : C.Operator} (ho : o.toC = .operator p) {a b v : Int}
    (h : o.value? a b = some v) : p.value? a (some b) = some v := by
  cases o <;> simp only [toC, reduceCtorEq, C.Token.operator.injEq] at ho <;> subst ho
  case and | or => grind [value?, C.Operator.value?, C.Operator.truth]
  case slash =>
    rw [value?, Option.ite_none_left_eq_some] at h
    obtain ⟨hb, hv⟩ := h
    obtain ⟨rfl, -⟩ := int64?_eq_some_iff.1 hv
    simp [C.Operator.value?, hb]
  case star | plus | minus =>
    obtain ⟨rfl, -⟩ := int64?_eq_some_iff.1 h
    rfl
  all_goals
    obtain rfl := Option.some.inj h
    simp [C.Operator.value?, C.Operator.truth]

/-- C gives a tree of literals the value that it has, if each part of it has one. -/
theorem Tree.Translates.value?_eq {t : Tree} {u : C.Tree} (h : t.Translates u)
    (ρ : C.Environment) {v : Int} (hv : t.value? = some v) : u.value? ρ = some v := by
  induction h generalizing v with
  | int n => exact hv
  | group _ ih => exact ih hv
  | negative _ ih =>
    obtain ⟨a, ha, hneg⟩ := Option.bind_eq_some_iff.1 hv
    obtain ⟨rfl, -⟩ := int64?_eq_some_iff.1 hneg
    rw [C.Tree.value?, ih ha]
    rfl
  | binary ho _ _ ihl ihr =>
    simp only [value?, Option.bind_eq_some_iff] at hv
    obtain ⟨a, ha, b, hb, hab⟩ := hv
    rw [C.Tree.value?, ihl ha, ihr hb]
    exact Token.value?_toC ho hab
  | choice _ _ _ ihc iht ihf =>
    simp only [value?, Option.bind_eq_some_iff] at hv
    obtain ⟨a, ha, b, hb, d, hd, heq⟩ := hv
    obtain rfl := Option.some.inj heq
    rw [C.Tree.value?, ihc ha, iht hb, ihf hd, Option.bind_some]
    split <;> rfl

/-- How tightly C binds the operators of a chain; of those of logic, `&&` comes above `||`. -/
def Level.levelC : Level → Nat
  | term => 5
  | additive => 4
  | logic => 0

theorem Level.toC_of_mem {l : Level} {o : Token} (h : o ∈ l.operators) :
    ∃ p, o.toC = .operator p ∧ (o ≠ .and → p.level = l.levelC) := by
  cases l <;> simp only [operators, List.mem_cons, List.not_mem_nil, or_false] at h <;>
    rcases h with rfl | rfl <;> exact ⟨_, rfl, by decide⟩

theorem toC_of_mem_comparisons {o : Token} (h : o ∈ comparisons) :
    ∃ p, o.toC = .operator p ∧ (p.level = 2 ∨ p.level = 3) := by
  simp only [comparisons, List.mem_cons, List.not_mem_nil, or_false] at h
  rcases h with rfl | rfl | rfl | rfl | rfl | rfl <;> exact ⟨_, rfl, by decide⟩

/-- A tree of the grammar is a tree of C, if no integer of it is negative. -/
theorem Derives.exists_translates {p : Part} {t : Tree} (h : Derives p t)
    (hint : ∀ n, .int n ∈ t.tokens → 0 ≤ n) : ∃ u, t.Translates u := by
  induction h with
  | int n =>
    obtain ⟨m, rfl⟩ := Int.eq_ofNat_of_zero_le (hint n (by simp [Tree.tokens]))
    exact ⟨.int m, .int m⟩
  | group _ ih =>
    obtain ⟨u, hu⟩ := ih fun n hn => hint n (by simp [Tree.tokens, hn])
    exact ⟨u, .group hu⟩
  | negative _ ih =>
    obtain ⟨u, hu⟩ := ih fun n hn => hint n (by simp [Tree.tokens, hn])
    exact ⟨.neg u, .negative hu⟩
  | operand _ ih | single _ ih | plain _ ih => exact ih hint
  | link ho _ _ ihl ihr =>
    obtain ⟨l, hl⟩ := ihl fun n hn => hint n (by simp [Tree.tokens, hn])
    obtain ⟨r, hr⟩ := ihr fun n hn => hint n (by simp [Tree.tokens, hn])
    obtain ⟨p, hp, -⟩ := Level.toC_of_mem ho
    exact ⟨.binary p l r, .binary hp hl hr⟩
  | compare ho _ _ ihl ihr =>
    obtain ⟨l, hl⟩ := ihl fun n hn => hint n (by simp [Tree.tokens, hn])
    obtain ⟨r, hr⟩ := ihr fun n hn => hint n (by simp [Tree.tokens, hn])
    obtain ⟨p, hp, -⟩ := toC_of_mem_comparisons ho
    exact ⟨.binary p l r, .binary hp hl hr⟩
  | choice _ _ _ ihc iht ihf =>
    obtain ⟨c, hc⟩ := ihc fun n hn => hint n (by simp [Tree.tokens, hn])
    obtain ⟨t, ht⟩ := iht fun n hn => hint n (by simp [Tree.tokens, hn])
    obtain ⟨f, hf⟩ := ihf fun n hn => hint n (by simp [Tree.tokens, hn])
    exact ⟨.choice c t f, .choice hc ht hf⟩

/-! ## The order of logical operators

The chain `a || b && c` is read from the left by one reader and with `b && c` first by the other
one.  They differ only there: a chain in which `&&` comes before `||` is the same to both. -/

namespace Tree

/-- The operator of a tree that stands in no parentheses. -/
def operator? : Tree → Option Token
  | binary o _ _ => some o
  | _ => none

/-- In no chain of operators `&&` stands behind `||`. -/
def IsOrdered : Tree → Prop
  | int _ => True
  | group t | negative t => t.IsOrdered
  | binary o l r => (o = .and → l.operator? ≠ some .or) ∧ l.IsOrdered ∧ r.IsOrdered
  | choice c t f => c.IsOrdered ∧ t.IsOrdered ∧ f.IsOrdered

/-- The tree with parentheses around what stands before an `&&`, if `||` is among it. -/
def grouped : Tree → Tree
  | int n => int n
  | group t => group t.grouped
  | negative t => negative t.grouped
  | binary o l r =>
    binary o (if o = .and ∧ l.operator? = some .or then group l.grouped else l.grouped) r.grouped
  | choice c t f => choice c.grouped t.grouped f.grouped

theorem operator?_grouped (t : Tree) : t.grouped.operator? = t.operator? := by
  cases t <;> rfl

theorem isOrdered_grouped (t : Tree) : t.grouped.IsOrdered := by
  induction t with
  | int => trivial
  | group _ ih | negative _ ih => exact ih
  | binary o l r ihl ihr =>
    rw [grouped]
    split
    · exact ⟨fun _ => by simp [operator?], ihl, ihr⟩
    · rename_i h
      rw [not_and] at h
      exact ⟨fun ho => by rw [operator?_grouped]; exact h ho, ihl, ihr⟩
  | choice _ _ _ ihc iht ihf => exact ⟨ihc, iht, ihf⟩

/-- An ordered tree needs no more parentheses. -/
theorem IsOrdered.grouped_eq {t : Tree} (h : t.IsOrdered) : t.grouped = t := by
  induction t with
  | int => rfl
  | group _ ih | negative _ ih => rw [grouped, ih h]
  | binary o l r ihl ihr =>
    obtain ⟨ho, hl, hr⟩ := h
    rw [grouped, if_neg (not_and.2 ho), ihl hl, ihr hr]
  | choice _ _ _ ihc iht ihf => rw [grouped, ihc h.1, iht h.2.1, ihf h.2.2]

theorem value?_grouped (t : Tree) : t.grouped.value? = t.value? := by
  induction t with
  | int => rfl
  | group _ ih => exact ih
  | negative _ ih => rw [grouped, value?, value?, ih]
  | binary o l r ihl ihr =>
    rw [grouped]
    split <;> simp only [value?, ihl, ihr]
  | choice _ _ _ ihc iht ihf => simp only [grouped, value?, ihc, iht, ihf]

end Tree

theorem Derives.logic_of_atom {t : Tree} (h : Derives .atom t) : Derives (.chain .logic) t :=
  .operand (.single (.operand (.operand h)))

theorem Derives.grouped {p : Part} {t : Tree} (h : Derives p t) : Derives p t.grouped := by
  induction h with
  | int n => exact .int n
  | group _ ih => exact .group ih
  | negative _ ih => exact .negative ih
  | operand _ ih => exact .operand ih
  | @link l o t u ho _ _ ihl ihr =>
    rw [Tree.grouped]
    split
    · rename_i hand
      obtain rfl := hand.1
      -- only the chains of logic have this operator
      cases l with
      | logic => exact .link ho (logic_of_atom (.group (.plain ihl))) ihr
      | _ => exact absurd ho (by decide)
    · exact .link ho ihl ihr
  | single _ ih => exact .single ih
  | compare ho _ _ ihl ihr =>
    rw [Tree.grouped, if_neg (by rintro ⟨rfl, -⟩; exact absurd ho (by decide))]
    exact .compare ho ihl ihr
  | plain _ ih => exact .plain ih
  | choice _ _ _ ihc iht ihf => exact .choice ihc iht ihf

/-! ## C reads the grammar -/

/-- The tokens of a tree, to C. -/
def Tree.tokensC (t : Tree) : List C.Token := t.tokens.map Token.toC

/-- A tree of a part of the grammar is read by C.  A chain of logic that ends with `||` cannot be
continued by `&&`, which binds tighter. -/
def Part.ParsesC : Part → Tree → C.Tree → Prop
  | atom, t, u => C.ParsesUnary t.tokensC u
  | chain .term, t, u => C.StartsChain 5 t.tokensC u
  | chain .additive, t, u => C.StartsChain 4 t.tokensC u
  | chain .logic, t, u =>
    C.StartsChain 0 t.tokensC u ∧ (t.operator? ≠ some .or → C.StartsChain 1 t.tokensC u)
  | comparison, t, u => C.ParsesBinary 2 t.tokensC u
  | ternary, t, u => C.ParsesConditional t.tokensC u
  | tail _ _, _, _ => True

theorem Tree.tokensC_ne_nil (t : Tree) : t.tokensC ≠ [] := by
  simpa [tokensC] using t.tokens_ne_nil

theorem Tree.tokensC_binary {o : Token} {p : C.Operator} (ho : o.toC = .operator p) (l r : Tree) :
    (binary o l r).tokensC = l.tokensC ++ .operator p :: r.tokensC := by
  simp [tokensC, tokens, ho]

namespace Level

theorem parsesC_operand {l : Level} {t : Tree} {u : C.Tree} (h : l.operand.ParsesC t u) :
    (Part.chain l).ParsesC t u := by
  have hne := t.tokensC_ne_nil
  cases l with
  | term => exact (C.ParsesUnary.parsesBinary hne h).startsChain (by decide) hne
  | additive => exact (C.StartsChain.parsesBinary h).startsChain (by decide) hne
  | logic =>
    have hand : C.StartsChain 1 _ _ := C.ParsesBinary.startsChain (by decide) hne h
    exact ⟨hand.parsesBinary.startsChain (by decide) hne, fun _ => hand⟩

theorem parsesC_link {l : Level} {o : Token} {p : C.Operator} (ho : o ∈ l.operators)
    (hp : o.toC = .operator p) {t t' : Tree} {u u' : C.Tree}
    (hordered : o = .and → t.operator? ≠ some .or) (h : (Part.chain l).ParsesC t u)
    (h' : l.operand.ParsesC t' u') :
    (Part.chain l).ParsesC (.binary o t t') (.binary p u u') := by
  have hne := t'.tokensC_ne_nil
  have htokens := Tree.tokensC_binary hp t t'
  obtain ⟨q, hq, hlevel⟩ := toC_of_mem ho
  obtain rfl : q = p := C.Token.operator.inj (hq.symm.trans hp)
  cases l with
  | term =>
    have hlevel : q.level = 5 := hlevel (by rintro rfl; exact absurd ho (by decide))
    rw [Part.ParsesC, htokens, ← hlevel]
    exact C.StartsChain.link (by rwa [hlevel])
      (by rw [hlevel]; exact C.ParsesUnary.parsesBinary hne h')
  | additive =>
    have hlevel : q.level = 4 := hlevel (by rintro rfl; exact absurd ho (by decide))
    rw [Part.ParsesC, htokens, ← hlevel]
    exact C.StartsChain.link (by rwa [hlevel]) (by rw [hlevel]; exact C.StartsChain.parsesBinary h')
  | logic =>
    -- C reads an `&&` within an operand of `||`: only an ordered chain goes on with it
    rw [Part.ParsesC, htokens]
    simp only [operators, List.mem_cons, List.not_mem_nil, or_false] at ho
    rcases ho with rfl | rfl
    · cases hp
      have hand := C.StartsChain.link (o := .and) (h.2 (hordered rfl)) h'
      exact ⟨hand.parsesBinary.startsChain (by decide) (by simp), fun _ => hand⟩
    · cases hp
      have hor := C.StartsChain.link (o := .or) h.1
        (C.ParsesBinary.mono (m := 2) (by decide) (by decide) hne h')
      exact ⟨hor, fun hnot => absurd rfl hnot⟩

end Level

theorem parsesC_compare {o : Token} {p : C.Operator} (ho : o ∈ comparisons)
    (hp : o.toC = .operator p) {t t' : Tree} {u u' : C.Tree}
    (h : (Part.chain .additive).ParsesC t u) (h' : (Part.chain .additive).ParsesC t' u') :
    Part.comparison.ParsesC (.binary o t t') (.binary p u u') := by
  obtain ⟨q, hq, hlevel⟩ := toC_of_mem_comparisons ho
  obtain rfl : q = p := C.Token.operator.inj (hq.symm.trans hp)
  have hle : q.level + 1 ≤ 4 := by omega
  have hleft := (C.StartsChain.parsesBinary h).mono hle (by decide) t.tokensC_ne_nil
  have hright := (C.StartsChain.parsesBinary h').mono hle (by decide) t'.tokensC_ne_nil
  have hlink := C.StartsChain.link (hleft.startsChain (by omega) t.tokensC_ne_nil) hright
  rw [Part.ParsesC, Tree.tokensC_binary hp]
  exact hlink.parsesBinary.mono (by omega) (by omega) (by simp)

/-- C reads each part of an ordered tree as the tree that it translates to. -/
theorem Derives.parsesC {p : Part} {t : Tree} (h : Derives p t) (hordered : t.IsOrdered)
    {u : C.Tree} (hu : t.Translates u) : p.ParsesC t u := by
  induction h generalizing u with
  | int n =>
    cases hu with
    | int m => exact C.parsesUnary_int m
  | @group t _ ih =>
    cases hu with
    | group hu =>
      have htokens : (Tree.group t).tokensC = .opening :: (t.tokensC ++ [.closing]) := by
        simp [Tree.tokensC, Tree.tokens, Token.toC]
      rw [Part.ParsesC, htokens]
      exact C.ParsesConditional.group (ih hordered hu)
  | negative _ ih =>
    cases hu with
    | negative hu => exact (ih hordered hu).minus
  | operand _ ih => exact Level.parsesC_operand (ih hordered hu)
  | link ho _ _ ihl ihr =>
    cases hu with
    | binary hp hl hr =>
      exact Level.parsesC_link ho hp hordered.1 (ihl hordered.2.1 hl) (ihr hordered.2.2 hr)
  -- A sum without a comparison is a C chain of every coarser level as well.
  | @single t _ ih =>
    exact C.ParsesBinary.mono (m := 4) (by decide) (by decide) t.tokensC_ne_nil
      (C.StartsChain.parsesBinary (ih hordered hu))
  | compare ho _ _ ihl ihr =>
    cases hu with
    | binary hp hl hr => exact parsesC_compare ho hp (ihl hordered.2.1 hl) (ihr hordered.2.2 hr)
  | plain _ ih => exact (ih hordered hu).1.parsesBinary.parsesConditional
  | @choice c t f _ _ _ ihc iht ihf =>
    cases hu with
    | choice hc ht hf =>
      have htokens : (Tree.choice c t f).tokensC =
          c.tokensC ++ .question :: (t.tokensC ++ .colon :: f.tokensC) := by
        simp [Tree.tokensC, Tree.tokens, Token.toC]
      rw [Part.ParsesC, htokens]
      exact C.ParsesConditional.choice (ihc hordered.1 hc).1.parsesBinary (iht hordered.2.1 ht)
        (ihf hordered.2.2 hf)

/-- **C gives a text the value of its tree**, if the tree is ordered. -/
theorem Derives.strictValue?_eq {t : Tree} (h : Derives .ternary t) (hordered : t.IsOrdered)
    {s : Text} (hs : Lexes s t.tokens) (hzero : hasLeadingZero false s = false)
    (hminus : ¬ C.HasDecrement s) (ρ : C.Environment) {n : Int} (hn : t.value? = some n) :
    C.strictValue? ρ s = some n := by
  obtain ⟨u, hu⟩ := h.exists_translates hs.nonneg
  have hparse : C.parse? (t.tokens.map Token.toC) = some u :=
    C.ParsesConditional.parse?_eq (h.parsesC hordered hu)
  rw [C.strictValue?, if_neg hminus, C.value?, hs.tokens?_toC hzero, Option.bind_some, hparse,
    Option.bind_some]
  exact hu.value?_eq ρ hn

end Fold

/-! ## Folding -/

namespace C

open Fold in
/-- **A text is folded to the value that C gives it**, unless an `&&` of it stands behind an `||` in
one chain or two minus signs stand side by side.  What stands before such an `&&` is grouped by
folding: the value is that of the text with parentheses there. -/
theorem strictValue?_of_fold? {s : Text} {n : Int} (h : fold? s = some n) :
    (∃ t, Derives .ternary t ∧ Lexes s t.tokens) ∧
    ∀ t, Derives .ternary t → Lexes s t.tokens → ∀ ρ,
      (t.IsOrdered → hasLeadingZero false s = false → ¬ HasDecrement s →
        strictValue? ρ s = some n) ∧
      ∀ s', Lexes s' t.grouped.tokens → hasLeadingZero false s' = false → ¬ HasDecrement s' →
        strictValue? ρ s' = some n := by
  obtain ⟨ts, hts, hreads⟩ := reads_of_fold? h
  obtain ⟨t, ht, -, rfl⟩ := hreads.exists_derives
  refine ⟨⟨t, ht, tokens?_eq_some_iff.1 hts⟩, fun t ht hs ρ => ?_⟩
  have hv : t.value? = some n := by
    rw [fold?, hs.tokens?_eq, Option.bind_some, ht.evaluate?_eq] at h
    exact (Option.ite_none_right_eq_some.1 h).2
  have hgrouped : ∀ s', Lexes s' t.grouped.tokens → hasLeadingZero false s' = false →
      ¬ HasDecrement s' → strictValue? ρ s' = some n := fun s' hs' hzero hminus =>
    ht.grouped.strictValue?_eq t.isOrdered_grouped hs' hzero hminus ρ (by rw [t.value?_grouped, hv])
  refine ⟨fun hordered hzero hminus => hgrouped s ?_ hzero hminus, hgrouped⟩
  rwa [hordered.grouped_eq]

open Fold in
theorem strictValue?_of_fold?_logic :
    (fold? "(2 - 5 * 3 < 4 && 1 || 0) ? 65 : 60 - -5".toList = some 65 ∧
      strictValue? (fun _ => 0) "(2 - 5 * 3 < 4 && 1 || 0) ? 65 : 60 - -5".toList = some 65) ∧
    fold? "(1 || 0 && 0) ? 1 : 2".toList = some 2 ∧
      strictValue? (fun _ => 0) "((1 || 0) && 0) ? 1 : 2".toList = some 2 := by
  have hsum : fold? "(2 - 5 * 3 < 4 && 1 || 0) ? 65 : 60 - -5".toList = some 65 := by
    decide +kernel
  have hlogic : fold? "(1 || 0 && 0) ? 1 : 2".toList = some 2 := by decide +kernel
  have hint : ∀ n, Derives .ternary (.int n) := fun n => .plain (.logic_of_atom (.int n))
  have hnumeral : ∀ n, Derives .comparison (.int n) := fun n =>
    .single (.operand (.operand (.int n)))
  have hcomparison : Derives .comparison
      (.binary .lt (.binary .minus (.int 2) (.binary .star (.int 5) (.int 3))) (.int 4)) :=
    .compare (by decide)
      (.link (by decide) (.operand (.operand (.int 2)))
        (.link (by decide) (.operand (.int 5)) (.int 3)))
      (.operand (.operand (.int 4)))
  have hcondition := Derives.link (l := .logic) (o := .or) (by decide)
    (.link (o := .and) (by decide) (.operand hcomparison) (hnumeral 1)) (hnumeral 0)
  have hdifference : Derives (.chain .additive) (.binary .minus (.int 60) (.negative (.int 5))) :=
    .link (by decide) (.operand (.operand (.int 60))) (.operand (.negative (.int 5)))
  have hordered := Derives.choice (.logic_of_atom (.group (.plain hcondition))) (hint 65)
    (.plain (.operand (.single hdifference)))
  have hunordered := Derives.link (l := .logic) (o := .and) (by decide)
    (.link (o := .or) (by decide) (.operand (hnumeral 1)) (hnumeral 0)) (hnumeral 0)
  have hgrouped := Derives.choice (.logic_of_atom (.group (.plain hunordered))) (hint 1) (hint 2)
  refine ⟨⟨hsum, ?_⟩, hlogic, ?_⟩
  · exact ((strictValue?_of_fold? hsum).2 _ hordered (tokens?_eq_some_iff.1 (by decide +kernel)) _).1
      (by simp [Tree.IsOrdered, Tree.operator?]) (by decide +kernel) (by decide +kernel)
  · exact ((strictValue?_of_fold? hlogic).2 _ hgrouped (tokens?_eq_some_iff.1 (by decide +kernel))
      _).2 _ (tokens?_eq_some_iff.1 (by decide +kernel)) (by decide +kernel) (by decide +kernel)

/-- `&&` binds tighter than `||` to C, and `--` stands before no integer. -/
theorem strictValue?_orBeforeAnd :
    (fold? "(1 || 0 && 0) ? 1 : 2".toList = some 2 ∧
      strictValue? (fun _ => 0) "(1 || 0 && 0) ? 1 : 2".toList = some 1) ∧
    fold? "(1 > 0) ? (--1) : 2".toList = some 1 ∧
      strictValue? (fun _ => 0) "(1 > 0) ? (--1) : 2".toList = none := by
  decide +kernel

end C

end TableSync
