import TableSync.Proofs.Expr.Folding
import TableSync.Proofs.Expr.Lexing

/-!
# The documented grammar and its values

The grammar of literal expressions is written down as it stands in its documentation, apart from the
functions that read it: a `Fold.Tree` is what can be put together from integers, operators and
parentheses, and `Fold.Derives` says which trees each part of the grammar has.  A tree has its
tokens (`Fold.Tree.tokens`), and a value if no part of it overflows or divides by zero, the branch
that is not chosen included (`Fold.Tree.value?`).

* `Fold.Reads.exists_derives` says that what is read is a tree of the grammar with its value.  What
  the induction carries is `Fold.Part.Yields`, which says of a chain that it goes on from any tree
  with the value that has been read.
* `Fold.Derives.evaluate?_eq` says that a tree of the grammar is read as a whole, and that it has no
  value for the reader exactly if it has none.  What the induction carries is `Fold.Part.Parses`,
  which is an equivalence, so that it covers the trees without a value, too.
* `fold?_eq_some_iff` puts both together with the tokens of a text.

The operators of a chain are grouped from the left, in the trees as in the reading, and a list of
tokens has one value at most (`Fold.Reads.det`).
-/

set_option autoImplicit false

namespace TableSync

namespace Fold

/-! ## Trees -/

/-- What is made of integers, parentheses and operators. -/
inductive Tree
  | int (n : Int)
  | group (t : Tree)
  | negative (t : Tree)
  | binary (o : Token) (l r : Tree)
  | choice (c t f : Tree)
  deriving DecidableEq

namespace Tree

/-- The tokens of a tree, from left to right. -/
def tokens : Tree → List Token
  | int n => [.int n]
  | group t => .opening :: (t.tokens ++ [.closing])
  | negative t => .minus :: t.tokens
  | binary o l r => l.tokens ++ o :: r.tokens
  | choice c t f => c.tokens ++ .question :: (t.tokens ++ .colon :: f.tokens)

end Tree

/-- What an operator makes of two integers: comparisons and logic give `1` or `0`, a quotient is
truncated toward zero, and arithmetic stays within 64 bits. -/
def Token.value? : Token → Int → Int → Option Int
  | .star, a, b => int64? (a * b)
  | .slash, a, b => if b = 0 then none else int64? (a.tdiv b)
  | .plus, a, b => int64? (a + b)
  | .minus, a, b => int64? (a - b)
  | .eq, a, b => some (if a = b then 1 else 0)
  | .ne, a, b => some (if a ≠ b then 1 else 0)
  | .ge, a, b => some (if b ≤ a then 1 else 0)
  | .le, a, b => some (if a ≤ b then 1 else 0)
  | .gt, a, b => some (if b < a then 1 else 0)
  | .lt, a, b => some (if a < b then 1 else 0)
  | .and, a, b => some (if a ≠ 0 ∧ b ≠ 0 then 1 else 0)
  | .or, a, b => some (if a ≠ 0 ∨ b ≠ 0 then 1 else 0)
  | _, _, _ => none

/-- The value of a tree, of which every part must have one. -/
def Tree.value? : Tree → Option Int
  | int n => some n
  | group t => t.value?
  | negative t => t.value?.bind fun a => int64? (-a)
  | binary o l r => l.value?.bind fun a => r.value?.bind fun b => o.value? a b
  | choice c t f => c.value?.bind fun a => t.value?.bind fun b => f.value?.bind fun d =>
      some (if a ≠ 0 then b else d)

/-! ## The grammar -/

/-- The operators between the operands of a chain. -/
def Level.operators : Level → List Token
  | term => [.star, .slash]
  | additive => [.plus, .minus]
  | logic => [.and, .or]

/-- The operators of a comparison. -/
def comparisons : List Token := [.eq, .ne, .ge, .le, .gt, .lt]

/-- `Derives p t`: the part `p` of the grammar has the tree `t`.  The operators of a chain are
grouped from the left. -/
inductive Derives : Part → Tree → Prop
  | int (n : Int) : Derives .atom (.int n)
  | group {t : Tree} (h : Derives .ternary t) : Derives .atom (.group t)
  | negative {t : Tree} (h : Derives .atom t) : Derives .atom (.negative t)
  | operand {l : Level} {t : Tree} (h : Derives l.operand t) : Derives (.chain l) t
  | link {l : Level} {o : Token} {t u : Tree} (ho : o ∈ l.operators) (h : Derives (.chain l) t)
      (hu : Derives l.operand u) : Derives (.chain l) (.binary o t u)
  | single {t : Tree} (h : Derives (.chain .additive) t) : Derives .comparison t
  | compare {o : Token} {t u : Tree} (ho : o ∈ comparisons) (h : Derives (.chain .additive) t)
      (hu : Derives (.chain .additive) u) : Derives .comparison (.binary o t u)
  | plain {t : Tree} (h : Derives (.chain .logic) t) : Derives .ternary t
  | choice {c t f : Tree} (hc : Derives (.chain .logic) c) (ht : Derives .ternary t)
      (hf : Derives .ternary f) : Derives .ternary (.choice c t f)

/-! ## The operators of the grammar -/

theorem Level.step?_eq_of_mem {l : Level} {o : Token} (h : o ∈ l.operators) :
    l.step? o = some o.value? := by
  cases l <;> simp only [operators, List.mem_cons, List.not_mem_nil, or_false] at h <;>
    rcases h with rfl | rfl <;> simp [step?, Token.value?, quotient?, ofBool, funext_iff]

theorem Level.mem_of_step? {l : Level} {o : Token} {f : Int → Int → Option Int}
    (h : l.step? o = some f) : o ∈ l.operators ∧ f = o.value? := by
  have hmem : o ∈ l.operators := by
    cases l <;> cases o <;> simp_all [step?, operators]
  exact ⟨hmem, Option.some.inj (h.symm.trans (step?_eq_of_mem hmem))⟩

theorem Level.rank_of_mem {l : Level} {o : Token} (h : o ∈ l.operators) :
    l.operand.rank < o.rank := by
  cases l <;> simp only [operators, List.mem_cons, List.not_mem_nil, or_false] at h <;>
    rcases h with rfl | rfl <;> decide

theorem comparison?_of_mem {o : Token} (h : o ∈ comparisons) :
    ∃ holds, comparison? o = some holds ∧ ∀ a b, o.value? a b = some (ofBool (holds a b)) := by
  simp only [comparisons, List.mem_cons, List.not_mem_nil, or_false] at h
  rcases h with rfl | rfl | rfl | rfl | rfl | rfl <;>
    exact ⟨_, rfl, by simp [Token.value?, ofBool]⟩

theorem mem_of_comparison? {o : Token} {holds : Int → Int → Bool} (h : comparison? o = some holds) :
    o ∈ comparisons := by
  cases o <;> simp_all [comparison?, comparisons]

theorem rank_of_mem_comparisons {o : Token} (h : o ∈ comparisons) : o.rank = 3 := by
  simp only [comparisons, List.mem_cons, List.not_mem_nil, or_false] at h
  rcases h with rfl | rfl | rfl | rfl | rfl | rfl <;> rfl

/-! ## What is read is in the grammar -/

/-- The tokens up to `rest` are those of a tree with the value; a chain is continued from any tree
of it that has the value so far. -/
def Part.Yields : Part → List Token → Int → List Token → Prop
  | tail l lhs, ts, v, rest => ∀ t, Derives (.chain l) t → t.value? = some lhs →
      ∃ u, Derives (.chain l) u ∧ u.value? = some v ∧ t.tokens ++ ts = u.tokens ++ rest
  | p, ts, v, rest => ∃ t, Derives p t ∧ t.value? = some v ∧ ts = t.tokens ++ rest

theorem Level.yields_operand {l : Level} {ts rest : List Token} {v : Int}
    (h : l.operand.Yields ts v rest) :
    ∃ t, Derives l.operand t ∧ t.value? = some v ∧ ts = t.tokens ++ rest := by
  cases l <;> exact h

theorem Reads.yields {p : Part} {ts rest : List Token} {v : Int} (h : Reads p ts v rest) :
    p.Yields ts v rest := by
  induction h with
  | int n rest => exact ⟨.int n, .int n, rfl, rfl⟩
  | group _ ih =>
    obtain ⟨t, ht, hv, rfl⟩ := ih
    exact ⟨.group t, .group ht, hv, by simp [Tree.tokens]⟩
  | negative _ hneg ih =>
    obtain ⟨t, ht, hv, rfl⟩ := ih
    exact ⟨.negative t, .negative ht, by simp [Tree.value?, hv, int64?, hneg], rfl⟩
  | chain _ _ ih ih' =>
    obtain ⟨t, ht, hv, rfl⟩ := Level.yields_operand ih
    exact ih' t (.operand ht) hv
  | @step l o f _ _ _ lhs rhs w _ hstep _ hw _ ih ih' =>
    obtain ⟨hmem, rfl⟩ := Level.mem_of_step? hstep
    obtain ⟨u, hu, hrhs, rfl⟩ := Level.yields_operand ih
    intro t ht hlhs
    obtain ⟨x, hx, hv, htokens⟩ := ih' (.binary o t u) (.link hmem ht hu)
      (by simp [Tree.value?, hlhs, hrhs, hw])
    exact ⟨x, hx, hv, by simpa [Tree.tokens] using htokens⟩
  | done _ => exact fun t ht hv => ⟨t, ht, hv, rfl⟩
  | @compare o holds _ _ _ _ _ _ hcomparison _ ih ih' =>
    obtain ⟨t, ht, hlhs, rfl⟩ := ih
    obtain ⟨u, hu, hrhs, rfl⟩ := ih'
    have hmem := mem_of_comparison? hcomparison
    obtain ⟨holds', hholds, hvalue⟩ := comparison?_of_mem hmem
    obtain rfl : holds = holds' := Option.some.inj (hcomparison.symm.trans hholds)
    exact ⟨.binary o t u, .compare hmem ht hu, by simp [Tree.value?, hlhs, hrhs, hvalue],
      by simp [Tree.tokens]⟩
  | single _ _ ih =>
    obtain ⟨t, ht, hv, rfl⟩ := ih
    exact ⟨t, .single ht, hv, rfl⟩
  | choice _ _ _ ih ih' ih'' =>
    obtain ⟨c, hc, hcv, rfl⟩ := ih
    obtain ⟨t, ht, htv, rfl⟩ := ih'
    obtain ⟨f, hf, hfv, rfl⟩ := ih''
    exact ⟨.choice c t f, .choice hc ht hf, by simp [Tree.value?, hcv, htv, hfv],
      by simp [Tree.tokens]⟩
  | plain _ _ ih =>
    obtain ⟨t, ht, hv, rfl⟩ := ih
    exact ⟨t, .plain ht, hv, rfl⟩

/-- What is read as a whole is a tree of the grammar, and its value is that of the tree. -/
theorem Reads.exists_derives {ts : List Token} {v : Int} (h : Reads .ternary ts v []) :
    ∃ t, Derives .ternary t ∧ t.value? = some v ∧ ts = t.tokens := by
  obtain ⟨t, ht, hv, hts⟩ := h.yields
  exact ⟨t, ht, hv, by rwa [List.append_nil] at hts⟩

/-! ## What is in the grammar is read

A tree may have no value, and then nothing is to be read.  That is why the lemmas on the parts are
equivalences: each says what is read of a tree in terms of what is read of the trees in it. -/

theorem reads_chain_iff {l : Level} {ts rest : List Token} {v : Int} :
    Reads (.chain l) ts v rest ↔
      ∃ a ts', Reads l.operand ts a ts' ∧ Reads (.tail l a) ts' v rest := by
  constructor
  · intro h
    cases h with
    | chain h htail => exact ⟨_, _, h, htail⟩
  · rintro ⟨a, ts', h, htail⟩
    exact .chain h htail

theorem reads_step_iff {l : Level} {o : Token} (ho : o ∈ l.operators) {ts rest : List Token}
    {a v : Int} : Reads (.tail l a) (o :: ts) v rest ↔
      ∃ b w ts', Reads l.operand ts b ts' ∧ o.value? a b = some w ∧
        Reads (.tail l w) ts' v rest := by
  have hstep := Level.step?_eq_of_mem ho
  constructor
  · intro h
    cases h with
    | step ht h hw htail =>
      obtain rfl := Option.some.inj (hstep.symm.trans ht)
      exact ⟨_, _, _, h, hw, htail⟩
    | done h => exact absurd (hstep.symm.trans (h o rfl)) (by simp)
  · rintro ⟨b, w, ts', h, hw, htail⟩
    exact .step hstep h hw htail

theorem reads_done_iff {l : Level} {ts rest : List Token} {a v : Int}
    (h : (Part.chain l).StopsAt ts) : Reads (.tail l a) ts v rest ↔ a = v ∧ rest = ts := by
  have hnone : ∀ t ∈ ts.head?, l.step? t = none := fun t ht => Level.step?_eq_none (h t ht)
  constructor
  · intro hreads
    cases hreads with
    | step ht => exact absurd (ht.symm.trans (hnone _ rfl)) (by simp)
    | done => exact ⟨rfl, rfl⟩
  · rintro ⟨rfl, rfl⟩
    exact .done hnone

/-- A tree is read where nothing goes on with it, with its value if it has one; a chain is read up
to where its next operand would have to end. -/
def Part.Parses : Part → Tree → Prop
  | chain l, t => ∀ rest v r, l.operand.StopsAt rest →
      (Reads (.chain l) (t.tokens ++ rest) v r ↔
        ∃ a, t.value? = some a ∧ Reads (.tail l a) rest v r)
  | p, t => ∀ rest v r, p.StopsAt rest →
      (Reads p (t.tokens ++ rest) v r ↔ t.value? = some v ∧ r = rest)

theorem Part.Parses.reads_iff {p : Part} {t : Tree} (h : p.Parses t) (rest : List Token)
    {r : List Token} {v : Int} (hstops : p.StopsAt rest) : Reads p (t.tokens ++ rest) v r ↔ t.value? = some v ∧ r = rest := by
  cases p with
  | chain l =>
    rw [h rest v r (hstops.mono l.rank_operand_le)]
    simp [reads_done_iff hstops]
  | _ => exact h rest v r hstops

namespace Part.Parses

theorem int (n : Int) : Part.atom.Parses (.int n) := by
  intro rest v r _
  constructor
  · intro hreads
    cases hreads
    exact ⟨rfl, rfl⟩
  · rintro ⟨hv, rfl⟩
    obtain rfl := Option.some.inj hv
    exact .int n _

theorem group {t : Tree} (h : Part.ternary.Parses t) : Part.atom.Parses (.group t) := by
  intro rest v r _
  have hiff := fun r => h.reads_iff (.closing :: rest) (r := r) (v := v)
    (by simp [Part.StopsAt, Part.rank, Token.rank])
  have hshape : (Tree.group t).tokens ++ rest = .opening :: (t.tokens ++ .closing :: rest) := by
    simp [Tree.tokens]
  rw [hshape]
  constructor
  · intro hreads
    cases hreads with
    | group hreads =>
      obtain ⟨hv, hr⟩ := (hiff _).1 hreads
      exact ⟨hv, (List.cons.inj hr).2⟩
  · rintro ⟨hv, rfl⟩
    exact .group ((hiff _).2 ⟨hv, rfl⟩)

theorem negative {t : Tree} (h : Part.atom.Parses t) : Part.atom.Parses (.negative t) := by
  intro rest v r hstops
  constructor
  · intro hreads
    cases hreads with
    | negative hreads hneg =>
      obtain ⟨hv, hr⟩ := (h.reads_iff rest hstops).1 hreads
      exact ⟨by simp [Tree.value?, hv, int64?, hneg], hr⟩
  · rintro ⟨hv, rfl⟩
    obtain ⟨a, ha, hneg⟩ := Option.bind_eq_some_iff.1 hv
    obtain ⟨rfl, hint⟩ := int64?_eq_some_iff.1 hneg
    exact .negative ((h.reads_iff _ hstops).2 ⟨ha, rfl⟩) hint

theorem operand {l : Level} {t : Tree} (h : l.operand.Parses t) : (Part.chain l).Parses t := by
  intro rest v r hstops
  rw [reads_chain_iff]
  simp [h.reads_iff rest hstops]

theorem link {l : Level} {o : Token} {t u : Tree} (ho : o ∈ l.operators)
    (h : (Part.chain l).Parses t) (hu : l.operand.Parses u) :
    (Part.chain l).Parses (.binary o t u) := by
  intro rest v r hstops
  have hshape : (Tree.binary o t u).tokens ++ rest = t.tokens ++ o :: (u.tokens ++ rest) := by
    simp [Tree.tokens]
  have hnext : l.operand.StopsAt (o :: (u.tokens ++ rest)) := by
    simpa [Part.StopsAt] using Level.rank_of_mem ho
  rw [hshape, h _ _ _ hnext]
  simp only [reads_step_iff ho, hu.reads_iff rest hstops, Tree.value?, Option.bind_eq_some_iff]
  constructor
  · rintro ⟨a, ha, b, w, _, ⟨hb, rfl⟩, hw, htail⟩
    exact ⟨w, ⟨a, ha, b, hb, hw⟩, htail⟩
  · rintro ⟨w, ⟨a, ha, b, hb, hw⟩, htail⟩
    exact ⟨a, ha, b, w, _, ⟨hb, rfl⟩, hw, htail⟩

theorem single {t : Tree} (h : (Part.chain .additive).Parses t) : Part.comparison.Parses t := by
  intro rest v r hstops
  have hadditive := fun r v => h.reads_iff (r := r) (v := v) rest
    (hstops.mono (q := .chain .additive) (by decide))
  have hnone : ∀ t ∈ rest.head?, comparison? t = none := fun t ht =>
    comparison?_eq_none (hstops t ht)
  constructor
  · intro hreads
    cases hreads with
    | compare hl ht _ =>
      obtain ⟨-, rfl⟩ := (hadditive _ _).1 hl
      exact absurd (ht.symm.trans (hnone _ rfl)) (by simp)
    | single hreads _ => exact (hadditive _ _).1 hreads
  · rintro ⟨hv, rfl⟩
    exact .single ((hadditive _ _).2 ⟨hv, rfl⟩) hnone

theorem compare {o : Token} {t u : Tree} (ho : o ∈ comparisons)
    (h : (Part.chain .additive).Parses t) (hu : (Part.chain .additive).Parses u) :
    Part.comparison.Parses (.binary o t u) := by
  intro rest v r hstops
  obtain ⟨holds, hholds, hvalue⟩ := comparison?_of_mem ho
  have hshape : (Tree.binary o t u).tokens ++ rest = t.tokens ++ o :: (u.tokens ++ rest) := by
    simp [Tree.tokens]
  have hleft := fun r v => h.reads_iff (o :: (u.tokens ++ rest)) (r := r) (v := v)
    (by simp [Part.StopsAt, Part.rank, rank_of_mem_comparisons ho])
  have hright := fun r v => hu.reads_iff (r := r) (v := v) rest
    (hstops.mono (q := .chain .additive) (by decide))
  rw [hshape]
  constructor
  · intro hreads
    cases hreads with
    | compare hl ht hr =>
      obtain ⟨ha, heq⟩ := (hleft _ _).1 hl
      obtain ⟨rfl, rfl⟩ := List.cons.inj heq
      obtain ⟨hb, rfl⟩ := (hright _ _).1 hr
      obtain rfl := Option.some.inj (hholds.symm.trans ht)
      exact ⟨by simp [Tree.value?, ha, hb, hvalue], rfl⟩
    | single hreads hrest =>
      obtain ⟨-, rfl⟩ := (hleft _ _).1 hreads
      exact absurd (hholds.symm.trans (hrest o rfl)) (by simp)
  · rintro ⟨hv, rfl⟩
    simp only [Tree.value?, Option.bind_eq_some_iff] at hv
    obtain ⟨a, ha, b, hb, hab⟩ := hv
    rw [hvalue] at hab
    obtain rfl := Option.some.inj hab
    exact .compare ((hleft _ _).2 ⟨ha, rfl⟩) hholds ((hright _ _).2 ⟨hb, rfl⟩)

theorem plain {t : Tree} (h : (Part.chain .logic).Parses t) : Part.ternary.Parses t := by
  intro rest v r hstops
  have hlogic := fun r v => h.reads_iff (r := r) (v := v) rest
    (hstops.mono (q := .chain .logic) (by decide))
  have hquestion : rest.head? ≠ some .question := fun h => absurd (hstops _ h) (by decide)
  constructor
  · intro hreads
    cases hreads with
    | choice hc _ _ =>
      obtain ⟨-, rfl⟩ := (hlogic _ _).1 hc
      exact absurd rfl hquestion
    | plain hreads _ => exact (hlogic _ _).1 hreads
  · rintro ⟨hv, rfl⟩
    exact .plain ((hlogic _ _).2 ⟨hv, rfl⟩) hquestion

theorem choice {c t f : Tree} (hc : (Part.chain .logic).Parses c) (ht : Part.ternary.Parses t)
    (hf : Part.ternary.Parses f) : Part.ternary.Parses (.choice c t f) := by
  intro rest v r hstops
  have hshape : (Tree.choice c t f).tokens ++ rest =
      c.tokens ++ .question :: (t.tokens ++ .colon :: (f.tokens ++ rest)) := by
    simp [Tree.tokens]
  have hcond := fun r v => hc.reads_iff (r := r) (v := v)
    (.question :: (t.tokens ++ .colon :: (f.tokens ++ rest)))
    (by simp [Part.StopsAt, Part.rank, Token.rank])
  have htrue := fun r v => ht.reads_iff (r := r) (v := v) (.colon :: (f.tokens ++ rest))
    (by simp [Part.StopsAt, Part.rank, Token.rank])
  have hfalse := fun r v => hf.reads_iff (r := r) (v := v) rest hstops
  rw [hshape]
  constructor
  · intro hreads
    cases hreads with
    | choice hreadc hreadt hreadf =>
      obtain ⟨hcv, heq⟩ := (hcond _ _).1 hreadc
      obtain rfl := (List.cons.inj heq).2
      obtain ⟨htv, heq⟩ := (htrue _ _).1 hreadt
      obtain rfl := (List.cons.inj heq).2
      obtain ⟨hfv, rfl⟩ := (hfalse _ _).1 hreadf
      exact ⟨by simp [Tree.value?, hcv, htv, hfv], rfl⟩
    | plain hreads hrest =>
      obtain ⟨-, rfl⟩ := (hcond _ _).1 hreads
      exact absurd rfl hrest
  · rintro ⟨hv, rfl⟩
    simp only [Tree.value?, Option.bind_eq_some_iff] at hv
    obtain ⟨a, ha, b, hb, d, hd, heq⟩ := hv
    obtain rfl := Option.some.inj heq
    exact .choice ((hcond _ _).2 ⟨ha, rfl⟩) ((htrue _ _).2 ⟨hb, rfl⟩) ((hfalse _ _).2 ⟨hd, rfl⟩)

end Part.Parses

theorem Derives.parses {p : Part} {t : Tree} (h : Derives p t) : p.Parses t := by
  induction h with
  | int n => exact .int n
  | group _ ih => exact .group ih
  | negative _ ih => exact .negative ih
  | operand _ ih => exact .operand ih
  | link ho _ _ ih ih' => exact .link ho ih ih'
  | single _ ih => exact .single ih
  | compare ho _ _ ih ih' => exact .compare ho ih ih'
  | plain _ ih => exact .plain ih
  | choice _ _ _ ih ih' ih'' => exact .choice ih ih' ih''

/-- **A tree of the grammar is read as a whole**, and it has a value for the reader exactly if each
part of it has one. -/
theorem Derives.evaluate?_eq {t : Tree} (h : Derives .ternary t) :
    evaluate? t.tokens = t.value? := by
  have hiff := fun v => h.parses.reads_iff [] (r := []) (v := v) (by simp [Part.StopsAt])
  ext v
  rw [evaluate?_eq_some_iff]
  simpa using hiff v

end Fold

/-! ## Folding -/

/-- **A text is folded by the documented grammar**: to the value of the tree that its tokens are, if
it looks like a conditional.  Where the tree has no value, the text has none. -/
theorem fold?_eq_some_iff {s : Text} {n : Int} :
    (fold? s = some n ↔ hasTernary s = true ∧
      ∃ t, Fold.Derives .ternary t ∧ Fold.Lexes s t.tokens ∧ t.value? = some n) ∧
    ∀ t, Fold.Derives .ternary t → Fold.Lexes s t.tokens → hasTernary s = true →
      fold? s = t.value? := by
  have htree : ∀ t, Fold.Derives .ternary t → Fold.Lexes s t.tokens → hasTernary s = true →
      fold? s = t.value? := by
    intro t ht hs hternary
    rw [fold?, if_pos hternary, hs.tokens?_eq, Option.bind_some, ht.evaluate?_eq]
  refine ⟨⟨fun h => ?_, ?_⟩, htree⟩
  · have hternary : hasTernary s = true := by
      by_contra hnot
      rw [fold?, if_neg hnot] at h
      exact absurd h (by simp)
    obtain ⟨ts, hts, hreads⟩ := reads_of_fold? h
    obtain ⟨t, ht, hv, rfl⟩ := hreads.exists_derives
    exact ⟨hternary, t, ht, Fold.tokens?_eq_some_iff.1 hts, hv⟩
  · rintro ⟨hternary, t, ht, hs, hv⟩
    rw [htree t ht hs hternary, hv]

end TableSync
