import TableSync.Proofs.Expr.Grammar

/-!
# Expressions that are read in parts

What the grammar gives to a part of an expression depends on the tokens after it only by whether the
next one goes on with it.  So a part can be taken out of one expression and put into another, and
what was read of it there is read of it here.

* `Fold.Part.rank` and `Fold.Token.rank` order the parts by how loosely they bind, and the tokens by
  the parts that go on with them; `Fold.Part.StopsAt` compares the two.
* `Fold.Reads.append` says that what is read does not depend on what follows, for each part of the
  grammar and the operators that it reads.  It is an induction on the derivation, in which the rest
  of each part is put in front of other tokens.
* `Fold.Reads.exists_group` puts the value of a group in its place.
* `Fold.Reads.eq_sum` and `Fold.Reads.append_zero` say what an integer at the end of a sum does: it
  is added to the operand before it, and if it is zero it may be left out.  Where an expression ends
  with a conditional, the sum is that of the last branch, which `Fold.Reads.append_zero` follows
  down to where the zero is added.
* `Fold.Reads.isInt64` says that no value leaves the range of 64 bits.
-/

set_option autoImplicit false

namespace TableSync.Fold

/-! ## What comes next

The grammar has no token that goes on with a part and with one inside it, so one comparison of ranks
decides where each of them stops. -/

/-- How loosely a part binds. -/
def Part.rank : Part → Nat
  | .atom => 0
  | .chain .term | .tail .term _ => 1
  | .chain .additive | .tail .additive _ => 2
  | .comparison => 3
  | .chain .logic | .tail .logic _ => 4
  | .ternary => 5

/-- The rank of the first part that goes on with a token; no part does with one of the last. -/
def Token.rank : Token → Nat
  | .star | .slash => 1
  | .plus | .minus => 2
  | .eq | .ne | .ge | .le | .gt | .lt => 3
  | .and | .or => 4
  | .question => 5
  | _ => 6

/-- The next token is none that a part goes on with. -/
def Part.StopsAt (p : Part) (ts : List Token) : Prop := ∀ t ∈ ts.head?, p.rank < t.rank

/-- A part that has stopped at `rest` stops at `rest'` as well. -/
def Part.Follows (p : Part) (rest rest' : List Token) : Prop :=
  rest'.head? = rest.head? ∨ p.StopsAt rest'

theorem Level.rank_operand_le (l : Level) : l.operand.rank ≤ (Part.chain l).rank := by
  cases l <;> decide

theorem Level.rank_tail (l : Level) (lhs : Int) : (Part.tail l lhs).rank = (Part.chain l).rank := by
  cases l <;> rfl

theorem Part.StopsAt.mono {p q : Part} {ts : List Token} (h : p.StopsAt ts)
    (hle : q.rank ≤ p.rank) : q.StopsAt ts := fun t ht => Nat.lt_of_le_of_lt hle (h t ht)

theorem Part.Follows.append {p q : Part} {rest rest' : List Token} (h : p.Follows rest rest')
    (hle : q.rank ≤ p.rank) (us : List Token) : q.Follows (us ++ rest) (us ++ rest') := by
  cases us with
  | nil => exact h.imp_right fun hstops => hstops.mono hle
  | cons u us => exact .inl rfl

theorem Level.step?_eq_none {l : Level} {t : Token} (h : (Part.chain l).rank < t.rank) :
    l.step? t = none := by
  cases l <;> cases t <;> first | rfl | exact absurd h (by decide)

theorem comparison?_eq_none {t : Token} (h : 3 < t.rank) : comparison? t = none := by
  cases t <;> first | rfl | exact absurd h (by decide)

/-- **What is read does not depend on what follows**, but for whether the next token goes on with
it. -/
theorem Reads.append {p : Part} {ts rest : List Token} {v : Int} (h : Reads p ts v rest) :
    ∃ us, ts = us ++ rest ∧ ∀ rest', p.Follows rest rest' → Reads p (us ++ rest') v rest' := by
  induction h with
  | int n rest => exact ⟨[.int n], rfl, fun rest' _ => .int n rest'⟩
  | @group _ rest _ _ ih =>
    obtain ⟨us, rfl, hus⟩ := ih
    refine ⟨.opening :: (us ++ [.closing]), by simp, fun rest' _ => ?_⟩
    have hternary := hus (.closing :: rest') (.inl rfl)
    simpa using Reads.group hternary
  | negative _ hv ih =>
    obtain ⟨us, rfl, hus⟩ := ih
    refine ⟨.minus :: us, rfl, fun rest' hfollows => .negative (hus rest' ?_) hv⟩
    -- An atom takes no tail: every token stops it.
    exact .inr fun t _ => by cases t <;> exact Nat.succ_pos _
  | @chain l _ _ _ _ _ _ _ ih ih' =>
    obtain ⟨us', rfl, hus'⟩ := ih'
    obtain ⟨us, rfl, hus⟩ := ih
    refine ⟨us ++ us', by simp, fun rest' hfollows => ?_⟩
    rw [List.append_assoc]
    -- Behind the operand stands the tail `us'`; if that is empty, what stops the chain stops it.
    exact .chain (hus _ (hfollows.append l.rank_operand_le us')) (hus' rest' (by
      cases l <;> exact hfollows))
  | @step l _ _ _ _ _ _ _ _ _ ht _ hw _ ih ih' =>
    obtain ⟨us', rfl, hus'⟩ := ih'
    obtain ⟨us, rfl, hus⟩ := ih
    refine ⟨_ :: (us ++ us'), by simp; rfl, fun rest' hfollows => ?_⟩
    rw [List.cons_append, List.append_assoc]
    have hoperand := hus _ (hfollows.append (l.rank_tail _ ▸ l.rank_operand_le) us')
    exact .step ht hoperand hw (hus' rest' (by cases l <;> exact hfollows))
  | @done l rest lhs h =>
    refine ⟨[], rfl, fun rest' hfollows => .done fun t ht => ?_⟩
    -- Either nothing changed behind the chain, or what stands there stops every level from `l` on.
    rcases hfollows with heq | hstops
    · rw [List.nil_append, heq] at ht
      exact h t ht
    · exact Level.step?_eq_none (by cases l <;> exact hstops t ht)
  | compare _ ht _ ih ih' =>
    obtain ⟨us', rfl, hus'⟩ := ih'
    obtain ⟨us, rfl, hus⟩ := ih
    refine ⟨us ++ _ :: us', by simp; rfl, fun rest' hfollows => ?_⟩
    rw [List.append_assoc, List.cons_append]
    exact .compare (hus _ (.inl rfl)) ht
      (hus' rest' (hfollows.imp_right fun hstops => hstops.mono (by decide)))
  | single _ hrest ih =>
    obtain ⟨us, rfl, hus⟩ := ih
    refine ⟨us, rfl, fun rest' hfollows => .single
      (hus rest' (hfollows.imp_right fun hstops => hstops.mono (by decide))) fun t ht => ?_⟩
    rcases hfollows with heq | hstops
    · exact hrest t (heq ▸ ht)
    · exact comparison?_eq_none (hstops t ht)
  | choice _ _ _ ih ih' ih'' =>
    obtain ⟨us'', rfl, hus''⟩ := ih''
    obtain ⟨us', rfl, hus'⟩ := ih'
    obtain ⟨us, rfl, hus⟩ := ih
    refine ⟨us ++ .question :: (us' ++ .colon :: us''), by simp, fun rest' hfollows => ?_⟩
    have hshape : us ++ .question :: (us' ++ .colon :: us'') ++ rest' =
        us ++ .question :: (us' ++ .colon :: (us'' ++ rest')) := by simp
    rw [hshape]
    exact .choice (hus _ (.inl rfl)) (hus' _ (.inl rfl)) (hus'' rest' hfollows)
  | plain _ hrest ih =>
    obtain ⟨us, rfl, hus⟩ := ih
    refine ⟨us, rfl, fun rest' hfollows => .plain
      (hus rest' (hfollows.imp_right fun hstops => hstops.mono (by decide))) fun hq => ?_⟩
    rcases hfollows with heq | hstops
    · exact hrest (heq ▸ hq)
    · exact absurd (hstops .question hq) (by decide)

theorem Reads.append_ne_nil {p : Part} {ts rest : List Token} {v : Int} (h : Reads p ts v rest)
    (hne : rest ≠ []) (w : List Token) : Reads p (ts ++ w) v (rest ++ w) := by
  obtain ⟨us, rfl, hus⟩ := h.append
  obtain ⟨t, rest, rfl⟩ := List.exists_cons_of_ne_nil hne
  rw [List.append_assoc]
  exact hus _ (.inl rfl)

/-! ## Integers -/

/-- An integer is read as itself, where no operator goes on with it. -/
theorem reads_int {p : Part} {rest : List Token} (hp : ∀ l lhs, p ≠ .tail l lhs)
    (hstops : p.StopsAt rest) (n : Int) : Reads p (.int n :: rest) n rest := by
  have hdone : ∀ l : Level, (Part.chain l).rank ≤ p.rank → Reads (.tail l n) rest n rest :=
    fun l hle => .done fun t ht => Level.step?_eq_none (hstops.mono hle t ht)
  have hterm : 1 ≤ p.rank → Reads (.chain .term) (.int n :: rest) n rest :=
    fun hle => .chain (.int n rest) (hdone .term hle)
  have hadditive : 2 ≤ p.rank → Reads (.chain .additive) (.int n :: rest) n rest :=
    fun hle => .chain (hterm (by omega)) (hdone .additive hle)
  have hcomparison : 3 ≤ p.rank → Reads .comparison (.int n :: rest) n rest := fun hle =>
    .single (hadditive (by omega)) fun t ht =>
      comparison?_eq_none (Nat.lt_of_le_of_lt hle (hstops t ht))
  have hlogic : 4 ≤ p.rank → Reads (.chain .logic) (.int n :: rest) n rest :=
    fun hle => .chain (hcomparison (by omega)) (hdone .logic hle)
  cases p with
  | atom => exact .int n rest
  | chain l =>
    cases l with
    | term => exact hterm (Nat.le_refl _)
    | additive => exact hadditive (Nat.le_refl _)
    | logic => exact hlogic (Nat.le_refl _)
  | tail l lhs => exact absurd rfl (hp l lhs)
  | comparison => exact hcomparison (Nat.le_refl _)
  | ternary => exact .plain (hlogic (by decide)) fun hq => absurd (hstops .question hq) (by decide)

/-- All integers among the tokens are of 64 bits. -/
def AreInt64 (ts : List Token) : Prop := ∀ n, .int n ∈ ts → IsInt64 n

theorem AreInt64.of_cons {t : Token} {ts : List Token} (h : AreInt64 (t :: ts)) : AreInt64 ts :=
  fun n hn => h n (List.mem_cons_of_mem t hn)

theorem Reads.areInt64 {p : Part} {ts rest : List Token} {v : Int} (h : Reads p ts v rest)
    (hts : AreInt64 ts) : AreInt64 rest := by
  obtain ⟨us, rfl, -⟩ := h.append
  exact fun n hn => hts n (List.mem_append_right us hn)

theorem isInt64_ofBool (b : Bool) : IsInt64 (ofBool b) := by cases b <;> decide

theorem Level.isInt64_of_step? {l : Level} {t : Token} {f : Int → Int → Option Int} {a b w : Int}
    (ht : l.step? t = some f) (hw : f a b = some w) : IsInt64 w := by
  have hint64 : ∀ {n m : Int}, int64? n = some m → IsInt64 m := by
    intro n m h
    obtain ⟨rfl, hn⟩ := int64?_eq_some_iff.1 h
    exact hn
  cases l <;> cases t <;> simp only [step?, reduceCtorEq, Option.some.injEq] at ht
  all_goals subst ht
  case term.slash =>
    rw [quotient?] at hw
    split at hw
    · exact absurd hw (by simp)
    · exact hint64 hw
  case logic.and | logic.or =>
    obtain rfl := Option.some.inj hw
    exact isInt64_ofBool _
  all_goals exact hint64 hw

/-- **The value of an expression of 64-bit integers is one.** -/
theorem Reads.isInt64 {p : Part} {ts rest : List Token} {v : Int} (h : Reads p ts v rest)
    (hts : AreInt64 ts) (hp : ∀ l lhs, p = .tail l lhs → IsInt64 lhs) : IsInt64 v := by
  induction h with
  | int n rest => exact hts n List.mem_cons_self
  | group _ ih => exact ih hts.of_cons (by simp)
  | negative _ hv _ => exact hv
  | @chain l _ _ _ _ _ h _ ih ih' =>
    refine ih' (h.areInt64 hts) fun l' lhs' heq => ?_
    obtain ⟨-, rfl⟩ := Part.tail.inj heq
    exact ih hts fun _ _ hoperand => by cases l <;> exact absurd hoperand (by simp [Level.operand])
  | step ht h hw _ _ ih' =>
    refine ih' (h.areInt64 hts.of_cons) fun l' lhs' heq => ?_
    obtain ⟨-, rfl⟩ := Part.tail.inj heq
    exact Level.isInt64_of_step? ht hw
  | done _ => exact hp _ _ rfl
  | compare _ _ _ _ _ => exact isInt64_ofBool _
  | single _ _ ih => exact ih hts (by simp)
  | choice hc ht _ _ ih' ih'' =>
    have htrue := (hc.areInt64 hts).of_cons
    split
    · exact ih' htrue (by simp)
    · exact ih'' (ht.areInt64 htrue).of_cons (by simp)
  | plain _ _ ih => exact ih hts (by simp)

/-! ## Groups -/

/-- **A group stands for the integer that it has as its value.** -/
theorem Reads.exists_group {p : Part} {ts rest : List Token} {v : Int}
    (h : Reads p (.opening :: ts) v rest) (hp : ∀ l lhs, p ≠ .tail l lhs) :
    ∃ u ts', Reads .ternary ts u (.closing :: ts') ∧ Reads p (.int u :: ts') v rest := by
  generalize hgroup : .opening :: ts = group at h
  induction h with
  | int | negative => cases hgroup
  | @group ts' rest v h =>
    obtain rfl := (List.cons.inj hgroup).2
    exact ⟨v, rest, h, .int v rest⟩
  | @chain l _ _ _ _ _ _ htail ih =>
    obtain ⟨u, ts', hu, hoperand⟩ := ih (by cases l <;> simp [Level.operand]) hgroup
    exact ⟨u, ts', hu, .chain hoperand htail⟩
  | step | done => exact absurd rfl (hp _ _)
  | compare _ ht hr ih =>
    obtain ⟨u, ts', hu, hleft⟩ := ih (by simp) hgroup
    exact ⟨u, ts', hu, .compare hleft ht hr⟩
  | single _ hrest ih =>
    obtain ⟨u, ts', hu, hadditive⟩ := ih (by simp) hgroup
    exact ⟨u, ts', hu, .single hadditive hrest⟩
  | choice _ ht hf ih =>
    obtain ⟨u, ts', hu, hlogic⟩ := ih (by simp) hgroup
    exact ⟨u, ts', hu, .choice hlogic ht hf⟩
  | plain _ hrest ih =>
    obtain ⟨u, ts', hu, hlogic⟩ := ih (by simp) hgroup
    exact ⟨u, ts', hu, .plain hlogic hrest⟩

/-! ## Sums

An amount behind an expression is read as the operand of a sum, and which sum that is depends on the
expression.  A zero makes no difference to any of them. -/

theorem reads_summand {t : Token} {f : Int → Int → Option Int}
    (ht : Level.additive.step? t = some f) {y k w : Int} (hw : f y k = some w) :
    Reads (.tail .additive y) [t, .int k] w [] :=
  .step ht (reads_int (by simp [Level.operand]) (by simp [Part.StopsAt]) k) hw (.done (by simp))

/-- A sum or difference of an operand and an integer. -/
theorem Reads.eq_sum {us rest : List Token} {y w k : Int} {t : Token}
    {f : Int → Int → Option Int} (hus : ∀ rest, Reads .atom (us ++ rest) y rest)
    (ht : Level.additive.step? t = some f) (h : Reads .ternary (us ++ [t, .int k]) w rest) :
    f y k = some w ∧ rest = [] := by
  have hrank : 1 < t.rank := by cases t <;> first | decide | exact absurd ht (by simp [Level.step?])
  have hterm : Reads (.chain .term) (us ++ [t, .int k]) y [t, .int k] :=
    .chain (hus _) (.done fun s hs => by
      obtain rfl : t = s := by simpa using hs
      exact Level.step?_eq_none hrank)
  obtain ⟨u, mid, hlogic⟩ : ∃ u mid, Reads (.chain .logic) (us ++ [t, .int k]) u mid := by
    cases h with
    | choice hc => exact ⟨_, _, hc⟩
    | plain h => exact ⟨_, _, h⟩
  obtain ⟨a, mid', hadditive⟩ : ∃ a mid', Reads (.chain .additive) (us ++ [t, .int k]) a mid' := by
    cases hlogic with
    | chain h =>
      cases h with
      | compare hl => exact ⟨_, _, hl⟩
      | single h => exact ⟨_, _, h⟩
  obtain ⟨s, hs⟩ : ∃ s, f y k = some s := by
    cases hadditive with
    | chain h htail =>
      obtain ⟨rfl, rfl⟩ := hterm.det h
      cases htail with
      | @step _ _ g _ _ _ _ _ s _ ht' h hw =>
        obtain rfl : f = g := Option.some.inj (ht.symm.trans ht')
        obtain ⟨rfl, -⟩ := (reads_int (by simp [Level.operand]) (by simp [Part.StopsAt]) k).det h
        exact ⟨s, hw⟩
      | done hnone => exact absurd (ht.symm.trans (hnone t rfl)) (by simp)
  have hsum : Reads .ternary (us ++ [t, .int k]) s [] :=
    .plain (.chain (.single (.chain hterm (reads_summand ht hs)) (by simp)) (.done (by simp)))
      (by simp)
  obtain ⟨rfl, rfl⟩ := hsum.det h
  exact ⟨hs, rfl⟩

theorem step?_zero {t : Token} (ht : t = .plus ∨ t = .minus) :
    ∃ f, Level.additive.step? t = some f ∧ ∀ {w : Int}, IsInt64 w → f w 0 = some w := by
  rcases ht with rfl | rfl
  · exact ⟨_, rfl, fun {w} hw => int64?_eq_some_iff.2 ⟨Int.add_zero w, by simpa using hw⟩⟩
  · exact ⟨_, rfl, fun {w} hw => int64?_eq_some_iff.2 ⟨Int.sub_zero w, by simpa using hw⟩⟩

/-- In a chain that is the end of a text, a zero at the end goes to the operand, if the chain ends
with it, and to a later one otherwise. -/
theorem exists_link {l : Level} {ts ts' : List Token} {lhs w v : Int} {t : Token}
    (hl : 2 ≤ (Part.chain l).rank) (h : Reads l.operand ts lhs ts')
    (htail : Reads (.tail l w) ts' v []) (hw : IsInt64 w) (ht : t = .plus ∨ t = .minus)
    (hoperand : 2 ≤ l.operand.rank → ts' = [] → Reads l.operand (ts ++ [t, .int 0]) lhs [])
    (hrest : ts' ≠ [] → Reads (.tail l w) (ts' ++ [t, .int 0]) v []) :
    ∃ mid, Reads l.operand (ts ++ [t, .int 0]) lhs mid ∧ Reads (.tail l w) mid v [] := by
  by_cases hnil : ts' = []
  · subst hnil
    cases l with
    | term => exact absurd hl (by decide)
    | additive =>
      obtain ⟨f, hf, hzero⟩ := step?_zero ht
      obtain ⟨us, hus, hmid⟩ := h.append
      rw [List.append_nil] at hus
      subst hus
      obtain ⟨rfl, -⟩ := htail.det (.done (by simp))
      have hstops : (Level.operand .additive).StopsAt [t, .int 0] := by
        rintro s hs
        obtain rfl : t = s := by simpa using hs
        rcases ht with rfl | rfl <;> decide
      exact ⟨_, hmid _ (.inr hstops), reads_summand hf (hzero hw)⟩
    | logic => exact ⟨[], hoperand (by decide) rfl, htail⟩
  · exact ⟨_, h.append_ne_nil hnil _, hrest hnil⟩

theorem Reads.ne_nil {p : Part} {ts rest : List Token} {v : Int} (h : Reads p ts v rest)
    (hp : p.gain = 1) : ts ≠ [] := by
  rintro rfl
  have hlen := h.length_le
  rw [hp, List.length_nil] at hlen
  omega

/-- A zero that is added at the end of an expression, or taken away there, makes no difference: it
goes to the last sum. -/
theorem Reads.append_zero {p : Part} {ts : List Token} {v : Int} (h : Reads p ts v [])
    (hrank : 2 ≤ p.rank) (hne : ts ≠ []) (hts : AreInt64 ts)
    (hp : ∀ l lhs, p = .tail l lhs → IsInt64 lhs) {t : Token} (ht : t = .plus ∨ t = .minus) :
    Reads p (ts ++ [t, .int 0]) v [] := by
  have hoperand : ∀ (l l' : Level) (lhs : Int), l.operand = .tail l' lhs → IsInt64 lhs := by
    intro l l' lhs
    cases l <;> simp [Level.operand]
  generalize hrest : ([] : List Token) = rest at h
  induction h with
  | int | group | negative => exact absurd hrank (by decide)
  | @chain l _ _ _ _ _ h htail ih ih' =>
    subst hrest
    have hlhs := h.isInt64 hts (hoperand l)
    obtain ⟨mid, hmid, hmid'⟩ := exists_link hrank h htail hlhs ht
      (fun hle hnil => hnil ▸ ih hle (h.ne_nil l.gain_operand) hts (hoperand l) hnil.symm)
      (fun hne => ih' (by rwa [l.rank_tail]) hne (h.areInt64 hts)
        (fun _ _ heq => (Part.tail.inj heq).2 ▸ hlhs) rfl)
    exact .chain hmid hmid'
  | @step l _ _ _ _ _ _ _ _ _ hs h hw htail ih ih' =>
    subst hrest
    rw [l.rank_tail] at hrank
    have hw' := Level.isInt64_of_step? hs hw
    obtain ⟨mid, hmid, hmid'⟩ := exists_link hrank h htail hw' ht
      (fun hle hnil => hnil ▸ ih hle (h.ne_nil l.gain_operand) hts.of_cons (hoperand l) hnil.symm)
      (fun hne => ih' (by rwa [l.rank_tail]) hne (h.areInt64 hts.of_cons)
        (fun _ _ heq => (Part.tail.inj heq).2 ▸ hw') rfl)
    exact .step hs hmid hw hmid'
  | done => exact absurd hrest.symm hne
  | compare hl hs hr _ ih =>
    subst hrest
    have hright := ih (by decide) (hr.ne_nil rfl) (hl.areInt64 hts).of_cons (by simp) rfl
    exact .compare (hl.append_ne_nil (by simp) _) hs hright
  | single h _ ih =>
    subst hrest
    exact .single (ih (by decide) hne hts (by simp) rfl) (by simp)
  | choice hc ht hf _ _ ih =>
    subst hrest
    have hfalse := ih (by decide) (hf.ne_nil rfl)
      (ht.areInt64 (hc.areInt64 hts).of_cons).of_cons (by simp) rfl
    exact .choice (hc.append_ne_nil (by simp) _) (ht.append_ne_nil (by simp) _) hfalse
  | plain h _ ih =>
    subst hrest
    exact .plain (ih (by decide) hne hts (by simp) rfl) (by simp)

end TableSync.Fold
