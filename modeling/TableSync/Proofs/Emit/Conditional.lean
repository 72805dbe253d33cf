import TableSync.Emit.Value
import TableSync.Proofs.Expr.CExpression

/-!
# What a written conditional means

A conditional is written as the number or name that it is decided to, or as its literal.  Either is
an expression of C, and the question is whether the compiler gives it the value that the conditional
stands for: that of the branch which the comparison chooses, with what is added to it and without
what is taken away.  The compiler knows more names than the table of constants, so the value is
taken in an environment that agrees with the table where the table says something.

* `Conditional.value?_literal` is the value of a literal.  The parentheses are put where the grammar
  of C needs them, and at most one of the two amounts is written, so it is said for those
  conditionals that have one.
* `Emit.value_conditional` splits the writing by what the conditional is decided to, and
  `Conditional.eq_of_holds?` says that the table decides a comparison as the environment does.
* `Conditional.StaysInRange` says that the sums of a decided conditional are 64-bit integers.
  `Conditional.withAmounts` adds in the integers; outside of the range it stands for nothing.
* `Emit.value?_conditional` is the value of what is written for a conditional: that of the chosen
  branch with the amounts, but for a name that is written alone.  A written integer is one that is
  read back.
-/

set_option autoImplicit false

namespace TableSync

/-! ## Operands and branches -/

/-- The names of a table of constants are identifiers, and have its values. -/
def C.Environment.Extends (ρ : C.Environment) (constants : ConstantTable) : Prop :=
  ∀ name n, constants.lookup name = some n → C.IsIdentifier name.toList ∧ ρ name = n

/-- The integer that a branch stands for. -/
inductive Value.Denotes (ρ : C.Environment) : Value → Int → Prop
  | int (n : Int) : Denotes ρ (.int n) n
  | name {s : String} (h : C.IsIdentifier s.toList) : Denotes ρ (.str s) (ρ s)

theorem eq_of_readInt?_showInt {n m : Int} (h : readInt? (showInt n) = some m) : m = n := by
  cases n with
  | ofNat n =>
    have hdigits : ∀ c ∈ showNat n, isAsciiDigit c = true := fun c hc =>
      isAsciiDigit_of_mem_showNat hc
    rw [showInt, readInt?_of_digits hdigits, digitsValue?_showNat, Option.bind_some] at h
    exact (int64?_eq_some_iff.1 h).1.symm
  | negSucc n =>
    rw [showInt, readInt?, digitsValue?_showNat, Option.bind_some] at h
    exact (int64?_eq_some_iff.1 h).1.symm

namespace C

theorem not_isIdentifier_showInt (n : Int) : ¬ IsIdentifier (showInt n) := by
  rintro ⟨⟨-, hword⟩, hfirst⟩
  cases n with
  | ofNat n =>
    obtain ⟨c, s, hs⟩ := List.exists_cons_of_ne_nil (showNat_ne_nil n)
    have hdigit := isAsciiDigit_of_mem_showNat (hs ▸ List.mem_cons_self : c ∈ showNat n)
    rw [hfirst c (by rw [showInt, hs]; rfl)] at hdigit
    exact Bool.noConfusion hdigit
  | negSucc n => exact absurd (hword '-' List.mem_cons_self) (by decide)

theorem IsIdentifier.readInt?_eq {s : Text} (h : IsIdentifier s) : readInt? s = none := by
  obtain ⟨⟨hne, hword⟩, hfirst⟩ := h
  obtain ⟨c, s, rfl⟩ := List.exists_cons_of_ne_nil hne
  have hc := hword c List.mem_cons_self
  refine readInt?_eq_none List.mem_cons_self (hfirst c rfl) ?_ ?_ <;>
    · rintro rfl
      exact absurd hc (by decide)

end C

namespace Conditional

variable {ρ : C.Environment} {constants : ConstantTable}

/-- A known operand has the value that the environment gives it. -/
theorem eq_of_operand? (hρ : ρ.Extends constants) {name : String} {v n : Int}
    (hv : C.Denotes ρ name.toList v) (h : operand? constants name = some n) : n = v := by
  rw [operand?] at h
  rcases Option.or_eq_some_iff.1 h with hlookup | ⟨-, hread⟩
  · obtain ⟨hname, rfl⟩ := hρ name n hlookup
    generalize hs : name.toList = s at hv hname
    cases hv with
    | name =>
      rw [← hs, String.ofList_toList]
    | int => exact absurd hname (C.not_isIdentifier_showInt v)
  · generalize name.toList = s at hv hread
    cases hv with
    | name hs => exact absurd (hs.readInt?_eq.symm.trans hread) (by simp)
    | int => exact eq_of_readInt?_showInt hread

/-- A decided comparison is decided as in the environment. -/
theorem eq_of_holds? (hρ : ρ.Extends constants) {e : Conditional} {l r : Int} {holds : Bool}
    (hl : C.Denotes ρ e.left.toList l) (hr : C.Denotes ρ e.right.toList r)
    (h : e.holds? constants = some holds) : holds = e.comparison.holds l r := by
  simp only [holds?, Option.bind_eq_bind, Option.bind_eq_some_iff] at h
  obtain ⟨a, ha, b, hb, hab⟩ := h
  rw [eq_of_operand? hρ hl ha, eq_of_operand? hρ hr hb] at hab
  simpa using hab.symm

end Conditional

theorem Value.Denotes.branchText {ρ : C.Environment} {v : Value} {n : Int} (h : v.Denotes ρ n) :
    C.Denotes ρ v.branchText n := by
  cases h with
  | int => exact .int n
  | @name s hs =>
    have := C.Denotes.name (ρ := ρ) hs
    rwa [String.ofList_toList] at this

/-! ## The literal -/

namespace Conditional

variable {ρ : C.Environment} {e : Conditional} {l r t f : Int}

/-- The branch that the values of the operands choose. -/
def chosen (e : Conditional) (l r t f : Int) : Int := if e.comparison.holds l r then t else f

/-- **A literal has the value of the chosen branch with the amount.** -/
theorem value?_literal (hl : C.Denotes ρ e.left.toList l) (hr : C.Denotes ρ e.right.toList r)
    (ht : e.whenTrue.Denotes ρ t) (hf : e.whenFalse.Denotes ρ f) (hadd : 0 ≤ e.toAdd)
    (hsub : 0 ≤ e.toSubtract) (hone : e.toAdd = 0 ∨ e.toSubtract = 0) :
    C.value? ρ e.literal = some (e.chosen l r t f + e.toAdd - e.toSubtract) := by
  obtain ⟨ul, tl, hul, htl, hvl⟩ := hl.exists_tree
  obtain ⟨ur, tr, hur, htr, hvr⟩ := hr.exists_tree
  obtain ⟨ut, tt, hut, htt, hvt⟩ := ht.branchText.exists_tree
  obtain ⟨uf, tf, huf, htf, hvf⟩ := hf.branchText.exists_tree
  have hlexes := C.lexesAs_base hul hur hut huf
  have hlevel : (C.ofComparison e.comparison).level = 2 ∨
      (C.ofComparison e.comparison).level = 3 := by
    cases e.comparison <;> simp [C.ofComparison, C.Operator.level]
  have hparses : ∀ rest, C.Ends 0 rest → rest.head? ≠ some .question → ∀ n, 18 ≤ n →
      C.conditional n (C.conditionalTokens (C.ofComparison e.comparison) ul ur ut uf ++ rest) =
        some (.choice (.binary (C.ofComparison e.comparison) tl tr) tt tf, rest) :=
    fun _ => C.conditional_tokens hlevel htl htr htt htf
  have hvalue := C.value?_choice (c := e.comparison) hvl hvr hvt hvf
  -- The amounts stand outside the parentheses, so they are added to the value of the whole.
  have hamount := @C.value?_parenthesized ρ e.base _ _ _ hlexes hparses hvalue
  obtain ⟨a, ha⟩ := Int.eq_ofNat_of_zero_le hadd
  obtain ⟨b, hb⟩ := Int.eq_ofNat_of_zero_le hsub
  rw [literal_eq, chosen]
  split
  · rename_i hne
    rw [hone.resolve_left hne, Int.sub_zero, ha]
    exact hamount (.inl ⟨rfl, rfl⟩) a
  · rename_i hadd
    rw [not_not] at hadd
    split
    · rw [hadd, Int.add_zero, hb]
      exact hamount (.inr ⟨rfl, rfl⟩) b
    · rename_i hsub
      rw [not_not] at hsub
      rw [hadd, hsub, Int.add_zero, Int.sub_zero]
      have hbase := hparses [] (by simp [C.Ends]) (by simp)
      rw [List.append_nil] at hbase
      exact C.value?_of_conditional hlexes (fun n hn => hbase n (by omega))
        (by simp only [C.conditionalTokens, List.length_append, List.length_cons]; omega) hvalue

/-! ## What is written

There are three outcomes: an integer with the amounts in it, a name without them, and the literal.
Which one it is depends on the table of constants alone, and not on the environment. -/

/-- Whether the conditional is decided to a string. -/
def resolvesToName (e : Conditional) (constants : ConstantTable) : Bool :=
  ((e.resolve? constants).bind Value.str?).isSome

theorem resolve?_of_holds? {constants : ConstantTable} {holds : Bool}
    (h : e.holds? constants = some holds) :
    e.resolve? constants = some (e.withAmounts (e.branch holds)) := by
  rw [resolve?, h]
  rfl

/-- The branch of a decided comparison is the one that the values of the operands choose. -/
theorem denotes_branch {constants : ConstantTable} (hρ : ρ.Extends constants)
    (hl : C.Denotes ρ e.left.toList l) (hr : C.Denotes ρ e.right.toList r)
    (ht : e.whenTrue.Denotes ρ t) (hf : e.whenFalse.Denotes ρ f) {holds : Bool}
    (h : e.holds? constants = some holds) : (e.branch holds).Denotes ρ (e.chosen l r t f) := by
  rw [chosen, ← eq_of_holds? hρ hl hr h, branch]
  cases holds
  · exact hf
  · exact ht

/-- If the conditional is decided to an integer, both sums are 64-bit integers: the branch with what
is added to it, and that without what is taken away. -/
def StaysInRange (e : Conditional) (constants : ConstantTable) : Prop :=
  ∀ holds n, e.holds? constants = some holds → (e.branch holds).toInt? = some n →
    IsInt64 (n + e.toAdd) ∧ IsInt64 (n + e.toAdd - e.toSubtract)

/-- What a conditional is decided to is a 64-bit integer, if it is an integer. -/
theorem StaysInRange.isInt64 {constants : ConstantTable} (h : e.StaysInRange constants) {n : Int}
    (hn : e.resolve? constants = some (.int n)) : IsInt64 n := by
  obtain ⟨holds, hholds, hn⟩ := Option.map_eq_some_iff.1 hn
  rw [withAmounts] at hn
  split at hn
  · rename_i m hm
    obtain rfl := Value.int.inj hn
    exact (h holds m hholds hm).2
  · rename_i hnone
    rw [hn] at hnone
    exact absurd hnone (by simp [Value.toInt?])

end Conditional

namespace Emit

variable {ρ : C.Environment} {constants : ConstantTable} {e : Conditional} {l r t f : Int}

/-- A conditional is written as what it is decided to, if that is an integer, as its literal if it
is not decided or a conditional is chosen, and as the chosen branch otherwise. -/
theorem value_conditional (entity field : String) (constants : ConstantTable) (e : Conditional) :
    value entity field constants (.conditional e) =
      match e.holds? constants with
      | none => .ok e.literal
      | some holds =>
        match e.withAmounts (e.branch holds) with
        | .int n => .ok (showInt n)
        | .conditional _ => .ok e.literal
        | _ => value entity field constants (e.branch holds) := by
  obtain ⟨left, comparison, right, whenTrue, whenFalse, toAdd, toSubtract⟩ := e
  rw [value]
  cases Conditional.holds? ⟨left, comparison, right, whenTrue, whenFalse, toAdd, toSubtract⟩
    constants with
  | none => rfl
  | some holds => cases holds <;> rfl

/-- **What is written for a conditional has the value of the chosen branch with the amounts**, but
for one that is decided to a name: the name is written as it is.  One that is decided to an integer
is written as a numeral that is read back as this integer. -/
theorem value?_conditional (hρ : ρ.Extends constants) (hl : C.Denotes ρ e.left.toList l)
    (hr : C.Denotes ρ e.right.toList r) (ht : e.whenTrue.Denotes ρ t)
    (hf : e.whenFalse.Denotes ρ f) (hadd : 0 ≤ e.toAdd) (hsub : 0 ≤ e.toSubtract)
    (hone : e.toAdd = 0 ∨ e.toSubtract = 0 ∨ (e.holds? constants).isSome = true)
    (hrange : e.StaysInRange constants) (entity field : String) :
    ∃ text, value entity field constants (.conditional e) = .ok text ∧
      C.value? ρ text = some (if e.resolvesToName constants then e.chosen l r t f
        else e.chosen l r t f + e.toAdd - e.toSubtract) ∧
      ∀ n, e.resolve? constants = some (.int n) → readInt? text = some n := by
  cases hholds : e.holds? constants with
  | none =>
    have hname : e.resolvesToName constants = false := by
      rw [Conditional.resolvesToName, Conditional.resolve?, hholds]
      rfl
    rw [hholds] at hone
    refine ⟨e.literal, ?_, ?_, fun n hn => ?_⟩
    · rw [value_conditional, hholds]
    · rw [hname]
      exact Conditional.value?_literal hl hr ht hf hadd hsub (by simpa using hone)
    · rw [Conditional.resolve?, hholds] at hn
      exact absurd hn (by simp)
  | some holds =>
    have hchosen := Conditional.denotes_branch hρ hl hr ht hf hholds
    have hresolve := Conditional.resolve?_of_holds? hholds
    have hvalue : value entity field constants (.conditional e) =
        match e.withAmounts (e.branch holds) with
        | .int n => .ok (showInt n)
        | .conditional _ => .ok e.literal
        | _ => value entity field constants (e.branch holds) := by
      rw [value_conditional, hholds]
    have hint64 : ∀ n, e.withAmounts (e.branch holds) = .int n → IsInt64 n := fun n hn =>
      hrange.isInt64 (hresolve.trans (congrArg some hn))
    rw [hvalue, Conditional.resolvesToName, hresolve]
    generalize e.branch holds = v at hchosen hint64
    generalize e.chosen l r t f = n at hchosen
    cases hchosen with
    | int =>
      refine ⟨showInt (n + e.toAdd - e.toSubtract), rfl, (C.Denotes.int _).value?_eq,
        fun m hm => ?_⟩
      obtain rfl := Value.int.inj (Option.some.inj hm)
      exact readInt?_showInt (hint64 _ rfl)
    | @name s hs =>
      have hint : Value.toInt? (.str s) = none := by
        have htrim : trim s.toList = s.toList := trim_eq_self hs.1.isTrimmed
        rw [Value.toInt?, htrim, hs.readInt?_eq]
      have hamounts : e.withAmounts (.str s) = .str s := by rw [Conditional.withAmounts, hint]
      have hdenotes := (Value.Denotes.name (ρ := ρ) hs).branchText
      rw [hamounts]
      exact ⟨s.toList, rfl, hdenotes.value?_eq, fun n hn => absurd (Option.some.inj hn) (by simp)⟩

/-- A table of one constant, and an environment that agrees with it. -/
def oneConstant : ConstantTable := [("GEN_3", 2)]

def oneEnvironment : C.Environment := fun name => if name = "GEN_3" then 2 else 1

theorem oneEnvironment_extends : oneEnvironment.Extends oneConstant := by
  intro name n h
  rw [oneConstant, List.lookup_cons] at h
  split at h
  · rename_i hname
    obtain rfl : name = "GEN_3" := by simpa using hname
    obtain rfl : 2 = n := by simpa using h
    exact ⟨by decide +kernel, rfl⟩
  · exact absurd h (by simp)

/-- An operand that is not known, and two that are, where the sum is the greatest 64-bit integer. -/
theorem value?_conditional_oneConstant :
    (∃ text, value "SPECIES_A" "height" oneConstant
        (.conditional ⟨"P_SIZE", .ge, "GEN_3", .int 10, .str "TALL", 4, 0⟩) = .ok text ∧
      C.value? oneEnvironment text = some 5) ∧
    ∃ text, value "SPECIES_A" "height" oneConstant
        (.conditional ⟨"GEN_3", .ge, "GEN_3", .int 9223372036854775803, .str "TALL", 4, 1⟩) =
          .ok text ∧
      C.value? oneEnvironment text = some 9223372036854775806 ∧
      readInt? text = some 9223372036854775806 := by
  have hname : C.Denotes oneEnvironment "P_SIZE".toList 1 := .name (by decide +kernel)
  have hconstant : C.Denotes oneEnvironment "GEN_3".toList 2 := .name (by decide +kernel)
  have hf : Value.Denotes oneEnvironment (.str "TALL") 1 := .name (by decide +kernel)
  constructor
  · have hnone : Conditional.holds? ⟨"P_SIZE", .ge, "GEN_3", .int 10, .str "TALL", 4, 0⟩
        oneConstant = none := by decide +kernel
    have hrange : Conditional.StaysInRange ⟨"P_SIZE", .ge, "GEN_3", .int 10, .str "TALL", 4, 0⟩
        oneConstant := fun _ _ hholds => absurd (hnone.symm.trans hholds) (by simp)
    obtain ⟨text, htext, hvalue, -⟩ := value?_conditional oneEnvironment_extends hname hconstant
      (.int 10) hf (by decide) (by decide) (.inr (.inl rfl)) hrange "SPECIES_A" "height"
    exact ⟨text, htext, hvalue.trans (by decide +kernel)⟩
  · have hrange : Conditional.StaysInRange
        ⟨"GEN_3", .ge, "GEN_3", .int 9223372036854775803, .str "TALL", 4, 1⟩ oneConstant := by
      intro holds n hholds hn
      obtain rfl : true = holds := Option.some.inj hholds
      obtain rfl : 9223372036854775803 = n := Option.some.inj hn
      decide
    obtain ⟨text, htext, hvalue, hread⟩ := value?_conditional oneEnvironment_extends hconstant
      hconstant (.int 9223372036854775803) hf (by decide) (by decide) (.inr (.inr rfl)) hrange
      "SPECIES_A" "height"
    exact ⟨text, htext, hvalue.trans (by decide +kernel), hread _ (by decide +kernel)⟩

/-- A name is written without the amount. -/
theorem value?_conditional_nameWithAmount :
    oneEnvironment.Extends oneConstant ∧ C.Denotes oneEnvironment "GEN_3".toList 2 ∧
      Value.Denotes oneEnvironment (.str "TALL") 1 ∧
      ∃ text, value "SPECIES_A" "height" oneConstant
          (.conditional ⟨"GEN_3", .eq, "GEN_3", .str "TALL", .str "TALL", 4, 0⟩) = .ok text ∧
        C.value? oneEnvironment text = some 1 ∧
        Conditional.chosen ⟨"GEN_3", .eq, "GEN_3", .str "TALL", .str "TALL", 4, 0⟩ 2 2 1 1 + 4 =
          5 :=
  ⟨oneEnvironment_extends, .name (by decide +kernel), .name (by decide +kernel), "TALL".toList, rfl,
    by decide +kernel, by decide⟩

end Emit

end TableSync
