import TableSync.Emit.Value
import TableSync.Field.Table
import TableSync.Proofs.Expr.Rereading
import TableSync.Proofs.Field.Parsers
import TableSync.Proofs.Text.Split

/-!
# Plain values written and read

An integer, a name or a conditional is written as what it is decided to, and read as that.  What is
decided when it is written does not come back: the number stands in the table, and the number is
read.  So reading gives `Value.resolve` of what was written, and that is all that can be asked for.

* `Emit.value_plain` says what is written for a value that `IsPlain`.  A sum that leaves the 64-bit
  integers is excluded there, as no table can hold it.
* `Value.IsStanding.decompose_scalar` says what is read from it, where a value `IsStanding` that is
  a scalar or a conditional that cannot be decided.  `Value.IsPlain.resolve` leads from the one to
  the other: what a plain value is decided to stands as it is.
* `FieldTable.parse_int`, `FieldTable.parse_verbatim` and `FieldTable.parse_found` say which way the
  text of a field goes: an integer is one for every field, and other texts are left to the parser of
  the field, if it has one.
-/

set_option autoImplicit false

namespace TableSync

/-! ## Plain values -/

/-- An integer, a name or a well-formed conditional.  A conditional that gives an integer gives one
of 64 bits. -/
def Value.IsPlain (constants : ConstantTable) : Value → Prop
  | .int n => IsInt64 n
  | .str s => IsName s.toList
  | .conditional e => e.WellFormed ∧ ∀ n, e.resolve? constants = some (.int n) → IsInt64 n
  | _ => False

/-- A scalar, or a conditional that cannot be decided. -/
def Value.IsStanding (constants : ConstantTable) : Value → Prop
  | .conditional e => e.WellFormed ∧ e.holds? constants = none
  | v => v.IsScalar

/-- A value outside lists as text. -/
def Value.plainText : Value → Text
  | .conditional e => e.literal
  | v => v.branchText

variable {constants : ConstantTable} {v : Value}

theorem Value.IsScalar.isStanding (h : v.IsScalar) : v.IsStanding constants := by
  cases v with
  | conditional e => exact h.elim
  | _ => exact h

theorem Value.IsScalar.plainText_eq (h : v.IsScalar) : v.plainText = v.branchText := by
  cases v with
  | conditional e => exact h.elim
  | _ => rfl

/-- Scalars are plain, and decided as they stand. -/
theorem Value.IsScalar.isPlain (h : v.IsScalar) : v.IsPlain constants := by
  cases v with
  | int n => exact h
  | str s => exact h
  | _ => exact h.elim

theorem Value.IsScalar.resolve_eq (h : v.IsScalar) : v.resolve constants = v := by
  cases v with
  | int n => rfl
  | str s => rfl
  | _ => exact h.elim

/-- A branch after the amounts is the branch, or an integer in place of one. -/
theorem Conditional.withAmounts_eq (e : Conditional) (v : Value) :
    e.withAmounts v = v ∨ ∃ n, e.withAmounts v = .int n := by
  rw [withAmounts]
  cases v.toInt? with
  | none => exact .inl rfl
  | some n => exact .inr ⟨_, rfl⟩

/-- What a plain value is decided to is a scalar, or it stands as it is. -/
theorem Value.IsPlain.resolve (h : v.IsPlain constants) :
    (v.resolve constants).IsStanding constants := by
  cases v with
  | int n => exact h
  | str s => exact h
  | conditional e =>
    obtain ⟨he, hrange⟩ := h
    rw [Value.resolve]
    cases hr : e.resolve? constants with
    | none =>
      rw [Option.getD_none]
      refine ⟨he, ?_⟩
      simpa [Conditional.resolve?] using hr
    | some u =>
      rw [Option.getD_some]
      obtain ⟨holds, -, rfl⟩ := Option.map_eq_some_iff.1 hr
      have hbranch : (e.branch holds).IsScalar := by
        cases holds
        · exact he.whenFalse
        · exact he.whenTrue
      rcases e.withAmounts_eq (e.branch holds) with hsame | ⟨n, hint⟩
      · rw [hsame]
        exact hbranch.isStanding
      · rw [hint] at hr ⊢
        exact hrange n hr
  | _ => exact h.elim

theorem Value.IsScalar.value_eq (h : v.IsScalar) (entity field : String)
    (constants : ConstantTable) : Emit.value entity field constants v = .ok v.branchText :=
  h.isBranch.isBare.value_eq entity field constants

/-- **A plain value is written as what it is decided to.** -/
theorem Emit.value_plain (h : v.IsPlain constants) (entity field : String) :
    Emit.value entity field constants v = .ok (v.resolve constants).plainText := by
  cases v with
  | int n => rfl
  | str s => rfl
  | conditional e =>
    obtain ⟨l, c, r, t, f, a, s⟩ := e
    obtain ⟨he, -⟩ := h
    rw [Emit.value, Value.resolve, Conditional.resolve?]
    cases hholds : Conditional.holds? ⟨l, c, r, t, f, a, s⟩ constants with
    | none => rfl
    | some holds =>
      rw [Option.map_some, Option.getD_some]
      have hbranch : (Conditional.branch ⟨l, c, r, t, f, a, s⟩ holds).IsScalar := by
        cases holds
        · exact he.whenFalse
        · exact he.whenTrue
      have hvalue : (if holds = true then Emit.value entity field constants t
          else Emit.value entity field constants f) =
            .ok (Conditional.branch ⟨l, c, r, t, f, a, s⟩ holds).branchText := by
        rw [← hbranch.value_eq entity field constants]
        cases holds <;> rfl
      -- The amounts leave a name as it is and turn a number into a number.
      rcases Conditional.withAmounts_eq ⟨l, c, r, t, f, a, s⟩
          (Conditional.branch ⟨l, c, r, t, f, a, s⟩ holds) with hsame | ⟨n, hint⟩
      · simp only [hsame, hbranch.plainText_eq]
        cases hb : Conditional.branch ⟨l, c, r, t, f, a, s⟩ holds with
        | int n => rfl
        | str name =>
          rw [hb] at hvalue
          exact hvalue
        | _ =>
          rw [hb] at hbranch
          exact hbranch.elim
      · simp only [hint]
        rfl
  | _ => exact h.elim

/-! ## Reading a standing value

A standing value is a scalar with its token or a conditional with its literal.  `cases_text` makes
the two cases of it once, and what is wanted of the text further on is said for both together. -/

/-- An operand that is not known is no numeral. -/
theorem Conditional.readInt?_of_holds? {e : Conditional} (h : e.holds? constants = none) :
    readInt? e.left.toList = none ∨ readInt? e.right.toList = none := by
  rw [holds?] at h
  cases hl : operand? constants e.left with
  | none => exact .inl (Option.or_eq_none_iff.1 hl).2
  | some l =>
    cases hr : operand? constants e.right with
    | none => exact .inr (Option.or_eq_none_iff.1 hr).2
    | some r =>
      rw [hl, hr] at h
      exact absurd h (by simp)

theorem Conditional.isClosed_literal {e : Conditional} (h : e.WellFormed) :
    IsClosed e.literal := by
  have hbase : IsClosed e.base := by
    refine isClosed_of_inert (isInert_of_notMem fun x hx => ?_)
    simp only [List.mem_cons, List.not_mem_nil, or_false] at hx
    rcases hx with rfl | rfl | rfl | rfl | rfl | rfl | rfl <;>
      exact notMem_base h (by decide) (by decide)
  have hamount : ∀ n, IsClosed (showInt n) := by
    refine fun n => isClosed_of_inert (isInert_of_notMem fun x hx => ?_)
    simp only [List.mem_cons, List.not_mem_nil, or_false] at hx
    rcases hx with rfl | rfl | rfl | rfl | rfl | rfl | rfl <;>
      exact (isToken_showInt n).notMem (by decide) (by decide)
  have hplus : IsClosed " + ".toList := fun depth => rfl
  have hminus : IsClosed " - ".toList := fun depth => rfl
  rw [literal_eq]
  split
  · exact hbase.parenthesized.append (hplus.append (hamount _))
  · split
    · exact hbase.parenthesized.append (hminus.append (hamount _))
    · exact hbase

namespace Value.IsStanding

/-- A standing value is a scalar with its token, or a conditional with its literal. -/
theorem cases_text (h : v.IsStanding constants) :
    (v.IsScalar ∧ v.plainText = v.branchText) ∨
      ∃ e, v = .conditional e ∧ e.WellFormed ∧ e.holds? constants = none := by
  cases v with
  | conditional e => exact .inr ⟨e, rfl, h.1, h.2⟩
  | int n => exact .inl ⟨h, rfl⟩
  | str s => exact .inl ⟨h, rfl⟩
  | _ => exact False.elim h

/-- The text of a standing value consists of word characters, blanks and the marks of the
grammar. -/
theorem notMem (h : v.IsStanding constants) {x : Char} (hx : isWordChar x = false)
    (hmark : x ∉ "-<>=!?: ()+".toList) : x ∉ v.plainText := by
  rcases h.cases_text with ⟨hs, ht⟩ | ⟨e, rfl, he, -⟩
  · rw [ht]
    refine hs.isToken.notMem hx ?_
    rintro rfl
    exact hmark (by decide)
  · exact e.notMem_literal he hx hmark

theorem isTrimmed (h : v.IsStanding constants) : IsTrimmed v.plainText := by
  rcases h.cases_text with ⟨hs, ht⟩ | ⟨e, rfl, he, -⟩
  · rw [ht]
    exact hs.isToken.isTrimmed
  · exact e.isTrimmed_literal he

theorem ne_nil (h : v.IsStanding constants) : v.plainText ≠ [] := by
  rcases h.cases_text with ⟨hs, ht⟩ | ⟨e, rfl, he, -⟩
  · rw [ht]
    exact hs.isToken.1
  · intro hnil
    have hfound := e.find?_literal he
    rw [show e.literal = [] from hnil] at hfound
    exact absurd hfound (by simp [Conditional.find?, amountAtEnd?, conditionalIn?])

theorem isClosed (h : v.IsStanding constants) : IsClosed v.plainText := by
  rcases h.cases_text with ⟨hs, ht⟩ | ⟨e, rfl, he, -⟩
  · rw [ht]
    refine isClosed_of_inert (isInert_of_notMem fun x hx => ?_)
    simp only [List.mem_cons, List.not_mem_nil, or_false] at hx
    rcases hx with rfl | rfl | rfl | rfl | rfl | rfl | rfl <;>
      exact hs.isToken.notMem (by decide) (by decide)
  · exact e.isClosed_literal he

/-- A parenthesis stands at the start of the text of a standing value, or none stands in it. -/
theorem parenthesis (h : v.IsStanding constants) :
    v.plainText.head? = some '(' ∨ '(' ∉ v.plainText := by
  rcases h.cases_text with ⟨hs, ht⟩ | ⟨e, rfl, he, -⟩
  · rw [ht]
    exact .inr (hs.isToken.notMem (by decide) (by decide))
  · show e.literal.head? = some '(' ∨ '(' ∉ e.literal
    rw [Conditional.literal_eq]
    split
    · exact .inl rfl
    · split
      · exact .inl rfl
      · exact .inr (Conditional.notMem_base he (by decide) (by decide))

/-- The text of a standing value is an integer only if the value is. -/
theorem readInt?_plainText (h : v.IsStanding constants) :
    readInt? v.plainText = v.int? := by
  cases v with
  | int n => exact readInt?_showInt h
  | str s => exact h.2
  | conditional e => exact e.readInt?_literal
  | _ => exact False.elim h

theorem fold?_plainText (h : v.IsStanding constants) (hint : v.int? = none) :
    fold? v.plainText = none := by
  cases v with
  | int n => exact absurd hint (by simp [Value.int?])
  | str s => exact fold?_name h
  | conditional e => exact e.fold?_literal h.1 (Conditional.readInt?_of_holds? h.2)
  | _ => exact False.elim h

/-- What is read as text, and is no integer, is taken apart to the value. -/
theorem decompose_ofText (h : v.IsStanding constants) (hint : v.int? = none) :
    (Value.ofText v.plainText).decompose = v := by
  cases v with
  | int n => exact absurd hint (by simp [Value.int?])
  | str s =>
    have hnone : Conditional.find? s.toList = none := Conditional.find?_word h.1
    simp only [Value.ofText, Value.plainText, Value.branchText, String.ofList_toList,
      Value.decompose, hnone]
  | conditional e =>
    have hfound := e.find?_literal h.1
    simp only [Value.ofText, Value.plainText, Value.decompose, String.toList_ofList, hfound]
  | _ => exact False.elim h

/-- **A standing value is read from its token.** -/
theorem decompose_scalar (h : v.IsStanding constants) :
    (Value.scalar v.plainText).decompose = v := by
  rw [Value.scalar, trim_eq_self h.isTrimmed, h.readInt?_plainText]
  cases hint : v.int? with
  | none => exact h.decompose_ofText hint
  | some n =>
    cases v with
    | int m => rw [← Option.some.inj hint]; rfl
    | _ => exact absurd hint (by simp [Value.int?])

end Value.IsStanding

/-! ## The way a text goes -/

namespace FieldTable

variable {table : FieldTable} {key : String} {raw : Text}

/-- An integer is read as such, unless the parser of the field makes an empty list of it. -/
theorem parse_int {n : Int} (htrim : IsTrimmed raw) (hint : readInt? raw = some n)
    (hlist : ∀ parser, table.lookup key = some parser → parser raw ≠ some (.list [])) :
    (table.parse key raw).value = .int n := by
  have hread : table.read key raw = (.int n, .parsed) := by
    rw [read, hint]
    cases hp : table.lookup key with
    | none => rfl
    | some parser =>
      have hne := hlist parser hp
      simp only [Option.bind_some]
  rw [parse, trim_eq_self htrim, hread]
  rfl

/-- A field without a parser keeps its text. -/
theorem parse_verbatim (htrim : IsTrimmed raw) (hint : readInt? raw = none)
    (hfold : fold? raw = none) (hp : table.lookup key = none) :
    (table.parse key raw).value = (Value.ofText raw).decompose := by
  have hread : table.read key raw = (.ofText raw, .verbatim) := by
    rw [read, hint, hfold, hp]
  rw [parse, trim_eq_self htrim, hread]

/-- What is no integer goes to the parser of the field. -/
theorem parse_found {parser : FieldParser} {value : Value} (htrim : IsTrimmed raw)
    (hint : readInt? raw = none) (hfold : fold? raw = none) (hp : table.lookup key = some parser)
    (hv : parser raw = some value) : (table.parse key raw).value = value.decompose := by
  have hread : table.read key raw = (value, .parsed) := by
    rw [read, hint, hfold, hp]
    simp only [hv]
  rw [parse, trim_eq_self htrim, hread]

/-- Whatever is read, it is stored under the key that was asked for. -/
@[simp]
theorem parse_key (table : FieldTable) (key : String) (raw : Text) :
    (table.parse key raw).key = key := rfl

end FieldTable

end TableSync
