import Mathlib.Data.List.TakeWhile
import Mathlib.Logic.Relation
import TableSync.Proofs.Moves.Document
import TableSync.Proofs.Text.Split
import TableSync.Proofs.Text.Word

/-!
# The integers that names stand for

The value of a text is a numeral, a sum of two values, or the value of what a name is defined to be.
`Names.Denotes` says this by derivations, and resolving a text finds its value exactly if there is a
derivation that is not too high.

* `resolveWithin_eq_some_iff` is this equivalence, for any number of steps.  The three lemmas before
  it (`denotes_iff_of_numeral` and the ones like it) say which derivations a text can have, in the
  order in which the program tries them.
* `Denotes.unique`: a text has one value, by derivations of one height.
* `Leads` is what the value of a text is found from, and `not_denotes_of_returns` says that nothing
  whose value would be found from itself has one: a derivation of it would be lower than itself
  (`Denotes.transGen`).
* `exists_define_of_mem` and `areWords_read` say what the definitions of a header are like, so that
  what is said of derivations applies to them.
* **`resolve_denotes`** puts this together for the definitions of a header, with what becomes of
  such a name in the document of moves.
* `resolve_numeralName`: a numeral is not looked up, even if something is defined under it.
-/

set_option autoImplicit false

namespace TableSync

/-- The name of a definition holds no blank and no parenthesis, and its text is trimmed. -/
theorem parseDefine?_spec {line : Text} {d : Define} (h : parseDefine? line = some d) :
    (∀ c ∈ d.name.toList, isBlank c = false) ∧ '(' ∉ d.name.toList ∧ IsTrimmed d.value := by
  unfold parseDefine? at h
  simp only [Option.bind_eq_bind, Option.bind_eq_some_iff, Option.guard_eq_some',
    List.span_eq_takeWhile_dropWhile, Bool.and_eq_true, Option.pure_def, Option.some.injEq] at h
  obtain ⟨s, -, -, -, -, ⟨⟨⟨-, hparen⟩, -⟩, -⟩, -, -, rfl⟩ := h
  rw [String.toList_ofList]
  refine ⟨fun c hc => ?_, by simpa using hparen, isTrimmed_trim _⟩
  simpa using List.mem_takeWhile_imp hc

namespace Moves.Names

/-! ## Bare texts -/

/-- A text without blanks and parentheses is bare. -/
theorem bare_eq_self {text : Text} (hblank : ∀ c ∈ text, isBlank c = false) (hparen : '(' ∉ text) :
    bare text = text := by
  have htrim : trim text = text := trim_eq_self (isTrimmed_of_forall hblank)
  have hdrop : dropStart? ['('] text = none := dropStart?_of_notMem (by simp) hparen
  rw [bare, htrim, hdrop, Option.bind_none, Option.getD_none, htrim]

/-- The parentheses at the two ends need not belong together. -/
example : bare "(1) + (2)".toList = "1) + (2".toList := by decide

/-- A numeral stands in no parentheses. -/
theorem bare_of_readInt? {text : Text} {n : Int} (h : readInt? (trim text) = some n) :
    bare text = trim text := by
  have hparen : '(' ∉ trim text := fun hmem => by
    cases h.symm.trans (readInt?_eq_none hmem (by decide) (by decide) (by decide))
  rw [bare, dropStart?_of_notMem (by simp) hparen, Option.bind_none, Option.getD_none, trim_trim]

/-- A sum is no numeral. -/
theorem readInt?_of_cut? {text lhs rhs : Text} (h : cut? " + ".toList text = some (lhs, rhs)) :
    readInt? text = none := by
  have hmem : ' ' ∈ text := by
    rw [eq_of_cut? h]
    simp
  exact readInt?_eq_none hmem (by decide) (by decide) (by decide)

/-! ## Values by derivations

The height of a derivation is part of the relation, since the program stops at a depth: a text whose
derivation is higher is not resolved, though it has a value. -/

/-- A text that may be a name: it is no numeral. -/
def IsSymbol (text : Text) : Prop := readInt? text = none

instance (text : Text) : Decidable (IsSymbol text) :=
  inferInstanceAs (Decidable (readInt? text = none))

/-- A text has a value by a derivation of some height: it is a numeral, a sum of two values, or a
name and has the value of its definition.  `IsName` says what can be a name. -/
inductive Denotes (names : Names) (IsName : Text → Prop) : Nat → Text → Int → Prop
  | literal {text : Text} {n : Int} (hread : readInt? (bare text) = some n) :
      Denotes names IsName 0 text n
  | sum {text lhs rhs : Text} {i j : Nat} {a b n : Int}
      (hcut : cut? " + ".toList (bare text) = some (lhs, rhs))
      (hlhs : Denotes names IsName i lhs a) (hrhs : Denotes names IsName j rhs b)
      (hsum : int64? (a + b) = some n) : Denotes names IsName (max i j + 1) text n
  | name {text definition : Text} {i : Nat} {n : Int} (hname : IsName (bare text))
      (hdefinition : names.definition? (bare text) = some definition)
      (hvalue : Denotes names IsName i definition n) : Denotes names IsName (i + 1) text n

/-- No name is written like a sum. -/
def AreWords (names : Names) : Prop :=
  ∀ text definition, names.definition? text = some definition → cut? " + ".toList text = none

variable {names : Names} {text lhs rhs t : Text} {i j steps : Nat} {n m : Int}

theorem denotes_iff_of_numeral (hread : readInt? (bare text) = some m) :
    names.Denotes IsSymbol i text n ↔ i = 0 ∧ n = m := by
  constructor
  · intro h
    cases h with
    | literal hread' => exact ⟨rfl, Option.some.inj (hread'.symm.trans hread)⟩
    | sum hcut => cases hread.symm.trans (readInt?_of_cut? hcut)
    | name hname => cases hread.symm.trans hname
  · rintro ⟨rfl, rfl⟩
    exact .literal hread

theorem denotes_iff_of_sum (hwords : names.AreWords)
    (hcut : cut? " + ".toList (bare text) = some (lhs, rhs)) :
    names.Denotes IsSymbol i text n ↔ ∃ j k a b, i = max j k + 1 ∧
      names.Denotes IsSymbol j lhs a ∧ names.Denotes IsSymbol k rhs b ∧
        int64? (a + b) = some n := by
  constructor
  · intro h
    cases h with
    | literal hread => cases hread.symm.trans (readInt?_of_cut? hcut)
    | sum hcut' hlhs hrhs hsum =>
      obtain ⟨rfl, rfl⟩ := Prod.mk.inj (Option.some.inj (hcut'.symm.trans hcut))
      exact ⟨_, _, _, _, rfl, hlhs, hrhs, hsum⟩
    | name _ hdefinition => cases hcut.symm.trans (hwords _ _ hdefinition)
  · rintro ⟨j, k, a, b, rfl, hlhs, hrhs, hsum⟩
    exact .sum hcut hlhs hrhs hsum

theorem denotes_iff_of_symbol (hread : readInt? (bare text) = none)
    (hcut : cut? " + ".toList (bare text) = none) :
    names.Denotes IsSymbol i text n ↔ ∃ j definition, i = j + 1 ∧
      names.definition? (bare text) = some definition ∧ names.Denotes IsSymbol j definition n := by
  constructor
  · intro h
    cases h with
    | literal hread' => cases hread'.symm.trans hread
    | sum hcut' => cases hcut'.symm.trans hcut
    | name _ hdefinition hvalue => exact ⟨_, _, rfl, hdefinition, hvalue⟩
  · rintro ⟨j, definition, rfl, hdefinition, hvalue⟩
    exact .name hread hdefinition hvalue

/-! ## Resolving finds the values -/

/-- **Resolving a text finds its value exactly if a derivation of it is lower than the number of
steps.** -/
theorem resolveWithin_eq_some_iff (hwords : names.AreWords) :
    names.resolveWithin steps text = some n ↔ ∃ i < steps, names.Denotes IsSymbol i text n := by
  induction steps generalizing text n with
  | zero => simp [resolveWithin]
  | succ steps ih =>
    simp only [resolveWithin]
    cases hread : readInt? (bare text) with
    | some m =>
      simp only [denotes_iff_of_numeral hread, Option.some.injEq]
      exact ⟨fun h => ⟨0, Nat.succ_pos steps, rfl, h.symm⟩, fun ⟨_, _, _, h⟩ => h.symm⟩
    | none =>
      cases hcut : cut? " + ".toList (bare text) with
      | some parts =>
        obtain ⟨lhs, rhs⟩ := parts
        simp only [Option.bind_eq_bind, Option.bind_eq_some_iff, ih, denotes_iff_of_sum hwords hcut]
        constructor
        · rintro ⟨a, ⟨j, hj, hlhs⟩, b, ⟨k, hk, hrhs⟩, hsum⟩
          exact ⟨max j k + 1, by omega, j, k, a, b, rfl, hlhs, hrhs, hsum⟩
        · rintro ⟨i, hi, j, k, a, b, rfl, hlhs, hrhs, hsum⟩
          exact ⟨a, ⟨j, by omega, hlhs⟩, b, ⟨k, by omega, hrhs⟩, hsum⟩
      | none =>
        simp only [Option.bind_eq_some_iff, ih, denotes_iff_of_symbol hread hcut]
        constructor
        · rintro ⟨definition, hdefinition, j, hj, hvalue⟩
          exact ⟨j + 1, by omega, j, definition, rfl, hdefinition, hvalue⟩
        · rintro ⟨i, hi, j, definition, rfl, hdefinition, hvalue⟩
          exact ⟨definition, hdefinition, j, by omega, hvalue⟩

/-- **A text has one value**, and all derivations of it are of one height. -/
theorem Denotes.unique (hwords : names.AreWords) (h : names.Denotes IsSymbol i text n)
    (h' : names.Denotes IsSymbol j text m) : i = j ∧ n = m := by
  induction h generalizing j m with
  | literal hread =>
    obtain ⟨rfl, rfl⟩ := (denotes_iff_of_numeral hread).1 h'
    exact ⟨rfl, rfl⟩
  | sum hcut _ _ hsum ihlhs ihrhs =>
    obtain ⟨k, l, a, b, rfl, hlhs, hrhs, hsum'⟩ := (denotes_iff_of_sum hwords hcut).1 h'
    obtain ⟨rfl, rfl⟩ := ihlhs hlhs
    obtain ⟨rfl, rfl⟩ := ihrhs hrhs
    exact ⟨rfl, Option.some.inj (hsum.symm.trans hsum')⟩
  | name hname hdefinition _ ih =>
    obtain ⟨k, definition, rfl, hdefinition', hvalue⟩ :=
      (denotes_iff_of_symbol hname (hwords _ _ hdefinition)).1 h'
    obtain rfl := Option.some.inj (hdefinition.symm.trans hdefinition')
    obtain ⟨rfl, rfl⟩ := ih hvalue
    exact ⟨rfl, rfl⟩

/-- Only the bare text matters. -/
theorem Denotes.congr (hbare : bare text = bare t) (h : names.Denotes IsSymbol i text n) :
    names.Denotes IsSymbol i t n := by
  cases h with
  | literal hread => exact .literal (hbare ▸ hread)
  | sum hcut hlhs hrhs hsum => exact .sum (hbare ▸ hcut) hlhs hrhs hsum
  | name hname hdefinition hvalue => exact .name (hbare ▸ hname) (hbare ▸ hdefinition) hvalue

/-! ## Texts whose value would be found from themselves -/

/-- The value of a text is found from that of another: from a part of the sum that it is, or from
the definition of the name that it is. -/
inductive Leads (names : Names) : Text → Text → Prop
  | left {text lhs rhs : Text} (hcut : cut? " + ".toList (bare text) = some (lhs, rhs)) :
      Leads names text lhs
  | right {text lhs rhs : Text} (hcut : cut? " + ".toList (bare text) = some (lhs, rhs)) :
      Leads names text rhs
  | name {text definition : Text} (hname : IsSymbol (bare text))
      (hdefinition : names.definition? (bare text) = some definition) : Leads names text definition

/-- Finding the value of a text comes back to the text, blanks and parentheses around it aside. -/
def Returns (names : Names) (text : Text) : Prop :=
  ∃ t, Relation.TransGen names.Leads text t ∧ bare t = bare text

theorem Denotes.leads (hwords : names.AreWords) (h : names.Denotes IsSymbol i text n)
    (hleads : names.Leads text t) : ∃ j < i, ∃ m, names.Denotes IsSymbol j t m := by
  cases hleads with
  | left hcut =>
    obtain ⟨j, k, a, b, rfl, hlhs, -, -⟩ := (denotes_iff_of_sum hwords hcut).1 h
    exact ⟨j, by omega, a, hlhs⟩
  | right hcut =>
    obtain ⟨j, k, a, b, rfl, -, hrhs, -⟩ := (denotes_iff_of_sum hwords hcut).1 h
    exact ⟨k, by omega, b, hrhs⟩
  | name hname hdefinition =>
    obtain ⟨j, definition, rfl, hdefinition', hvalue⟩ :=
      (denotes_iff_of_symbol hname (hwords _ _ hdefinition)).1 h
    obtain rfl := Option.some.inj (hdefinition.symm.trans hdefinition')
    exact ⟨j, by omega, n, hvalue⟩

/-- What the value of a text is found from, at last, has a value by a lower derivation. -/
theorem Denotes.transGen (hwords : names.AreWords) (h : names.Denotes IsSymbol i text n)
    (hleads : Relation.TransGen names.Leads text t) :
    ∃ j < i, ∃ m, names.Denotes IsSymbol j t m := by
  induction hleads with
  | single hstep => exact h.leads hwords hstep
  | tail _ hstep ih =>
    obtain ⟨j, hj, m, hvalue⟩ := ih
    obtain ⟨k, hk, hlast⟩ := hvalue.leads hwords hstep
    exact ⟨k, by omega, hlast⟩

/-- **A text whose value would be found from itself has none**: a derivation of it would be lower
than itself. -/
theorem not_denotes_of_returns (hwords : names.AreWords) (hreturns : names.Returns text) :
    ¬ names.Denotes IsSymbol i text n := by
  intro h
  obtain ⟨t, hleads, hbare⟩ := hreturns
  obtain ⟨j, hj, m, hvalue⟩ := h.transGen hwords hleads
  obtain ⟨rfl, -⟩ := h.unique hwords (hvalue.congr hbare)
  exact Nat.lt_irrefl _ hj

/-! ## The definitions of a header

A name with a blank in it could be mistaken for a sum.  Definitions are read word by word, so there
is none. -/

section Header

variable {header : Text} {name : String}

/-- Every pair of a header is a definition on one of its lines, and its name tells whether it is a
move. -/
theorem exists_define_of_mem :
    (∀ p ∈ (read header).moves, startsWith stem p.1.toList = true ∧
      ∃ line d, parseDefine? line = some d ∧ p = (d.name, d.value)) ∧
    ∀ p ∈ (read header).constants, startsWith stem p.1.toList = false ∧
      ∃ line d, parseDefine? line = some d ∧ p = (d.name, d.value) := by
  have hread : ∀ d ∈ ((lines header).filterMap parseDefine?).filter (fun d => d.name ≠ unavailable),
      ∃ line, parseDefine? line = some d := by
    intro d hd
    obtain ⟨line, -, hline⟩ := List.mem_filterMap.1 (List.mem_filter.1 hd).1
    exact ⟨line, hline⟩
  simp only [read, List.partition_eq_filter_filter]
  constructor
  · intro p hp
    obtain ⟨d, hd, rfl⟩ := List.mem_map.1 hp
    obtain ⟨line, hline⟩ := hread d (List.mem_filter.1 hd).1
    exact ⟨(List.mem_filter.1 hd).2, line, d, hline, rfl⟩
  · intro p hp
    obtain ⟨d, hd, rfl⟩ := List.mem_map.1 hp
    obtain ⟨line, hline⟩ := hread d (List.mem_filter.1 hd).1
    exact ⟨by simpa using (List.mem_filter.1 hd).2, line, d, hline, rfl⟩

/-- What is defined in a header has a name without blanks and parentheses, and a trimmed text. -/
theorem spec_of_mem {p : String × Text}
    (h : p ∈ (read header).moves ∨ p ∈ (read header).constants) :
    (∀ c ∈ p.1.toList, isBlank c = false) ∧ '(' ∉ p.1.toList ∧ IsTrimmed p.2 := by
  obtain ⟨line, d, hline, rfl⟩ : ∃ line d, parseDefine? line = some d ∧ p = (d.name, d.value) :=
    h.elim (fun hmem => (exists_define_of_mem.1 p hmem).2) fun hmem =>
      (exists_define_of_mem.2 p hmem).2
  exact parseDefine?_spec hline

theorem mem_of_definition? {definition : Text}
    (h : (read header).definition? text = some definition) :
    (String.ofList text, definition) ∈ (read header).moves ∨
      (String.ofList text, definition) ∈ (read header).constants := by
  rw [definition?, Option.or_eq_some_iff] at h
  rcases h with h | ⟨-, h⟩
  · exact .inr (mem_of_lastText h)
  · exact .inl (mem_of_lastText h)

theorem areWords_read (header : Text) : (read header).AreWords := by
  intro text definition h
  have hblank := (spec_of_mem (mem_of_definition? h)).1
  rw [String.toList_ofList] at hblank
  cases hcut : cut? " + ".toList text with
  | none => rfl
  | some parts =>
    have hmem : ' ' ∈ text := by
      rw [eq_of_cut? hcut]
      simp
    exact absurd (hblank ' ' hmem) (by decide)

/-- A name is looked up among the constants if it is none of a move, and else among the moves. -/
theorem definition?_eq (h : lastText name (read header).moves = some text ∨
    lastText name (read header).constants = some text) :
    (read header).definition? name.toList = some text := by
  rw [definition?, String.ofList_toList]
  rcases h with h | h
  · have hstem := (exists_define_of_mem.1 _ (mem_of_lastText h)).1
    have hnone : lastText name (read header).constants = none := by
      refine Option.eq_none_iff_forall_ne_some.2 fun other hother => ?_
      rw [(exists_define_of_mem.2 _ (mem_of_lastText hother)).1] at hstem
      exact Bool.noConfusion hstem
    rw [hnone, h, Option.none_or]
  · rw [h, Option.some_or]

/-- A name whose value would be found from itself keeps the text of its definition as its value. -/
theorem value_of_returns (h : lastText name (read header).moves = some text ∨
    lastText name (read header).constants = some text)
    (hreturns : (read header).Returns name.toList) : (read header).value text = .ofText text := by
  obtain ⟨hblank, hparen, htrim⟩ :=
    spec_of_mem (h.imp (fun h => mem_of_lastText h) fun h => mem_of_lastText h)
  have hbare : bare name.toList = name.toList := bare_eq_self hblank hparen
  have hdefinition : (read header).definition? (bare name.toList) = some text := by
    rw [hbare, definition?_eq h]
  -- the first step from the name goes to its definition, so the name is no numeral
  have hsymbol : IsSymbol (bare name.toList) := by
    obtain ⟨t, hleads, -⟩ := hreturns
    obtain ⟨first, hfirst, -⟩ := Relation.TransGen.head'_iff.1 hleads
    cases hfirst with
    | left hcut => exact readInt?_of_cut? hcut
    | right hcut => exact readInt?_of_cut? hcut
    | name hname => exact hname
  have hnone : (read header).resolve text 0 = none := by
    refine Option.eq_none_iff_forall_ne_some.2 fun n hn => ?_
    obtain ⟨i, -, hvalue⟩ := (resolveWithin_eq_some_iff (areWords_read header)).1 hn
    exact not_denotes_of_returns (areWords_read header) hreturns (.name hsymbol hdefinition hvalue)
  have hread : readInt? (trim text) = none := by
    refine Option.eq_none_iff_forall_ne_some.2 fun n hn => ?_
    have hvalue : (read header).Denotes IsSymbol 0 text n :=
      .literal ((bare_of_readInt? hn).symm ▸ hn)
    have hsome := (resolveWithin_eq_some_iff (areWords_read header)).2
      ⟨0, Nat.succ_pos maxDepth, hvalue⟩
    cases hsome.symm.trans hnone
  rw [value, hnone, Value.scalar, hread, trim_eq_self htrim]

/-- **Resolving names is sound, and it does not matter where it starts.**  What is found for a text
at some depth is a value of the text, and is found at every smaller depth; a value by a derivation
that is no higher than the depth leaves is found.  A name whose value would be found from itself is
never resolved, and keeps the text of its last definition in the document of moves. -/
theorem resolve_denotes (header : Text) :
    (∀ text depth n, (read header).resolve text depth = some n →
      (∃ i, (read header).Denotes IsSymbol i text n) ∧
        ∀ lower ≤ depth, (read header).resolve text lower = some n) ∧
    (∀ text depth n i, (read header).Denotes IsSymbol i text n → i + depth ≤ maxDepth →
      (read header).resolve text depth = some n) ∧
    ∀ name : String, (read header).Returns name.toList →
      (∀ depth, (read header).resolve name.toList depth = none) ∧
        ∀ descriptions battle text,
          (lastText name (read header).moves = some text →
            (parse header descriptions battle).records.getPath? ["moves", name, "id"] =
              some (.ofText text)) ∧
          (lastText name (read header).constants = some text →
            (parse header descriptions battle).records.getPath? ["constants", name] =
              some (.ofText text)) := by
  have hwords := areWords_read header
  refine ⟨fun text depth n h => ?_, fun text depth n i h hi => ?_, fun name hreturns => ⟨?_, ?_⟩⟩
  · obtain ⟨i, hi, hvalue⟩ := (resolveWithin_eq_some_iff hwords).1 h
    refine ⟨⟨i, hvalue⟩, fun lower hlower => ?_⟩
    exact (resolveWithin_eq_some_iff hwords).2 ⟨i, by omega, hvalue⟩
  · exact (resolveWithin_eq_some_iff hwords).2 ⟨i, by omega, h⟩
  · refine fun depth => Option.eq_none_iff_forall_ne_some.2 fun n hn => ?_
    obtain ⟨i, -, hvalue⟩ := (resolveWithin_eq_some_iff hwords).1 hn
    exact not_denotes_of_returns hwords hreturns hvalue
  · intro descriptions battle text
    refine ⟨fun h => ?_, fun h => ?_⟩
    · rw [getPath?_id h, value_of_returns (.inl h) hreturns]
    · rw [getPath?_constant h, value_of_returns (.inr h) hreturns]

end Header

/-- Two moves that are defined by each other, and one that is a sum. -/
def sampleIds : Text :=
  ("#define MOVE_A (MOVE_B)\n#define MOVE_B MOVE_A + 1\n#define BASE 2\n" ++
    "#define MOVE_C BASE + 3\n").toList

theorem resolve_denotes_sampleIds :
    (read sampleIds).Denotes IsSymbol 3 "MOVE_C".toList 5 ∧
      (read sampleIds).resolve "MOVE_C".toList 13 = some 5 ∧
      (∀ lower ≤ 13, (read sampleIds).resolve "MOVE_C".toList lower = some 5) ∧
      (read sampleIds).Returns "MOVE_A".toList ∧
      (∀ depth, (read sampleIds).resolve "MOVE_A".toList depth = none) ∧
      (parse sampleIds [] []).records.getPath? ["moves", "MOVE_A", "id"] =
        some (.ofText "(MOVE_B)".toList) := by
  obtain ⟨hsound, hcomplete, hreturning⟩ := resolve_denotes sampleIds
  have hBASE : (read sampleIds).definition? (bare "BASE".toList) = some "2".toList := by
    decide +kernel
  have hC : (read sampleIds).definition? (bare "MOVE_C".toList) = some "BASE + 3".toList := by
    decide +kernel
  have hcutC : cut? " + ".toList (bare "BASE + 3".toList) = some ("BASE".toList, "3".toList) := by
    decide +kernel
  have htwo : (read sampleIds).Denotes IsSymbol 0 "2".toList 2 := .literal (by decide +kernel)
  have hthree : (read sampleIds).Denotes IsSymbol 0 "3".toList 3 := .literal (by decide +kernel)
  have hmove : (read sampleIds).Denotes IsSymbol 3 "MOVE_C".toList 5 :=
    .name (by decide +kernel) hC
      (.sum hcutC (.name (by decide +kernel) hBASE htwo) hthree (by decide))
  have hresolve := hcomplete "MOVE_C".toList 13 5 3 hmove (by decide)
  have hA : (read sampleIds).Leads "MOVE_A".toList "(MOVE_B)".toList :=
    .name (by decide +kernel) (by decide +kernel)
  have hB : (read sampleIds).Leads "(MOVE_B)".toList "MOVE_A + 1".toList :=
    .name (by decide +kernel) (by decide +kernel)
  have hcutB : cut? " + ".toList (bare "MOVE_A + 1".toList) =
      some ("MOVE_A".toList, "1".toList) := by
    decide +kernel
  have hreturns : (read sampleIds).Returns "MOVE_A".toList :=
    ⟨_, ((Relation.TransGen.single hA).tail hB).tail (.left hcutB), rfl⟩
  obtain ⟨hnone, hkept⟩ := hreturning "MOVE_A" hreturns
  exact ⟨hmove, hresolve, (hsound _ _ _ hresolve).2, hreturns, hnone,
    (hkept [] [] "(MOVE_B)".toList).1 (by decide +kernel)⟩

/-- **A numeral is not looked up**, whatever is defined under it: were every text a name, it would
have two values. -/
theorem resolve_numeralName :
    let names := read "#define 5 3\n".toList
    names.Denotes (fun _ => True) 1 "5".toList 3 ∧ 1 + 0 ≤ maxDepth ∧
      names.resolve "5".toList 0 = some 5 := by
  have hdefinition : (read "#define 5 3\n".toList).definition? (bare "5".toList) =
      some "3".toList := by
    decide +kernel
  exact ⟨.name trivial hdefinition (.literal (by decide +kernel)), by decide, by decide +kernel⟩

end Moves.Names

end TableSync
