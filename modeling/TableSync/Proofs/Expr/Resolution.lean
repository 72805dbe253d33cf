import Mathlib.Logic.Function.Iterate
import TableSync.Expr.Symbolic

/-!
# How far the conditionals of a value are decided

`Value.resolve` puts the branch that a conditional chooses in its place as it stands: a conditional
in that branch is left for the next pass.  The items of a list are all passed over, and what is in a
record is never looked at.

* `Value.Meets` are the conditionals that a pass comes to, and a value `IsResolved` if none of them
  can be decided.
* `Value.passes` is the number of passes that a value needs.  It follows the choices: a conditional
  that can be decided takes one more than the branch it chooses, whatever stands in the other one,
  and a list as many as the item that needs most.
* `Value.passes_resolve` says that each pass takes one off, and `Value.passes_eq_zero_iff` that a
  value without any left is resolved, so that `Value.passes_iterate` counts how many are needed.
* `Value.isResolved_resolve_iff` says when one pass is enough, in terms of the branches chosen.
* `Value.resolve_resolve_eq_iff` says for which values a second pass changes nothing.

All of them go by `Value.list_induction`, an induction along the lists of a value and into nothing
else, which is the way a pass goes.  The amounts are added to integers, and an integer holds no
conditional, so they make no difference here.
-/

set_option autoImplicit false

namespace TableSync

theorem resolveItems_eq_map (constants : ConstantTable) (items : List Value) :
    resolveItems constants items = items.map (Value.resolve constants) := by
  induction items with
  | nil => rfl
  | cons v vs ih => rw [resolveItems, ih, List.map_cons]

mutual

/-- Induction along the lists of a value, which is the way a pass goes. -/
theorem Value.list_induction {P : Value → Prop} (int : ∀ n, P (.int n)) (str : ∀ s, P (.str s))
    (record : ∀ r, P (.record r)) (conditional : ∀ e, P (.conditional e))
    (list : ∀ items, (∀ v ∈ items, P v) → P (.list items)) : ∀ v : Value, P v
  | .int n => int n
  | .str s => str s
  | .record r => record r
  | .conditional e => conditional e
  | .list items => list items (Value.list_induction_items int str record conditional list items)
termination_by structural v => v

/-- The same for the items of a list. -/
theorem Value.list_induction_items {P : Value → Prop} (int : ∀ n, P (.int n))
    (str : ∀ s, P (.str s)) (record : ∀ r, P (.record r))
    (conditional : ∀ e, P (.conditional e))
    (list : ∀ items, (∀ v ∈ items, P v) → P (.list items)) :
    ∀ items : List Value, ∀ v ∈ items, P v
  | [] => fun _ hv => absurd hv List.not_mem_nil
  | v :: vs => List.forall_mem_cons.2 ⟨Value.list_induction int str record conditional list v,
      Value.list_induction_items int str record conditional list vs⟩
termination_by structural items => items

end

namespace Value

variable {constants : ConstantTable} {v : Value} {items : List Value}

/-! ## What a pass comes to -/

/-- A conditional that is the value, or stands in a list in it: not one in a record or in a branch
of another. -/
inductive Meets : Value → Conditional → Prop
  | self (e : Conditional) : Meets (.conditional e) e
  | item {v : Value} {items : List Value} {e : Conditional} (hv : v ∈ items) (h : Meets v e) :
      Meets (.list items) e

/-- No conditional that a pass comes to can be decided. -/
def IsResolved (constants : ConstantTable) (v : Value) : Prop :=
  ∀ e, v.Meets e → e.holds? constants = none

theorem isResolved_conditional {e : Conditional} :
    (Value.conditional e).IsResolved constants ↔ e.holds? constants = none := by
  constructor
  · exact fun h => h e (.self e)
  · rintro h _ ⟨⟩
    exact h

theorem isResolved_list :
    (Value.list items).IsResolved constants ↔ ∀ v ∈ items, v.IsResolved constants := by
  constructor
  · exact fun h v hv e he => h e (.item hv he)
  · rintro h e (_ | ⟨hv, he⟩)
    exact h _ hv e he

/-- A value with an integer holds no conditional. -/
theorem isResolved_of_toInt? {n : Int} (h : v.toInt? = some n) : v.IsResolved constants := by
  intro e he
  cases he with
  | self => cases h
  | item => cases h

/-- The amounts do not bring a conditional in. -/
theorem isResolved_withAmounts {e : Conditional} :
    (e.withAmounts v).IsResolved constants ↔ v.IsResolved constants := by
  rw [Conditional.withAmounts]
  split
  · next n hn => exact iff_of_true (isResolved_of_toInt? rfl) (isResolved_of_toInt? hn)
  · rfl

/-! ## The number of passes

The number is defined by the same recursion as the pass.  It goes down by one with each, and not to
zero at once, as a chosen branch is not looked into. -/

end Value

mutual

/-- The number of passes that decide all that can be decided in a value: a decided conditional takes
one more than the branch it chooses. -/
def Value.passes (constants : ConstantTable) : Value → Nat
  | .conditional ⟨left, comparison, right, whenTrue, whenFalse, toAdd, toSubtract⟩ =>
    match Conditional.holds? ⟨left, comparison, right, whenTrue, whenFalse, toAdd, toSubtract⟩
      constants with
    | some true => whenTrue.passes constants + 1
    | some false => whenFalse.passes constants + 1
    | none => 0
  | .list items => passesItems constants items
  | .int _ => 0
  | .str _ => 0
  | .record _ => 0
termination_by structural v => v

/-- The number of passes that all items need. -/
def passesItems (constants : ConstantTable) : List Value → Nat
  | [] => 0
  | v :: vs => max (v.passes constants) (passesItems constants vs)
termination_by structural vs => vs

end

namespace Value

variable {constants : ConstantTable} {v : Value} {items : List Value} {e : Conditional}

theorem passes_of_holds? {holds : Bool} (h : e.holds? constants = some holds) :
    (Value.conditional e).passes constants = (e.branch holds).passes constants + 1 := by
  obtain ⟨left, comparison, right, whenTrue, whenFalse, toAdd, toSubtract⟩ := e
  rw [passes, h]
  cases holds with
  | true => rfl
  | false => rfl

theorem passes_of_holds?_none (h : e.holds? constants = none) :
    (Value.conditional e).passes constants = 0 := by
  obtain ⟨left, comparison, right, whenTrue, whenFalse, toAdd, toSubtract⟩ := e
  rw [passes, h]

theorem passes_of_toInt? {n : Int} (h : v.toInt? = some n) : v.passes constants = 0 := by
  cases v with
  | int | str => rfl
  | list | conditional | record => cases h

theorem passes_withAmounts : (e.withAmounts v).passes constants = v.passes constants := by
  rw [Conditional.withAmounts]
  split
  · next n hn => rw [passes_of_toInt? hn, passes]
  · rfl

/-- **Each pass takes one off.** -/
theorem passes_resolve (constants : ConstantTable) (v : Value) :
    (v.resolve constants).passes constants = v.passes constants - 1 := by
  induction v using list_induction with
  | int n => rfl
  | str s => rfl
  | record r => rfl
  | conditional e =>
    rw [resolve, Conditional.resolve?]
    cases hholds : e.holds? constants with
    | none => rw [Option.map_none, Option.getD_none, passes_of_holds?_none hholds]
    | some holds =>
      rw [Option.map_some, Option.getD_some, passes_withAmounts, passes_of_holds? hholds,
        Nat.add_sub_cancel]
  | list items ih =>
    rw [resolve, passes, passes]
    induction items with
    | nil => rfl
    | cons v vs ihs =>
      obtain ⟨hv, hvs⟩ := List.forall_mem_cons.1 ih
      rw [resolveItems, passesItems, passesItems, hv, ihs hvs]
      omega

theorem passesItems_eq_zero_iff :
    passesItems constants items = 0 ↔ ∀ v ∈ items, v.passes constants = 0 := by
  induction items with
  | nil => exact iff_of_true rfl fun _ hv => absurd hv List.not_mem_nil
  | cons v vs ih => rw [passesItems, Nat.max_eq_zero_iff, List.forall_mem_cons, ih]

/-- A value needs no pass if nothing in it can be decided. -/
theorem passes_eq_zero_iff : v.passes constants = 0 ↔ v.IsResolved constants := by
  induction v using list_induction with
  | int n => exact iff_of_true rfl fun _ he => nomatch he
  | str s => exact iff_of_true rfl fun _ he => nomatch he
  | record r => exact iff_of_true rfl fun _ he => nomatch he
  | conditional e =>
    rw [isResolved_conditional]
    cases hholds : e.holds? constants with
    | none => exact iff_of_true (passes_of_holds?_none hholds) rfl
    | some holds =>
      rw [passes_of_holds? hholds]
      exact iff_of_false (Nat.succ_ne_zero _) (Option.some_ne_none holds)
  | list items ih =>
    rw [isResolved_list, passes, passesItems_eq_zero_iff]
    exact forall₂_congr ih

/-- A pass changes a value exactly if something in it can be decided. -/
theorem resolve_eq_self_iff : v.resolve constants = v ↔ v.IsResolved constants := by
  constructor
  · intro h
    have hpasses := passes_resolve constants v
    rw [h] at hpasses
    exact passes_eq_zero_iff.1 (by omega)
  · intro h
    induction v using list_induction with
    | int n => rfl
    | str s => rfl
    | record r => rfl
    | conditional e =>
      rw [resolve, Conditional.resolve?, isResolved_conditional.1 h, Option.map_none,
        Option.getD_none]
    | list items ih =>
      have hitems : items.map (Value.resolve constants) = items.map id :=
        List.map_congr_left fun v hv => ih v hv (isResolved_list.1 h v hv)
      rw [resolve, resolveItems_eq_map, hitems, List.map_id]

/-- The passes that are left after some. -/
theorem passes_iterate (constants : ConstantTable) (n : Nat) (v : Value) :
    ((Value.resolve constants)^[n] v).passes constants = v.passes constants - n := by
  induction n generalizing v with
  | zero => rfl
  | succ n ih => rw [Function.iterate_succ_apply, ih, passes_resolve, Nat.sub_sub, Nat.add_comm 1]

/-- A pass leaves nothing to decide if no decided conditional chooses a branch with something to
decide. -/
theorem isResolved_resolve_iff :
    (v.resolve constants).IsResolved constants ↔
      ∀ e holds, v.Meets e → e.holds? constants = some holds →
        (e.branch holds).IsResolved constants := by
  induction v using list_induction with
  | int n => exact iff_of_true (fun _ he => nomatch he) fun _ _ he => nomatch he
  | str s => exact iff_of_true (fun _ he => nomatch he) fun _ _ he => nomatch he
  | record r => exact iff_of_true (fun _ he => nomatch he) fun _ _ he => nomatch he
  | conditional e =>
    rw [resolve, Conditional.resolve?]
    cases hholds : e.holds? constants with
    | none =>
      rw [Option.map_none, Option.getD_none]
      refine iff_of_true (isResolved_conditional.2 hholds) ?_
      rintro _ holds ⟨⟩ hsome
      rw [hholds] at hsome
      cases hsome
    | some chosen =>
      rw [Option.map_some, Option.getD_some, isResolved_withAmounts]
      constructor
      · rintro h _ holds ⟨⟩ hsome
        rw [hholds] at hsome
        rwa [← Option.some.inj hsome]
      · exact fun h => h e chosen (.self e) hholds
  | list items ih =>
    rw [resolve, resolveItems_eq_map, isResolved_list, List.forall_mem_map, forall₂_congr ih]
    constructor
    · rintro h e holds (_ | ⟨hv, he⟩)
      exact h _ hv e holds he
    · exact fun h v hv e holds he => h e holds (.item hv he)

/-- **When a second pass changes nothing.**  It changes nothing exactly if no conditional that the
first pass decides chooses a branch with a further one to decide; and after `n` passes nothing is
left to decide exactly if no more are needed. -/
theorem resolve_resolve_eq_iff (constants : ConstantTable) (v : Value) :
    ((v.resolve constants).resolve constants = v.resolve constants ↔
      ∀ e holds, v.Meets e → e.holds? constants = some holds →
        (e.branch holds).IsResolved constants) ∧
    ∀ n, ((Value.resolve constants)^[n] v).IsResolved constants ↔ v.passes constants ≤ n := by
  refine ⟨resolve_eq_self_iff.trans isResolved_resolve_iff, fun n => ?_⟩
  rw [← passes_eq_zero_iff, passes_iterate, Nat.sub_eq_zero_iff_le]

/-- A conditional that chooses another one. -/
def nestedChoice : Value :=
  .conditional ⟨"GEN_3", .ge, "GEN_2",
    .conditional ⟨"GEN_5", .lt, "GEN_4", .int 1, .int 2, 0, 0⟩, .int 3, 0, 0⟩

/-- A second pass decides the chosen one. -/
theorem resolve_resolve_nestedChoice :
    nestedChoice.resolve generationConstants =
      .conditional ⟨"GEN_5", .lt, "GEN_4", .int 1, .int 2, 0, 0⟩ ∧
    (nestedChoice.resolve generationConstants).resolve generationConstants = .int 2 ∧
    (nestedChoice.resolve generationConstants).resolve generationConstants ≠
      nestedChoice.resolve generationConstants := by
  decide

end Value

end TableSync
