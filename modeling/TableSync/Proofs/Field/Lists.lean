import TableSync.Proofs.Field.Parsers
import TableSync.Proofs.Text.TopLevel

/-!
# Lists and evolutions, written and read back

A list in braces is split at its commas, and a list of evolutions is taken apart at its braces.
Both are read as what they were written for, whatever their texts hold besides these marks.  An
evolution is a record, and its text has no names for the fields: how many parts it has decides what
the fields are, so an evolution with two arguments would be read as one with a parameter and a
target.

* `braceList?_pieces` is about items that hold quotes and brackets, and commas inside them.
* `Value.IsArgument` and `IsMethod` say what the parts of an evolution can be: trimmed texts without
  commas and braces, of which a method is not the one that ends the list.
* `IsEvolutionRecord` says which records are evolutions, and `evolutionParts` are the texts of one:
  `IsEvolutionRecord.evolutionGroup_eq` writes them as a group, and
  `IsEvolutionRecord.evolutionOfParts?_eq` reads the record from them, by how many they are.
* `Emit.evolutions_parts` and `evolutions?_parts` are about lists of evolutions.
* **`read_emittedLists`** puts both kinds of lists together.
-/

set_option autoImplicit false

namespace TableSync

/-! ## Lists in braces -/

/-- **Pieces in braces are read as the items.** -/
theorem braceList?_pieces {items : List Text} (htrim : ∀ t ∈ items, IsTrimmed t)
    (hne : ∀ t ∈ items, t ≠ []) (h : ∀ t ∈ items, IsPiece [','] t) :
    braceList? (Emit.braceList items) = some (.list (items.map Value.scalar)) :=
  braceList?_braceList htrim hne (fun t ht => (h t ht).isClosed)
    fun t ht r => (h t ht).passes.before_any r

/-! ## Evolutions

The texts of an evolution stand in the middle between writing and reading.  Each direction is one
lemma about them, with a case for each kind of record, and neither looks at the other. -/

/-- An argument of an evolution: an integer of 64 bits, or a part that writes no integer. -/
def Value.IsArgument : Value → Prop
  | .int n => IsInt64 n
  | .str s => IsPart s.toList ∧ readInt? s.toList = none
  | _ => False

/-- A part that can name a method. -/
structure IsMethod (t : Text) : Prop where
  /-- It can stand between commas. -/
  part : IsPart t
  /-- It is not empty, as a group without a method is no evolution. -/
  nonempty : t ≠ []
  /-- It is not the method that ends the list. -/
  notEnd : t ≠ evolutionsEnd

instance (v : Value) : Decidable v.IsArgument :=
  match v with
  | .int n => inferInstanceAs (Decidable (IsInt64 n))
  | .str s => inferInstanceAs (Decidable (IsPart s.toList ∧ readInt? s.toList = none))
  | .list _ | .conditional _ | .record _ => inferInstanceAs (Decidable False)

theorem isMethod_iff {t : Text} : IsMethod t ↔ IsPart t ∧ t ≠ [] ∧ t ≠ evolutionsEnd :=
  ⟨fun h => ⟨h.part, h.nonempty, h.notEnd⟩, fun h => ⟨h.1, h.2.1, h.2.2⟩⟩

instance (t : Text) : Decidable (IsMethod t) := decidable_of_iff _ isMethod_iff.symm

/-- An evolution with a parameter and a target, or with any number of arguments but two. -/
inductive IsEvolutionRecord : Record → Prop
  | target {method target : String} {param : Value} : IsMethod method.toList → param.IsArgument →
      IsPart target.toList → IsEvolutionRecord
        ⟨[("method", .str method), ("param", param), ("targetSpecies", .str target)]⟩
  | args {method : String} {args : List Value} : IsMethod method.toList →
      (∀ v ∈ args, v.IsArgument) → args.length ≠ 2 →
      IsEvolutionRecord ⟨[("method", .str method), ("args", .list args)]⟩

/-- The text of a scalar, or those of the items of a list. -/
def Value.partTexts : Value → List Text
  | .list items => items.map Value.branchText
  | v => [v.branchText]

/-- The texts of an evolution, field by field. -/
def evolutionParts (e : Record) : List Text := e.fields.flatMap fun f => f.2.partTexts

namespace Value.IsArgument

variable {v : Value}

theorem isBare (h : v.IsArgument) : v.IsBare := by
  cases v with
  | int n => exact h
  | str s => exact ⟨h.1.trimmed, h.2⟩
  | _ => exact h.elim

theorem isPart (h : v.IsArgument) : IsPart v.branchText := by
  cases v with
  | int n => exact (isToken_showInt n).isPart
  | str s => exact h.1
  | _ => exact h.elim

theorem partTexts_eq (h : v.IsArgument) : v.partTexts = [v.branchText] := by
  cases v with
  | list items => exact h.elim
  | _ => rfl

end Value.IsArgument

theorem Value.IsScalar.isArgument {v : Value} (h : v.IsScalar) : v.IsArgument := by
  cases v with
  | int n => exact h
  | str s => exact ⟨h.1.isToken.isPart, h.2⟩
  | _ => exact h.elim

theorem IsWord.isMethod {t : Text} (h : IsWord t) (hend : t ≠ evolutionsEnd) : IsMethod t :=
  ⟨h.isToken.isPart, h.1, hend⟩

namespace IsEvolutionRecord

variable {e : Record}

theorem evolutionParts_target {method target : String} {param : Value} (h : param.IsArgument) :
    evolutionParts ⟨[("method", .str method), ("param", param), ("targetSpecies", .str target)]⟩ =
      [method.toList, param.branchText, target.toList] := by
  simp only [evolutionParts, List.flatMap_cons, h.partTexts_eq]
  rfl

theorem evolutionParts_args (method : String) (args : List Value) :
    evolutionParts ⟨[("method", .str method), ("args", .list args)]⟩ =
      method.toList :: args.map Value.branchText := by
  simp only [evolutionParts, List.flatMap_cons, List.flatMap_nil, List.append_nil]
  rfl

theorem evolutionParts_ne_nil (h : IsEvolutionRecord e) : evolutionParts e ≠ [] := by
  cases h <;> exact List.cons_ne_nil _ _

theorem isPart (h : IsEvolutionRecord e) : ∀ t ∈ evolutionParts e, IsPart t := by
  cases h with
  | @target method target param hmethod hparam htarget =>
    rw [evolutionParts_target hparam]
    simp only [List.forall_mem_cons]
    exact ⟨hmethod.part, hparam.isPart, htarget, by simp⟩
  | @args method args hmethod hargs hlength =>
    rw [evolutionParts_args]
    simp only [List.forall_mem_cons, List.forall_mem_map]
    exact ⟨hmethod.part, fun v hv => (hargs v hv).isPart⟩

/-- **An evolution is written as the group of its texts.** -/
theorem evolutionGroup_eq (h : IsEvolutionRecord e) (entity field : String)
    (constants : ConstantTable) :
    Emit.evolutionGroup entity field constants e = .ok (braced (evolutionParts e)) := by
  cases h with
  | @target method target param hmethod hparam htarget =>
    have hvalue := hparam.isBare.value_eq entity field constants
    rw [evolutionParts_target hparam]
    simp only [Emit.evolutionGroup, Emit.evolutionPart, Record.get?, findField, Record.items?,
      String.reduceEq, if_true, if_false, Option.bind_none, hvalue, Emit.value]
    rfl
  | @args method args hmethod hargs hlength =>
    have hitems := items_bare (fun v hv => (hargs v hv).isBare) entity field constants
    rw [evolutionParts_args]
    simp only [Emit.evolutionGroup, Emit.evolutionPart, Record.get?, findField, Record.items?,
      String.reduceEq, if_true, if_false, Option.bind_some, Value.items?, hitems, Emit.value]
    rfl

/-- **The record is read from its texts**: as many as a parameter and a target make are those, and
any other number are the arguments. -/
theorem evolutionOfParts?_eq (h : IsEvolutionRecord e) :
    evolutionOfParts? (evolutionParts e) = some e := by
  have htext : ∀ s : String, Value.ofText s.toList = .str s := fun s => by
    rw [Value.ofText, String.ofList_toList]
  cases h with
  | @target method target param hmethod hparam htarget =>
    rw [evolutionParts_target hparam, evolutionOfParts?,
      if_neg (not_or.2 ⟨hmethod.nonempty, hmethod.notEnd⟩)]
    simp only [htext, hparam.isBare.scalar_branchText]
  | @args method args hmethod hargs hlength =>
    have hscalars : (args.map Value.branchText).map Value.scalar = args := by
      rw [List.map_map]
      exact (List.map_congr_left fun v hv => (hargs v hv).isBare.scalar_branchText).trans
        (List.map_id args)
    have hcount : (args.map Value.branchText).length ≠ 2 := by rwa [List.length_map]
    rw [evolutionParts_args, evolutionOfParts?,
      if_neg (not_or.2 ⟨hmethod.nonempty, hmethod.notEnd⟩), hscalars, htext]
    -- two arguments would be read as a parameter and a target
    intro parameter target heq
    exact hcount (by rw [heq]; rfl)

end IsEvolutionRecord

/-! ## Lists of evolutions -/

theorem evolutionGroups_parts {es : List Record} (h : ∀ e ∈ es, IsEvolutionRecord e)
    (entity field : String) (constants : ConstantTable) :
    Emit.evolutionGroups entity field constants (es.map .record) =
      .ok ((es.map evolutionParts).map braced) := by
  induction es with
  | nil => rfl
  | cons e es ih =>
    rw [List.map_cons, Emit.evolutionGroups,
      (h e List.mem_cons_self).evolutionGroup_eq entity field constants,
      ih fun f hf => h f (List.mem_cons_of_mem e hf)]
    rfl

/-- Evolutions are written as the groups of their texts. -/
theorem Emit.evolutions_parts {es : List Record} (hne : es ≠ [])
    (h : ∀ e ∈ es, IsEvolutionRecord e) (entity field : String) (constants : ConstantTable) :
    Emit.evolutions entity field constants (.list (es.map .record)) =
      .ok (evolutionsText (es.map evolutionParts)) := by
  have hgroups := evolutionGroups_parts h entity field constants
  obtain ⟨e, es, rfl⟩ := List.exists_cons_of_ne_nil hne
  rw [List.map_cons, Emit.evolutions, ← List.map_cons, hgroups]
  · show Except.ok _ = _
    rw [evolutionsText, ← List.append_assoc]
    rfl
  · simp

/-- Evolutions are read from the groups of their texts. -/
theorem evolutions?_parts {es : List Record} (h : ∀ e ∈ es, IsEvolutionRecord e) :
    evolutions? (evolutionsText (es.map evolutionParts)) = some (.list (es.map .record)) := by
  have hread : (es.map evolutionParts).filterMap (fun g => (evolutionOfParts? g).map Value.record) =
      es.map .record := by
    rw [List.filterMap_map, ← List.filterMap_eq_map]
    refine List.filterMap_congr fun e he => ?_
    rw [Function.comp_apply, (h e he).evolutionOfParts?_eq]
    rfl
  rw [evolutions?_evolutionsText, hread]
  · intro g hg
    obtain ⟨e, he, rfl⟩ := List.mem_map.1 hg
    exact (h e he).evolutionParts_ne_nil
  · intro g hg
    obtain ⟨e, he, rfl⟩ := List.mem_map.1 hg
    exact (h e he).isPart

/-- **Lists are read as what they were written for.**  A list in braces is read as its items, where
every item is trimmed, not empty, and a piece between commas.  A list of evolutions is read as the
same records, in the same order and with the same keys. -/
theorem read_emittedLists :
    (∀ items : List Text, (∀ t ∈ items, IsTrimmed t ∧ t ≠ [] ∧ IsPiece [','] t) →
      braceList? (Emit.braceList items) = some (.list (items.map Value.scalar))) ∧
    ∀ (entity field : String) (constants : ConstantTable) (es : List Record),
      (∀ e ∈ es, IsEvolutionRecord e) → ∃ text,
        Emit.evolutions entity field constants (.list (es.map .record)) = .ok text ∧
          evolutions? text = some (.list (es.map .record)) := by
  refine ⟨fun items h => ?_, fun entity field constants es h => ?_⟩
  · exact braceList?_pieces (fun t ht => (h t ht).1) (fun t ht => (h t ht).2.1)
      fun t ht => (h t ht).2.2
  · by_cases hes : es = []
    · -- without evolutions only the end of the list is written, and dropped again
      subst hes
      exact ⟨_, rfl, by decide⟩
    · exact ⟨_, Emit.evolutions_parts hes h entity field constants, evolutions?_parts h⟩

/-- Items with commas in braces, in quotes and in parentheses, and a numeral. -/
def sampleItems : List Text :=
  ["\x7b A, B \x7d".toList, "_(\"a, \\\"(b\")".toList, "f(1, [2, 3]) ? x : y".toList, "-7".toList]

/-- Evolutions of both kinds: with an integer, with empty texts, with a number as a target and one
beyond 64 bits as an argument, and with no, one and three arguments. -/
def sampleEvolutions : List Record :=
  [⟨[("method", .str "EVO_LEVEL"), ("param", .int (-16)), ("targetSpecies", .str "")]⟩,
    ⟨[("method", .str "EVO (day)"), ("param", .str ""), ("targetSpecies", .str "16")]⟩,
    ⟨[("method", .str "EVO_NONE"), ("args", .list [])]⟩,
    ⟨[("method", .str "EVO_TRADE"), ("args", .list [.str ""])]⟩,
    ⟨[("method", .str "EVO_ITEM"), ("args", .list [.str "A\nB", .str "9223372036854775808", .int 1])]⟩]

theorem read_emittedLists_samples :
    (∀ t ∈ sampleItems, IsTrimmed t ∧ t ≠ [] ∧ IsPiece [','] t) ∧
      (∀ e ∈ sampleEvolutions, IsEvolutionRecord e) ∧
      braceList? (Emit.braceList sampleItems) = some (.list (sampleItems.map Value.scalar)) ∧
      ∃ text, Emit.evolutions "SPECIES_A" "evolutions" [] (.list (sampleEvolutions.map .record)) =
          .ok text ∧
        evolutions? text = some (.list (sampleEvolutions.map .record)) := by
  have hitems : ∀ t ∈ sampleItems, IsTrimmed t ∧ t ≠ [] ∧ IsPiece [','] t := by decide +kernel
  have hevolutions : ∀ e ∈ sampleEvolutions, IsEvolutionRecord e := by
    simp only [sampleEvolutions, List.forall_mem_cons]
    exact ⟨.target (by decide) (by decide) (by decide), .target (by decide) (by decide) (by decide),
      .args (by decide) (by simp) (by decide), .args (by decide) (by decide) (by decide),
      .args (by decide) (by decide) (by decide), by simp⟩
  exact ⟨hitems, hevolutions, read_emittedLists.1 sampleItems hitems,
    read_emittedLists.2 "SPECIES_A" "evolutions" [] sampleEvolutions hevolutions⟩

end TableSync
