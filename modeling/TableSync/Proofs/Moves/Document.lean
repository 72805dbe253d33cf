import TableSync.Category.Moves
import TableSync.Proofs.Data.Collect

/-!
# The ids of moves in their document

The document of moves is made from three sources: the header with the ids, the descriptions, and the
battle data.  The ids of moves are fixed by the header alone, as descriptions and battle data change
other fields.

* `lastText_eq` says that the last text under a name is that of the last pair with the name, which
  is how a later definition takes the place of an earlier one.
* `idOf?` is the id of a move.  `idOf?_modifyRecord?` says that another field may change, and from
  it `idOf?_read` and `idOf?_attach` that descriptions and battle data keep the ids, each by
  induction on the lines or pairs that are gone over.
* `getPath?_id` and `getPath?_constant` look into the whole document: a move has the value of its
  last definition as its id, and a constant has the value of its last definition, too.

What the value of a definition is, where it names others, is the business of the module on names.
-/

set_option autoImplicit false

namespace TableSync.Moves

/-! ## Names -/

/-- The last text under a name is that of the last pair with the name. -/
theorem lastText_eq (name : String) (pairs : List (String × Text)) :
    lastText name pairs = (pairs.filter fun p => p.1 = name).getLast?.map Prod.snd := by
  rw [lastText]
  induction pairs using List.reverseRecOn with
  | nil => rfl
  | append_singleton pairs p ih =>
    obtain ⟨n, t⟩ := p
    rw [List.reverse_append, List.reverse_singleton, List.singleton_append, List.lookup_cons,
      getLast?_filter_concat]
    by_cases hname : n = name
    · rw [if_pos (decide_eq_true hname), hname, beq_self_eq_true]
      rfl
    · have hne : (name == n) = false := beq_false_of_ne (Ne.symm hname)
      rw [if_neg (by simpa using hname), hne, ih]

theorem mem_of_lastText {name : String} {text : Text} {pairs : List (String × Text)}
    (h : lastText name pairs = some text) : (name, text) ∈ pairs := by
  rw [lastText_eq, Option.map_eq_some_iff] at h
  obtain ⟨⟨n, t⟩, hlast, rfl⟩ := h
  have hmem := List.mem_filter.1 (List.mem_of_getLast? hlast)
  obtain rfl : n = name := of_decide_eq_true hmem.2
  exact hmem.1

/-! ## The id of a move -/

/-- The id of a move. -/
def idOf? (moves : Record) (name : String) : Option Value := moves.getPath? [name, "id"]

/-- Another field of a move may change. -/
theorem idOf?_modifyRecord? {moves moves' : Record} {key field : String} {v : Value}
    (hfield : field ≠ "id") (h : moves.modifyRecord? key (fun r => r.insert field v) = some moves')
    (name : String) : idOf? moves' name = idOf? moves name := by
  rw [Record.modifyRecord?, Option.map_eq_some_iff] at h
  obtain ⟨inner, hinner, rfl⟩ := h
  show ((moves.insert key _).record? name).bind (fun r => r.get? "id") =
    (moves.record? name).bind fun r => r.get? "id"
  by_cases hkey : key = name
  · rw [← hkey, Record.record?_insert_self, hinner, Option.bind_some, Option.bind_some,
      Record.get?_insert_of_ne hfield]
  · rw [Record.record?_insert_of_ne hkey]

theorem idOf?_step (d : Descriptions) (line : Text) (name : String) :
    idOf? (d.step line).moves name = idOf? d.moves name := by
  rw [Descriptions.step]
  split
  · dsimp only
    split <;> rfl
  · split
    · dsimp only
      split <;> rfl
    · split
      · rfl
      · split
        · next hmoves => exact idOf?_modifyRecord? (by decide) hmoves name
        · rfl

theorem idOf?_finish (d : Descriptions) (name : String) :
    idOf? d.finish.moves name = idOf? d.moves name := by
  rw [Descriptions.finish]
  split <;> rfl

/-- Descriptions keep the ids. -/
theorem idOf?_read (text : Text) (moves : Record) (name : String) :
    idOf? (Descriptions.read text moves).moves name = idOf? moves name := by
  have hfoldl : ∀ (ls : List Text) (d : Descriptions),
      idOf? (ls.foldl Descriptions.step d).moves name = idOf? d.moves name := by
    intro ls
    induction ls with
    | nil => exact fun d => rfl
    | cons line ls ih => exact fun d => (ih (d.step line)).trans (idOf?_step d line name)
  rw [Descriptions.read, idOf?_finish, hfoldl]

/-- Battle data keep the ids. -/
theorem idOf?_attach (moves : Record) (entities : List Entity) (name : String) :
    idOf? (entities.foldl attach moves) name = idOf? moves name := by
  induction entities generalizing moves with
  | nil => rfl
  | cons e entities ih =>
    rw [List.foldl_cons, ih, attach]
    cases hmoves : moves.modifyRecord? e.id fun r => r.insert "battle_data" (.record e.fields) with
    | none => rfl
    | some moves' => exact idOf?_modifyRecord? (by decide) hmoves name

theorem idOf?_moveRecords {names : Names} {name : String} {text : Text}
    (h : lastText name names.moves = some text) :
    idOf? names.moveRecords name = some (names.value text) := by
  rw [lastText_eq, Option.map_eq_some_iff] at h
  obtain ⟨⟨n, t⟩, hlast, rfl⟩ := h
  have hget : names.moveRecords.get? name = some (entry names n t) := by
    refine (Record.get?_ofFields Prod.fst (fun p => entry names p.1 p.2) names.moves name).trans ?_
    rw [hlast]
    rfl
  show ((names.moveRecords.get? name).bind Value.record?).bind (fun r => r.get? "id") = _
  rw [hget]
  rfl

theorem get?_constantRecords {names : Names} {name : String} {text : Text}
    (h : lastText name names.constants = some text) :
    names.constantRecords.get? name = some (names.value text) := by
  rw [lastText_eq, Option.map_eq_some_iff] at h
  obtain ⟨p, hlast, rfl⟩ := h
  refine (Record.get?_ofFields Prod.fst (fun p => names.value p.2) names.constants name).trans ?_
  rw [hlast, Option.map_some]

/-! ## The document -/

variable {ids : Text} {name : String} {text : Text}

/-- The id of a move is the value of its last definition. -/
theorem getPath?_id (h : lastText name (Names.read ids).moves = some text)
    (descriptions battle : Text) :
    (parse ids descriptions battle).records.getPath? ["moves", name, "id"] =
      some ((Names.read ids).value text) := by
  show idOf? (List.foldl attach _ _) name = _
  rw [idOf?_attach, idOf?_read, idOf?_moveRecords h]

/-- A constant has the value of its last definition. -/
theorem getPath?_constant (h : lastText name (Names.read ids).constants = some text)
    (descriptions battle : Text) :
    (parse ids descriptions battle).records.getPath? ["constants", name] =
      some ((Names.read ids).value text) :=
  get?_constantRecords h

end TableSync.Moves
