import TableSync.Proofs.Data.Document

/-!
# What is read comes from its parts

The values inside a value that is read are those that its items and members are read as; what is
true of these is true of them.  The readers of lists, objects and conditionals work in the option
monad, where a failure anywhere is a failure of the whole, so a value that has been read is taken
apart here once, and the properties of values are carried over by these lemmas.

* `forall_mem_of_allValues?` and `forall_mem_of_allFields?` are about lists and records: if every
  item that can be read has a property as a value, every value of the list has it.
* `branches_of_conditionalOfItems?` and `branches_of_conditionalOfMembers?` are about conditionals,
  which may be written as a list of their parts or as an object with keys; both go through
  `branches_of_conditionalOfParts?`.
* `Record.members?` are the members of the object that a text writes, and `Record.parse?_eq` says
  that a record is collected from them.  A member that is repeated is put twice, so the record has
  the later value in the earlier place.

No property is named in this module; `Value.IsBuilt` is the one that it is used for.
-/

set_option autoImplicit false

namespace TableSync

variable {p : Value → Prop} {parts : List ReadMember} {members : List (String × ReadMember)}
  {e : Conditional}

/-! ## Lists and objects -/

theorem forall_mem_of_allValues? {vs : List Value} (hp : ∀ m ∈ parts, ∀ v, m.2 = some v → p v)
    (h : allValues? parts = some vs) : ∀ v ∈ vs, p v := by
  induction parts generalizing vs with
  | nil =>
    obtain rfl := Option.some.inj h
    exact fun v hv => absurd hv List.not_mem_nil
  | cons m parts ih =>
    obtain ⟨j, v?⟩ := m
    obtain ⟨hm, hparts⟩ := List.forall_mem_cons.1 hp
    simp only [allValues?, Option.bind_eq_bind, Option.bind_eq_some_iff] at h
    obtain ⟨v, hv, vs, hvs, h⟩ := h
    obtain rfl := Option.some.inj h
    exact List.forall_mem_cons.2 ⟨hm v hv, ih hparts hvs⟩

theorem forall_mem_of_allFields? {fs : List (String × Value)}
    (hp : ∀ m ∈ members, ∀ v, m.2.2 = some v → p v) (h : allFields? members = some fs) :
    ∀ f ∈ fs, p f.2 := by
  induction members generalizing fs with
  | nil =>
    obtain rfl := Option.some.inj h
    exact fun f hf => absurd hf List.not_mem_nil
  | cons m members ih =>
    obtain ⟨k, j, v?⟩ := m
    obtain ⟨hm, hmembers⟩ := List.forall_mem_cons.1 hp
    simp only [allFields?, Option.bind_eq_bind, Option.bind_eq_some_iff] at h
    obtain ⟨v, hv, fs, hfs, h⟩ := h
    obtain rfl := Option.some.inj h
    exact List.forall_mem_cons.2 ⟨hm v hv, ih hmembers hfs⟩

/-! ## Conditionals -/

/-- The two branches of a conditional are among its parts. -/
theorem branches_of_conditionalOfParts? {l c r t f : ReadMember} {a s : Option ReadMember}
    (h : conditionalOfParts? l c r t f a s = some e) :
    t.2 = some e.whenTrue ∧ f.2 = some e.whenFalse := by
  rw [conditionalOfParts?] at h
  split at h
  · simp only [Option.bind_eq_bind, Option.bind_eq_some_iff] at h
    obtain ⟨_, _, v, hv, w, hw, _, _, _, _, h⟩ := h
    obtain rfl := Option.some.inj h
    exact ⟨hv, hw⟩
  · cases h

theorem branches_of_conditionalOfItems? (hp : ∀ m ∈ parts, ∀ v, m.2 = some v → p v)
    (h : conditionalOfItems? parts = some e) : p e.whenTrue ∧ p e.whenFalse := by
  obtain ⟨l, c, r, t, f, a, s, rest, rfl, hparts⟩ : ∃ l c r t f a s rest,
      parts = l :: c :: r :: t :: f :: rest ∧ conditionalOfParts? l c r t f a s = some e := by
    unfold conditionalOfItems? at h
    split at h
    · exact ⟨_, _, _, _, _, _, _, _, rfl, h⟩
    · exact ⟨_, _, _, _, _, _, _, _, rfl, h⟩
    · exact ⟨_, _, _, _, _, _, _, _, rfl, h⟩
    · cases h
  obtain ⟨ht, hf⟩ := branches_of_conditionalOfParts? hparts
  exact ⟨hp t (by simp) _ ht, hp f (by simp) _ hf⟩

theorem branches_of_conditionalOfMembers? (hp : ∀ m ∈ members, ∀ v, m.2.2 = some v → p v)
    (h : conditionalOfMembers? members = some e) : p e.whenTrue ∧ p e.whenFalse := by
  have hpart : ∀ {key : String} {m : ReadMember}, members.lookup key = some m →
      ∀ v, m.2 = some v → p v := by
    intro key m hm
    obtain ⟨a, b, rfl, -⟩ := List.lookup_eq_some_iff.1 hm
    exact hp (key, m) (List.mem_append_right a List.mem_cons_self)
  simp only [conditionalOfMembers?, Option.bind_eq_bind, Option.bind_eq_some_iff] at h
  obtain ⟨_, -, l, -, c, -, r, -, t, ht, f, hf, h⟩ := h
  obtain ⟨hwhenTrue, hwhenFalse⟩ := branches_of_conditionalOfParts? h
  exact ⟨hpart ht _ hwhenTrue, hpart hf _ hwhenFalse⟩

/-! ## Records -/

namespace Record

/-- The members of the object that a text writes. -/
def members? (text : Text) : Option (List (String × Value)) :=
  match Json.parse? text with
  | some (.obj members) => allFields? (readMembers members)
  | _ => none

theorem parse?_eq (text : Text) : parse? text = (members? text).map ofFields := by
  rw [parse?, members?]
  split
  · next members hmembers =>
    rw [hmembers]
    rfl
  · next hother =>
    cases hjson : Json.parse? text with
    | none => rfl
    | some j =>
      cases j with
      | obj members => exact absurd hjson (hother members)
      | _ => rfl

end Record

end TableSync
