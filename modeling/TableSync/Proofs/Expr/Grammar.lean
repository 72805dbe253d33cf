import TableSync.Expr.Fold

/-!
# The grammar of literal expressions

The functions of `Fold` read a grammar with a bound on the depth of their calls.  `Fold.Reads` is
the grammar by itself: which value a part of it gives to the start of a list of tokens.  All that is
said of folding further on is said of this relation, and the bound is not mentioned any more.

* `Fold.Part` has one entry for each function.  The three kinds of chains of operators are one
  function with the operators as a parameter, so they are one entry with a `Fold.Level`; the
  continuation of a chain has the value so far in its entry.
* `Fold.read_atom_eq_some_iff` and the lemmas like it say what each function reads in terms of the
  functions that it calls.  They are the only places where the functions are unfolded.
* `Fold.reads_of_read` says that what they read is in the grammar, by induction on the bound.
* `Fold.Reads.read_eq` says that what is in the grammar is read, given a bound that `Fold.evaluate?`
  always gives (`Fold.evaluate?_eq_some_iff`).  A part makes a fixed number of calls before it takes
  a token (`Fold.Part.depth`), so the number of tokens bounds the depth.
* `Fold.Reads.det` says that a part gives one value to a list of tokens: it follows from the
  functions, which give one answer.
-/

set_option autoImplicit false

namespace TableSync.Fold

/-! ## The parts of the grammar -/

/-- The three kinds of chains of operators that are read from the left. -/
inductive Level
  | term
  | additive
  | logic

/-- The parts of the grammar; `tail` continues a chain of which a value has been read. -/
inductive Part
  | atom
  | chain (l : Level)
  | tail (l : Level) (lhs : Int)
  | comparison
  | ternary

/-- What a token does with two integers in a chain, if it is one of its operators. -/
def Level.step? : Level → Token → Option (Int → Int → Option Int)
  | term, .star => some fun a b => int64? (a * b)
  | term, .slash => some quotient?
  | additive, .plus => some fun a b => int64? (a + b)
  | additive, .minus => some fun a b => int64? (a - b)
  | logic, .and => some fun a b => some (ofBool (a != 0 && b != 0))
  | logic, .or => some fun a b => some (ofBool (a != 0 || b != 0))
  | _, _ => none

/-- The operands of a chain. -/
def Level.operand : Level → Part
  | term => .atom
  | additive => .chain .term
  | logic => .comparison

/-- `Reads p ts v rest`: the part `p` gives the value `v` to the tokens `ts` up to `rest`. -/
inductive Reads : Part → List Token → Int → List Token → Prop
  | int (n : Int) (rest : List Token) : Reads .atom (.int n :: rest) n rest
  | group {ts rest : List Token} {v : Int} (h : Reads .ternary ts v (.closing :: rest)) :
      Reads .atom (.opening :: ts) v rest
  | negative {ts rest : List Token} {v : Int} (h : Reads .atom ts v rest) (hv : IsInt64 (-v)) :
      Reads .atom (.minus :: ts) (-v) rest
  | chain {l : Level} {ts ts' rest : List Token} {lhs v : Int} (h : Reads l.operand ts lhs ts')
      (htail : Reads (.tail l lhs) ts' v rest) : Reads (.chain l) ts v rest
  | step {l : Level} {t : Token} {f : Int → Int → Option Int} {ts ts' rest : List Token}
      {lhs rhs w v : Int} (ht : l.step? t = some f) (h : Reads l.operand ts rhs ts')
      (hw : f lhs rhs = some w) (htail : Reads (.tail l w) ts' v rest) :
      Reads (.tail l lhs) (t :: ts) v rest
  | done {l : Level} {rest : List Token} {lhs : Int} (h : ∀ t ∈ rest.head?, l.step? t = none) :
      Reads (.tail l lhs) rest lhs rest
  | compare {t : Token} {holds : Int → Int → Bool} {ts ts' rest : List Token} {lhs rhs : Int}
      (hl : Reads (.chain .additive) ts lhs (t :: ts')) (ht : comparison? t = some holds)
      (hr : Reads (.chain .additive) ts' rhs rest) :
      Reads .comparison ts (ofBool (holds lhs rhs)) rest
  | single {ts rest : List Token} {v : Int} (h : Reads (.chain .additive) ts v rest)
      (hrest : ∀ t ∈ rest.head?, comparison? t = none) : Reads .comparison ts v rest
  | choice {ts ts' ts'' rest : List Token} {c t f : Int}
      (hc : Reads (.chain .logic) ts c (.question :: ts'))
      (ht : Reads .ternary ts' t (.colon :: ts'')) (hf : Reads .ternary ts'' f rest) :
      Reads .ternary ts (if c ≠ 0 then t else f) rest
  | plain {ts rest : List Token} {v : Int} (h : Reads (.chain .logic) ts v rest)
      (hrest : rest.head? ≠ some .question) : Reads .ternary ts v rest

/-! ## The functions read the grammar

A function without calls left reads nothing.  Otherwise its answer is that of the functions that it
calls with one call less, and the two together make an induction on the number of calls. -/

/-- The function that reads a part. -/
def read : Part → Nat → List Token → Reading
  | .atom, n, ts => atom n ts
  | .chain .term, n, ts => term n ts
  | .chain .additive, n, ts => additive n ts
  | .chain .logic, n, ts => logic n ts
  | .tail .term lhs, n, ts => termTail n lhs ts
  | .tail .additive lhs, n, ts => additiveTail n lhs ts
  | .tail .logic lhs, n, ts => logicTail n lhs ts
  | .comparison, n, ts => comparison n ts
  | .ternary, n, ts => ternary n ts

theorem read_zero (p : Part) (ts : List Token) : read p 0 ts = none := by
  rcases p with _ | l | ⟨l, lhs⟩ | _ | _ <;> try cases l
  all_goals simp [read, atom, term, additive, logic, termTail, additiveTail, logicTail, comparison,
    ternary]

theorem read_chain (l : Level) (n : Nat) (ts : List Token) :
    read (.chain l) (n + 1) ts =
      (read l.operand n ts).bind fun (lhs, ts) => read (.tail l lhs) n ts := by
  cases l <;> simp only [read, Level.operand, term, additive, logic] <;> split <;> simp_all

theorem read_step {l : Level} {t : Token} {f : Int → Int → Option Int} (ht : l.step? t = some f)
    (lhs : Int) (n : Nat) (ts : List Token) :
    read (.tail l lhs) (n + 1) (t :: ts) = (read l.operand n ts).bind fun (rhs, ts) =>
      (f lhs rhs).bind fun w => read (.tail l w) n ts := by
  cases l <;> cases t <;> simp only [Level.step?, reduceCtorEq, Option.some.injEq] at ht
  all_goals
    subst ht
    simp only [read, Level.operand, termTail, additiveTail, logicTail]
    split <;> simp_all
  all_goals split <;> simp_all

theorem read_done {l : Level} {ts : List Token} (h : ∀ t ∈ ts.head?, l.step? t = none)
    (lhs : Int) (n : Nat) : read (.tail l lhs) (n + 1) ts = some (lhs, ts) := by
  cases ts with
  | nil => cases l <;> rfl
  | cons t ts =>
    have ht := h t rfl
    cases l <;> cases t <;> first | rfl | exact absurd ht (by simp [Level.step?])

section

variable {n : Nat} {ts rest : List Token} {v : Int}

theorem read_atom_eq_some_iff :
    read .atom (n + 1) ts = some (v, rest) ↔
      ts = .int v :: rest ∨
      (∃ ts', ts = .opening :: ts' ∧ read .ternary n ts' = some (v, .closing :: rest)) ∨
      ∃ ts' u, ts = .minus :: ts' ∧ read .atom n ts' = some (u, rest) ∧ IsInt64 (-u) ∧ -u = v := by
  cases ts with
  | nil => simp [read, atom]
  | cons t ts =>
    cases t with
    | int m => simp [read, atom]
    | opening =>
      suffices h : read .atom (n + 1) (.opening :: ts) = some (v, rest) ↔
          read .ternary n ts = some (v, .closing :: rest) by simpa using h
      simp only [read, atom]
      split
      · rename_i u ts' hternary
        simp [hternary]
      · rename_i hother
        exact iff_of_false (by simp) (hother v rest)
    | minus =>
      suffices h : read .atom (n + 1) (.minus :: ts) = some (v, rest) ↔
          ∃ u, read .atom n ts = some (u, rest) ∧ IsInt64 (-u) ∧ -u = v by simpa using h
      simp only [read, atom]
      cases atom n ts with
      | none => simp
      | some r =>
        obtain ⟨u, ts'⟩ := r
        simp only [Option.map_eq_some_iff, int64?_eq_some_iff, Option.some.injEq, Prod.mk.injEq]
        constructor
        · rintro ⟨_, ⟨rfl, hint⟩, rfl, rfl⟩
          exact ⟨u, ⟨rfl, rfl⟩, hint, rfl⟩
        · rintro ⟨_, ⟨rfl, rfl⟩, hint, rfl⟩
          exact ⟨-u, ⟨rfl, hint⟩, rfl, rfl⟩
    | _ => simp [read, atom]

theorem read_chain_eq_some_iff {l : Level} :
    read (.chain l) (n + 1) ts = some (v, rest) ↔
      ∃ lhs ts', read l.operand n ts = some (lhs, ts') ∧
        read (.tail l lhs) n ts' = some (v, rest) := by
  rw [read_chain, Option.bind_eq_some_iff, Prod.exists]

/-- A chain goes on with one of its operators, or ends where there is none. -/
theorem read_tail_eq_some_iff {l : Level} {lhs : Int} :
    read (.tail l lhs) (n + 1) ts = some (v, rest) ↔
      (∃ t f ts' rhs ts'' w, ts = t :: ts' ∧ l.step? t = some f ∧
        read l.operand n ts' = some (rhs, ts'') ∧ f lhs rhs = some w ∧
        read (.tail l w) n ts'' = some (v, rest)) ∨
      (∀ t ∈ ts.head?, l.step? t = none) ∧ lhs = v ∧ ts = rest := by
  constructor
  · intro h
    by_cases hnone : ∀ t ∈ ts.head?, l.step? t = none
    · rw [read_done hnone] at h
      exact .inr ⟨hnone, by simpa using h⟩
    · obtain ⟨t, hhead, hstep⟩ : ∃ t, ts.head? = some t ∧ l.step? t ≠ none := by
        simpa using hnone
      obtain ⟨ts', rfl⟩ := List.head?_eq_some_iff.1 hhead
      obtain ⟨f, hf⟩ := Option.ne_none_iff_exists'.1 hstep
      rw [read_step hf] at h
      obtain ⟨⟨rhs, ts''⟩, hoperand, h⟩ := Option.bind_eq_some_iff.1 h
      obtain ⟨w, hw, htail⟩ := Option.bind_eq_some_iff.1 h
      exact .inl ⟨t, f, ts', rhs, ts'', w, rfl, hf, hoperand, hw, htail⟩
  · rintro (⟨t, f, ts', rhs, ts'', w, rfl, hf, hoperand, hw, htail⟩ | ⟨hnone, rfl, rfl⟩)
    · simp only [read_step hf, hoperand, Option.bind_some, hw, htail]
    · exact read_done hnone lhs n

theorem read_comparison_eq_some_iff :
    read .comparison (n + 1) ts = some (v, rest) ↔
      (∃ lhs t ts' holds rhs, read (.chain .additive) n ts = some (lhs, t :: ts') ∧
        comparison? t = some holds ∧ read (.chain .additive) n ts' = some (rhs, rest) ∧
        ofBool (holds lhs rhs) = v) ∨
      read (.chain .additive) n ts = some (v, rest) ∧ ∀ t ∈ rest.head?, comparison? t = none := by
  simp only [read, comparison]
  constructor
  · intro h
    split at h
    · rename_i lhs t ts' hl
      split at h
      · rename_i holds ht
        split at h
        · rename_i rhs ts'' hr
          obtain ⟨hv, rfl⟩ : ofBool (holds lhs rhs) = v ∧ ts'' = rest := by simpa using h
          exact .inl ⟨lhs, t, ts', holds, rhs, hl, ht, hr, hv⟩
        · exact absurd h (by simp)
      · rename_i hnone
        obtain ⟨rfl, rfl⟩ : lhs = v ∧ t :: ts' = rest := by simpa using h
        exact .inr ⟨hl, by simpa using hnone⟩
    · rename_i hother
      refine .inr ⟨h, fun t ht => ?_⟩
      obtain ⟨ts', rfl⟩ := List.head?_eq_some_iff.1 ht
      exact absurd h (hother v t ts')
  · rintro (⟨lhs, t, ts', holds, rhs, hl, ht, hr, rfl⟩ | ⟨hsum, hnone⟩)
    · simp only [hl, ht, hr]
    · cases rest with
      | nil => rw [hsum]
      | cons t ts' => simp only [hsum, hnone t rfl]

theorem read_ternary_eq_some_iff :
    read .ternary (n + 1) ts = some (v, rest) ↔
      (∃ c ts' t ts'' f, read (.chain .logic) n ts = some (c, .question :: ts') ∧
        read .ternary n ts' = some (t, .colon :: ts'') ∧ read .ternary n ts'' = some (f, rest) ∧
        (if c ≠ 0 then t else f) = v) ∨
      read (.chain .logic) n ts = some (v, rest) ∧ rest.head? ≠ some .question := by
  simp only [read, ternary]
  constructor
  · intro h
    split at h
    · rename_i c ts' hc
      split at h
      · rename_i t ts'' ht
        split at h
        · rename_i f us hf
          obtain ⟨hv, rfl⟩ : (if c ≠ 0 then t else f) = v ∧ us = rest := by simpa using h
          exact .inl ⟨c, ts', t, ts'', f, hc, ht, hf, hv⟩
        · exact absurd h (by simp)
      · exact absurd h (by simp)
    · rename_i hother
      refine .inr ⟨h, fun hq => ?_⟩
      obtain ⟨ts', rfl⟩ := List.head?_eq_some_iff.1 hq
      exact hother v ts' h
  · rintro (⟨c, ts', t, ts'', f, hc, ht, hf, rfl⟩ | ⟨hlogic, hrest⟩)
    · simp only [hc, ht, hf]
    · rw [hlogic]
      split
      · rename_i heq
        exact absurd (by simpa using congrArg (Option.map (·.2.head?)) heq) hrest
      · rfl

end

/-- What the functions read is in the grammar. -/
theorem reads_of_read {n : Nat} {p : Part} {ts rest : List Token} {v : Int}
    (h : read p n ts = some (v, rest)) : Reads p ts v rest := by
  induction n generalizing p ts v rest with
  | zero =>
    rw [read_zero] at h
    exact absurd h (by simp)
  | succ n ih =>
    cases p with
    | atom =>
      rcases read_atom_eq_some_iff.1 h with
        rfl | ⟨ts', rfl, hgroup⟩ | ⟨ts', u, rfl, hatom, hv, rfl⟩
      · exact .int v rest
      · exact .group (ih hgroup)
      · exact .negative (ih hatom) hv
    | chain l =>
      obtain ⟨lhs, ts', hoperand, htail⟩ := read_chain_eq_some_iff.1 h
      exact .chain (ih hoperand) (ih htail)
    | tail l lhs =>
      rcases read_tail_eq_some_iff.1 h with
        ⟨t, f, ts', rhs, ts'', w, rfl, hf, hoperand, hw, htail⟩ | ⟨hnone, rfl, rfl⟩
      · exact .step hf (ih hoperand) hw (ih htail)
      · exact .done hnone
    | comparison =>
      rcases read_comparison_eq_some_iff.1 h with
        ⟨lhs, t, ts', holds, rhs, hl, ht, hr, rfl⟩ | ⟨hsum, hnone⟩
      · exact .compare (ih hl) ht (ih hr)
      · exact .single (ih hsum) hnone
    | ternary =>
      rcases read_ternary_eq_some_iff.1 h with
        ⟨c, ts', t, ts'', f, hc, ht, hf, rfl⟩ | ⟨hlogic, hrest⟩
      · exact .choice (ih hc) (ih ht) (ih hf)
      · exact .plain (ih hlogic) hrest

/-! ## The grammar is read by the functions -/

/-- How many tokens a part takes at least. -/
def Part.gain : Part → Nat
  | .tail _ _ => 0
  | _ => 1

theorem Level.gain_operand (l : Level) : l.operand.gain = 1 := by cases l <;> rfl

theorem Reads.length_le {p : Part} {ts rest : List Token} {v : Int} (h : Reads p ts v rest) :
    rest.length + p.gain ≤ ts.length := by
  induction h with
  | @chain l _ _ _ _ _ _ _ ih ih' =>
    rw [l.gain_operand] at ih
    simp only [Part.gain] at ih' ⊢
    omega
  | @step l _ _ _ _ _ _ _ _ _ _ _ _ _ ih ih' =>
    rw [l.gain_operand] at ih
    simp only [Part.gain, List.length_cons] at ih' ⊢
    omega
  | _ =>
    simp only [Part.gain, List.length_cons] at *
    omega

/-- How many calls a part makes before it takes a token. -/
def Part.depth : Part → Nat
  | .atom | .tail _ _ => 1
  | .chain .term => 2
  | .chain .additive => 3
  | .comparison => 4
  | .chain .logic => 5
  | .ternary => 6

theorem Level.depth_operand (l : Level) : l.operand.depth + 1 ≤ (Part.chain l).depth := by
  cases l <;> decide

theorem Level.depth_operand_le (l : Level) : l.operand.depth ≤ 4 := by cases l <;> decide

theorem Part.depth_pos (p : Part) : 0 < p.depth := by
  rcases p with _ | l | _ | _ | _ <;> try cases l
  all_goals simp [depth]

/-- A bound that suffices for a part allows one more call. -/
theorem Part.exists_eq_succ {p : Part} {k n : Nat} (hn : k + p.depth ≤ n) : ∃ m, n = m + 1 := by
  have hpos := p.depth_pos
  exact Nat.exists_eq_add_of_le' (by omega)

/-- What is in the grammar is read, if the functions may call each other often enough. -/
theorem Reads.read_eq {p : Part} {ts rest : List Token} {v : Int} (h : Reads p ts v rest) {n : Nat}
    (hn : 8 * ts.length + p.depth ≤ n) : read p n ts = some (v, rest) := by
  induction h generalizing n with
  | int m rest =>
    obtain ⟨n, rfl⟩ := Part.exists_eq_succ hn
    exact read_atom_eq_some_iff.2 (.inl rfl)
  | @group ts _ _ _ ih =>
    obtain ⟨n, rfl⟩ := Part.exists_eq_succ hn
    simp only [Part.depth, List.length_cons] at hn ih
    exact read_atom_eq_some_iff.2 (.inr (.inl ⟨ts, rfl, ih (by omega)⟩))
  | @negative ts _ v _ hv ih =>
    obtain ⟨n, rfl⟩ := Part.exists_eq_succ hn
    simp only [Part.depth, List.length_cons] at hn ih
    exact read_atom_eq_some_iff.2 (.inr (.inr ⟨ts, v, rfl, ih (by omega), hv, rfl⟩))
  | @chain l _ _ _ _ _ h _ ih ih' =>
    obtain ⟨n, rfl⟩ := Part.exists_eq_succ hn
    have hlen := h.length_le
    have hdepth := l.depth_operand
    rw [l.gain_operand] at hlen
    simp only [Part.depth] at ih'
    exact read_chain_eq_some_iff.2 ⟨_, _, ih (by omega), ih' (by omega)⟩
  | @step l _ _ _ _ _ _ _ _ _ ht h hw _ ih ih' =>
    obtain ⟨n, rfl⟩ := Part.exists_eq_succ hn
    have hlen := h.length_le
    have hdepth := l.depth_operand_le
    rw [l.gain_operand] at hlen
    simp only [Part.depth, List.length_cons] at ih' hn
    exact read_tail_eq_some_iff.2
      (.inl ⟨_, _, _, _, _, _, rfl, ht, ih (by omega), hw, ih' (by omega)⟩)
  | done h =>
    obtain ⟨n, rfl⟩ := Part.exists_eq_succ hn
    exact read_tail_eq_some_iff.2 (.inr ⟨h, rfl, rfl⟩)
  | compare hl ht _ ih ih' =>
    obtain ⟨n, rfl⟩ := Part.exists_eq_succ hn
    have hlen := hl.length_le
    simp only [Part.depth, Part.gain, List.length_cons] at hn hlen ih ih'
    exact read_comparison_eq_some_iff.2
      (.inl ⟨_, _, _, _, _, ih (by omega), ht, ih' (by omega), rfl⟩)
  | single _ hrest ih =>
    obtain ⟨n, rfl⟩ := Part.exists_eq_succ hn
    simp only [Part.depth] at hn ih
    exact read_comparison_eq_some_iff.2 (.inr ⟨ih (by omega), hrest⟩)
  | choice hc ht _ ih ih' ih'' =>
    obtain ⟨n, rfl⟩ := Part.exists_eq_succ hn
    have hlen := hc.length_le
    have hlen' := ht.length_le
    simp only [Part.depth, Part.gain, List.length_cons] at hn hlen hlen' ih ih' ih''
    exact read_ternary_eq_some_iff.2
      (.inl ⟨_, _, _, _, _, ih (by omega), ih' (by omega), ih'' (by omega), rfl⟩)
  | plain _ hrest ih =>
    obtain ⟨n, rfl⟩ := Part.exists_eq_succ hn
    simp only [Part.depth] at hn ih
    exact read_ternary_eq_some_iff.2 (.inr ⟨ih (by omega), hrest⟩)

/-- A part gives one value to a list of tokens. -/
theorem Reads.det {p : Part} {ts rest rest' : List Token} {v v' : Int} (h : Reads p ts v rest)
    (h' : Reads p ts v' rest') : v = v' ∧ rest = rest' := by
  have hread := (h.read_eq (Nat.le_refl _)).symm.trans (h'.read_eq (Nat.le_refl _))
  simpa using hread

/-- **The bound on the depth of calls does not show**: a list of tokens has the value that the
grammar gives it as a whole. -/
theorem evaluate?_eq_some_iff {ts : List Token} {v : Int} :
    evaluate? ts = some v ↔ Reads .ternary ts v [] := by
  constructor
  · intro h
    rw [evaluate?] at h
    split at h
    · rename_i u hread
      obtain rfl : u = v := by simpa using h
      exact reads_of_read (p := .ternary) (n := 8 * (ts.length + 1)) hread
    · exact absurd h (by simp)
  · intro h
    have hread := h.read_eq (n := 8 * (ts.length + 1)) (by simp only [Part.depth]; omega)
    rw [read] at hread
    rw [evaluate?, hread]

end TableSync.Fold
