import TableSync.Category.Species
import TableSync.Proofs.Text.Quote
import TableSync.Proofs.Text.Word

/-!
# Lines that open no text

The species table may declare texts outside its entities, each opening with `const u8
gXPokedexText[] = _(`.  Outside of literals the scanner looks for such an opening in every line, at
every place of the line, before it looks for anything else.  So for each line that is written it has
to be shown that none opens in it, and this file is about that.

* `dexTextOpening` is the whole opening as a text; `dexTextAt?_isSome` and `isSome_dexTextAt?` say
  that the recogniser accepts a text exactly if it starts with one of these.
* `search?_dexTextAt?_of_notMem` is for lines without one of its brackets, which most lines are.
* `search?_dexTextAt?_quote` and `search?_dexTextAt?_escape` are for lines with quoted text.  The
  opening holds neither a quote nor a backslash, so one that stands in a line does not reach across
  a quote, and one that stands in escaped text stands in the text itself.

What is left is the text of a name or of a category; that no opening stands in it is a condition on
the text (`IsLabel.opening`), and the lemmas here carry it from the text to its line.
-/

set_option autoImplicit false

namespace TableSync.Species

/-! ## Openings

An opening is fixed but for the name of its variable, so which characters can stand in it is known
for all of them at once. -/

/-- What opens the text of a variable whose name has the given stem. -/
def dexTextOpening (stem : Text) : Text :=
  "const u8 g".toList ++ (stem ++ "PokedexText".toList) ++ "[] = _(".toList

theorem dexTextOpening_append (stem r : Text) : dexTextOpening stem ++ r =
    "const u8 g".toList ++ ((stem ++ "PokedexText".toList) ++ ("[] = _(".toList ++ r)) :=
  (List.append_assoc _ _ _).trans (List.append_assoc _ _ _)

theorem head?_dexTextOpening (stem r : Text) : (dexTextOpening stem ++ r).head? = some 'c' := rfl

/-- The text of a variable opens with its declaration. -/
theorem dexTextAt?_isSome {s : Text} (h : (dexTextAt? s).isSome = true) :
    ∃ stem rest, (∀ c ∈ stem, isWordChar c = true) ∧ stem ≠ [] ∧
      s = dexTextOpening stem ++ rest := by
  obtain ⟨found, hfound⟩ := Option.isSome_iff_exists.1 h
  simp only [dexTextAt?, Option.bind_eq_bind, Option.bind_eq_some_iff] at hfound
  obtain ⟨s1, hs1, stem, hstem, rest, hrest, hend⟩ := hfound
  obtain ⟨w, r, hwr, hw, hr⟩ := exists_run isWordChar s1
  rw [hwr, wordRun_append hw hr] at hstem hrest
  rw [dropStart?_eq_some_iff] at hs1 hrest
  rw [dropEnd?_eq_some_iff] at hstem
  refine ⟨stem, rest, fun c hc => hw c ?_, ?_, ?_⟩
  · rw [show w = stem ++ "PokedexText".toList from hstem]
    exact List.mem_append_left _ hc
  · rintro rfl
    exact absurd hend (by simp)
  · have hr' : r = "[] = _(".toList ++ rest := hrest
    have hw' : w = stem ++ "PokedexText".toList := hstem
    simp only [hs1, hwr, hr', hw', dexTextOpening_append]

theorem isSome_dexTextAt? {stem : Text} (hstem : ∀ c ∈ stem, isWordChar c = true)
    (hne : stem ≠ []) (rest : Text) : (dexTextAt? (dexTextOpening stem ++ rest)).isSome = true := by
  have hword : ∀ c ∈ stem ++ "PokedexText".toList, isWordChar c = true := by
    intro c hc
    rcases List.mem_append.1 hc with hc | hc
    · exact hstem c hc
    · exact (show ∀ c ∈ "PokedexText".toList, isWordChar c = true by decide) c hc
  have hrun := wordRun_append (r := "[] = _(".toList ++ rest) hword (by
    intro c hc
    rw [← Option.some.inj hc]
    decide)
  have hempty : stem.isEmpty = false := by simpa using hne
  have hend : dropEnd? "PokedexText".toList (stem ++ "PokedexText".toList) = some stem :=
    dropEnd?_eq_some_iff.2 rfl
  simp only [dexTextOpening_append, dexTextAt?, dropStart?_append, Option.bind_eq_bind,
    Option.bind_some, hrun, hend, hempty, Bool.false_eq_true, if_false, Option.isSome_some]

/-- The opening holds no quote and no backslash. -/
theorem notMem_dexTextOpening {stem : Text} (hstem : ∀ c ∈ stem, isWordChar c = true) {x : Char}
    (hx : isWordChar x = false) (hmark : x ∉ " []=(".toList) : x ∉ dexTextOpening stem := by
  have hne : ∀ y ∈ " []=(".toList, x ≠ y := by
    rintro y hy rfl
    exact hmark hy
  have hword : ∀ y, isWordChar y = true → x ≠ y := by
    rintro y hy rfl
    rw [hx] at hy
    exact Bool.noConfusion hy
  have hfixed : ∀ s : Text, (∀ y ∈ s, y ∈ " []=(".toList ∨ isWordChar y = true) → x ∉ s := by
    intro s hs hmem
    rcases hs x hmem with h | h
    · exact hmark h
    · exact hword x h rfl
  refine List.not_mem_append (List.not_mem_append ?_ (List.not_mem_append ?_ ?_)) ?_
  · exact hfixed _ (by decide)
  · exact notMem_of_word hstem hx
  · exact hfixed _ (by decide)
  · exact hfixed _ (by decide)

/-! ## Searching for an opening

A search is over all ends of a text.  Each lemma shows that an opening at an end of the longer text
would be one at an end of the shorter text. -/

theorem search?_isNone {α : Type} {at? : Text → Option α} {s : Text}
    (h : ∀ u v, s = u ++ v → at? v = none) : search? at? s = none := by
  induction s with
  | nil => exact h [] [] rfl
  | cons c s ih =>
    rw [search?, h [] (c :: s) rfl, Option.none_or]
    exact ih fun u v hs => h (c :: u) v (by rw [hs, List.cons_append])

theorem search?_cons_eq_none {α : Type} {at? : Text → Option α} {c : Char} {s : Text}
    (h : search? at? (c :: s) = none) : at? (c :: s) = none ∧ search? at? s = none := by
  rw [search?] at h
  exact Option.or_eq_none_iff.1 h

theorem dexTextAt?_eq_none {s : Text}
    (h : ∀ stem rest, (∀ c ∈ stem, isWordChar c = true) → stem ≠ [] →
      s ≠ dexTextOpening stem ++ rest) : dexTextAt? s = none := by
  cases hs : dexTextAt? s with
  | none => rfl
  | some found =>
    obtain ⟨stem, rest, hstem, hne, heq⟩ := dexTextAt?_isSome (s := s) (by rw [hs]; rfl)
    exact absurd heq (h stem rest hstem hne)

/-- A line opens no text that lacks a character of every opening. -/
theorem search?_dexTextAt?_of_notMem {s : Text} {x : Char} (hx : x ∈ "[](".toList) (h : x ∉ s) :
    search? dexTextAt? s = none := by
  refine search?_isNone fun u v hs => dexTextAt?_eq_none fun stem rest _ _ hv => h ?_
  have hmem : x ∈ dexTextOpening stem := by
    refine List.mem_append_right _ ?_
    revert hx
    simp only [String.reduceToList, List.mem_cons, List.not_mem_nil, or_false]
    grind
  rw [hs, hv]
  simp [hmem]

/-- Two texts that agree agree up to a mark that only the second one holds. -/
theorem append_eq_append_mark {p r a b : Text} {x : Char} (hp : x ∉ p)
    (h : p ++ r = a ++ x :: b) : ∃ a', a = p ++ a' := by
  rcases List.append_eq_append_iff.1 h with ⟨a', ha, -⟩ | ⟨c, hc, hr⟩
  · exact ⟨a', ha⟩
  · cases c with
    | nil =>
      rw [List.append_nil] at hc
      exact ⟨[], by rw [List.append_nil, hc]⟩
    | cons d c =>
      rw [List.cons_append, List.cons.injEq] at hr
      exact absurd (by rw [hc, hr.1]; simp) hp

/-- No text opens across a quote. -/
theorem search?_dexTextAt?_quote {a b : Text} (ha : search? dexTextAt? a = none)
    (hb : search? dexTextAt? b = none) : search? dexTextAt? (a ++ '"' :: b) = none := by
  have hquote : ∀ stem : Text, (∀ c ∈ stem, isWordChar c = true) → '"' ∉ dexTextOpening stem :=
    fun stem hstem => notMem_dexTextOpening hstem (by decide) (by decide)
  induction a with
  | nil =>
    rw [List.nil_append, search?, hb, Option.or_none]
    refine dexTextAt?_eq_none fun stem rest hstem _ heq => ?_
    have hhead := congrArg List.head? heq
    rw [head?_dexTextOpening] at hhead
    exact absurd hhead (by simp)
  | cons c a ih =>
    obtain ⟨hat, hrest⟩ := search?_cons_eq_none ha
    rw [List.cons_append, search?, ih hrest, Option.or_none]
    refine dexTextAt?_eq_none fun stem rest hstem hne heq => ?_
    obtain ⟨a', ha'⟩ := append_eq_append_mark (a := c :: a) (hquote stem hstem) heq.symm
    have hsome := isSome_dexTextAt? hstem hne a'
    rw [← ha', hat] at hsome
    exact Bool.noConfusion hsome

/-- Escapes are no part of an opening. -/
theorem eq_append_of_escape {p s r : Text} (hp : '\\' ∉ p) (h : escape s = p ++ r) :
    ∃ s', s = p ++ s' := by
  induction p generalizing s with
  | nil => exact ⟨s, rfl⟩
  | cons x p ih =>
    rw [List.mem_cons, not_or] at hp
    cases s with
    | nil => exact absurd h (by simp [escape])
    | cons c s =>
      rw [escape_cons] at h
      rcases escapeChar_cases c with ⟨d, he, -⟩ | ⟨he, -, -, -⟩
      · rw [he, List.cons_append, List.cons_append] at h
        exact absurd (List.cons.inj h).1 hp.1
      · rw [he, List.cons_append, List.nil_append, List.cons_append] at h
        obtain ⟨s', rfl⟩ := ih hp.2 (List.cons.inj h).2
        exact ⟨s', by rw [(List.cons.inj h).1, List.cons_append]⟩

/-- No text opens in escaped text that does not open in the text itself. -/
theorem search?_dexTextAt?_escape {s : Text} (h : search? dexTextAt? s = none) :
    search? dexTextAt? (escape s) = none := by
  have hfirst : ∀ (x : Char) (r : Text), x ≠ 'c' → dexTextAt? (x :: r) = none := by
    intro x r hx
    refine dexTextAt?_eq_none fun stem rest _ _ heq => hx ?_
    have hhead := congrArg List.head? heq
    rw [head?_dexTextOpening] at hhead
    exact Option.some.inj hhead
  induction s with
  | nil => exact h
  | cons c s ih =>
    obtain ⟨hat, hrest⟩ := search?_cons_eq_none h
    have hplain : dexTextAt? (escape (c :: s)) = none := by
      refine dexTextAt?_eq_none fun stem rest hstem hne heq => ?_
      obtain ⟨s', hs'⟩ := eq_append_of_escape
        (notMem_dexTextOpening hstem (by decide) (by decide)) heq
      have hsome := isSome_dexTextAt? hstem hne s'
      rw [← hs', hat] at hsome
      exact Bool.noConfusion hsome
    rw [escape_cons] at hplain ⊢
    rw [escapeChar] at hplain ⊢
    split
    · rw [List.cons_append, List.cons_append, List.nil_append, search?, search?, ih hrest,
        hfirst _ _ (by decide), hfirst _ _ (by decide)]
      rfl
    · split
      · rw [List.cons_append, List.cons_append, List.nil_append, search?, search?, ih hrest,
          hfirst _ _ (by decide), hfirst _ _ (by decide)]
        rfl
      · split
        · rw [List.cons_append, List.cons_append, List.nil_append, search?, search?, ih hrest,
            hfirst _ _ (by decide), hfirst _ _ (by decide)]
          rfl
        · rename_i h1 h2 h3
          rw [if_neg h1, if_neg h2, if_neg h3] at hplain
          rw [List.cons_append, List.nil_append] at hplain ⊢
          rw [search?, hplain, ih hrest]
          rfl

end TableSync.Species
