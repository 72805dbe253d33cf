import TableSync.Proofs.Expr.Literal

/-!
# Where a conditional is cut out of a text

`Conditional.find?` names the parts of a conditional and forgets where they stood.  A
`Conditional.Cut` puts the text together again from the parts, from what stands around them, and
from the amount at the end.  It does not say which of several conditionals in a text is found, or
that the branches could not end earlier: only what every statement about the parts needs.

* `IsShortest` is how a branch is found: its end is the first place where the rest can follow it.
  The search goes from the left, so what it passes does not have the property.
* `exists_of_branches` and `exists_of_secondBranch` say what can stand in a branch: it is on one
  line, and the second has a closing parenthesis only at its start.
* `exists_of_amountAtEnd?` says what an amount is, and that it stands at the end.
* `Conditional.exists_cut_of_conditionalAt?` cuts out a conditional that starts with the text, and
  `Conditional.exists_cut_of_conditionalIn?` one that starts anywhere in it, by induction on the
  text with what has been passed put in front of the cut.
* `Conditional.exists_cut` says that every conditional found in a text is cut out of it, so that
  `Conditional.find?_word` finds none in a word.

Nothing is assumed of the text.  A cut of it need not be the only one, and the theorems that start
from a cut say what they say of each.
-/

set_option autoImplicit false

namespace TableSync

/-! ## Blanks and words at the start of a text -/

/-- A text is what trimming leaves of it, behind blanks. -/
theorem exists_blanks_trimStart (s : Text) :
    ∃ g, (∀ c ∈ g, isBlank c = true) ∧ s = g ++ trimStart s := by
  obtain ⟨g, r, rfl, hg, hr⟩ := exists_run isBlank s
  refine ⟨g, hg, ?_⟩
  rw [trimStart_blanks_append hg, trimStart_eq_self hr]

/-- A text is what trimming leaves of it, between blanks. -/
theorem exists_blanks_trim (s : Text) :
    ∃ g b, (∀ c ∈ g, isBlank c = true) ∧ (∀ c ∈ b, isBlank c = true) ∧ s = g ++ (trim s ++ b) := by
  obtain ⟨g, hg, hs⟩ := exists_blanks_trimStart s
  obtain ⟨b, hb, hr⟩ := exists_blanks_trimStart (trimStart s).reverse
  have hend : trimStart s = trim s ++ b.reverse := by
    have h := congrArg List.reverse hr
    rwa [List.reverse_reverse, List.reverse_append] at h
  exact ⟨g, b.reverse, hg, by simpa using hb, hend ▸ hs⟩

/-- Trimming leaves every character that is not blank. -/
theorem mem_trim_iff {x : Char} (hx : isBlank x = false) (s : Text) : x ∈ trim s ↔ x ∈ s := by
  obtain ⟨g, b, hg, hb, hs⟩ := exists_blanks_trim s
  conv_rhs => rw [hs]
  simp [notMem_of_blanks hg hx, notMem_of_blanks hb hx]

theorem exists_of_wordAt? {s w r : Text} (h : wordAt? s = some (w, r)) :
    ∃ g, (∀ c ∈ g, isBlank c = true) ∧ s = g ++ (w ++ r) ∧ IsWord w ∧
      ∀ c ∈ r.head?, isWordChar c = false := by
  obtain ⟨g, hg, hs⟩ := exists_blanks_trimStart s
  obtain ⟨v, u, hvu, hv, hu⟩ := exists_run isWordChar (trimStart s)
  rw [wordAt?, hvu, wordRun_append hv hu] at h
  cases v with
  | nil => exact absurd h (by simp)
  | cons c v =>
    obtain ⟨rfl, rfl⟩ : c :: v = w ∧ u = r := by simpa using h
    exact ⟨g, hg, hvu ▸ hs, ⟨List.cons_ne_nil c v, hv⟩, hu⟩

theorem eq_of_comparisonAt? {s r : Text} {c : Comparison} (h : comparisonAt? s = some (c, r)) :
    s = c.text.toList ++ r := by
  unfold comparisonAt? at h
  split at h <;> simp_all [Comparison.text]
  all_goals obtain ⟨rfl, rfl⟩ := h; rfl

theorem head?_of_trimStart {s w r : Text} (h : trimStart s = w ++ r) :
    ∀ c ∈ w.head?, isBlank c = false := by
  intro c hc
  refine head?_trimStart s c ?_
  rw [h, List.head?_append, Option.mem_def.1 hc]
  rfl

/-! ## The shortest start

Both branches and the parts before them are found by trying one end after the other, so the same
relation serves for all of them, with the property that the rest has to have as a parameter. -/

/-- Of the starts of `w ++ r` that are not empty, `w` is the shortest at which the rest has a
property, and it is on one line. -/
inductive IsShortest (p : Text → Prop) (r : Text) : Text → Prop
  | last {c : Char} (hc : c ≠ '\n') (hr : p r) : IsShortest p r [c]
  | cons {c : Char} {w : Text} (hc : c ≠ '\n') (hw : ¬ p (w ++ r)) (h : IsShortest p r w) :
      IsShortest p r (c :: w)

namespace IsShortest

variable {p : Text → Prop} {r w : Text}

theorem ne_nil (h : IsShortest p r w) : w ≠ [] := by
  cases h <;> exact List.cons_ne_nil _ _

theorem line (h : IsShortest p r w) : '\n' ∉ w := by
  induction h with
  | last hc => simpa using hc.symm
  | cons hc _ _ ih => simpa using ⟨hc.symm, ih⟩

theorem rest (h : IsShortest p r w) : p r := by
  induction h with
  | last _ hr => exact hr
  | cons _ _ _ ih => exact ih

theorem not_rest (h : IsShortest p r w) {u v : Text} (hw : w = u ++ v) (hu : u ≠ [])
    (hv : v ≠ []) : ¬ p (v ++ r) := by
  induction h generalizing u with
  | last =>
    cases u with
    | nil => exact absurd rfl hu
    | cons d u => exact absurd (List.append_eq_nil_iff.1 (List.cons.inj hw).2.symm).2 hv
  | @cons _ w _ hopen _ ih =>
    cases u with
    | nil => exact absurd rfl hu
    | cons d u =>
      have hrest : w = u ++ v := (List.cons.inj hw).2
      cases u with
      | nil =>
        obtain rfl : w = v := hrest
        exact hopen
      | cons e u => exact ih hrest (List.cons_ne_nil e u)

theorem of_forall (hw : w ≠ []) (hline : '\n' ∉ w) (hr : p r)
    (hfirst : ∀ u v, w = u ++ v → u ≠ [] → v ≠ [] → ¬ p (v ++ r)) : IsShortest p r w := by
  induction w with
  | nil => exact absurd rfl hw
  | cons c w ih =>
    rw [List.mem_cons, not_or] at hline
    cases w with
    | nil => exact .last (Ne.symm hline.1) hr
    | cons d w =>
      refine .cons (Ne.symm hline.1) (hfirst [c] (d :: w) rfl (by simp) (by simp))
        (ih (by simp) hline.2 fun u v huv _ hv => hfirst (c :: u) v ?_ (by simp) hv)
      rw [huv, List.cons_append]

/-- The shortest start is trimmed if blanks before the rest make no difference to the property. -/
theorem isTrimmed (h : IsShortest p r w) (hblank : ∀ c s, isBlank c = true → p s → p (c :: s))
    (hhead : ∀ c ∈ w.head?, isBlank c = false) : IsTrimmed w := by
  refine ⟨hhead, fun c hc => ?_⟩
  obtain ⟨u, rfl⟩ := List.getLast?_eq_some_iff.1 hc
  cases u with
  | nil => exact hhead c rfl
  | cons d u =>
    cases hb : isBlank c with
    | false => rfl
    | true =>
      exact absurd (hblank c r hb h.rest) (h.not_rest rfl (List.cons_ne_nil d u) (by simp))

end IsShortest

/-! ## The second branch

The second branch is read up to the first parenthesis that closes, blanks aside, whether or not it
opened inside the branch; a parenthesis at the very start is taken into it, as a branch is not
empty. -/

theorem closes_eq_true_iff {s : Text} :
    closes s = true ↔ trimStart s = [] ∨ ∃ r, trimStart s = ')' :: r := by
  unfold closes
  split <;> simp_all

theorem head?_trimStart_of_closes {s : Text} (h : closes s = true) :
    ∀ c ∈ (trimStart s).head?, c = ')' := by
  intro c hc
  rcases closes_eq_true_iff.1 h with hnil | ⟨r, hr⟩
  · rw [hnil] at hc
    exact absurd hc (by simp)
  · rw [hr] at hc
    simpa using hc.symm

theorem closes_cons {c : Char} (hc : isBlank c = true) (s : Text) :
    closes (c :: s) = closes s := by
  have h := trimStart_blanks_append (b := [c]) (s := s) (by simpa using hc)
  rw [closes, ← List.singleton_append, h, ← closes]

theorem untilClose_eq_some_iff {s w : Text} :
    untilClose s = some w ↔ ∃ r, s = w ++ r ∧ IsShortest (fun s => closes s = true) r w := by
  constructor
  · intro h
    induction s generalizing w with
    | nil => exact absurd h (by simp [untilClose])
    | cons c s ih =>
      rw [untilClose] at h
      split at h
      · exact absurd h (by simp)
      rename_i hn
      split at h
      · rename_i hclose
        obtain rfl : [c] = w := by simpa using h
        exact ⟨s, rfl, .last hn hclose⟩
      · rename_i hopen
        obtain ⟨w', hw', rfl⟩ := Option.map_eq_some_iff.1 h
        obtain ⟨r, rfl, hr⟩ := ih hw'
        exact ⟨r, rfl, .cons hn hopen hr⟩
  · rintro ⟨r, rfl, h⟩
    induction h with
    | last hc hr => rw [List.singleton_append, untilClose, if_neg hc, if_pos hr]
    | cons hc hw _ ih => rw [List.cons_append, untilClose, if_neg hc, if_neg hw, ih]; rfl

theorem untilClose_isSome {s : Text} (hs : s ≠ []) (hline : '\n' ∉ s) :
    (untilClose s).isSome = true := by
  induction s with
  | nil => exact absurd rfl hs
  | cons c s ih =>
    rw [List.mem_cons, not_or] at hline
    rw [untilClose, if_neg (Ne.symm hline.1)]
    split
    · rfl
    · rename_i hopen
      cases s with
      | nil => exact absurd rfl hopen
      | cons d s => simpa using ih (by simp) hline.2

/-- What is read up to a closing parenthesis or the end, with the blanks around it. -/
theorem exists_of_untilClose {s y : Text} (h : untilClose (trimStart s) = some y) :
    ∃ second after, s = second ++ after ∧ trim second = y ∧ '\n' ∉ y ∧ ')' ∉ y.drop 1 ∧
      second ≠ [] ∧ y ≠ [] ∧ ∀ c ∈ after.head?, c = ')' := by
  obtain ⟨g, hg, hs⟩ := exists_blanks_trimStart s
  obtain ⟨r, hyr, hshort⟩ := untilClose_eq_some_iff.1 h
  obtain ⟨b, hb, hbr⟩ := exists_blanks_trimStart r
  have hne := hshort.ne_nil
  refine ⟨g ++ (y ++ b), trimStart r, ?_, ?_, hshort.line, ?_, by simp [hne], hne,
    head?_trimStart_of_closes hshort.rest⟩
  · rw [hs, hyr]
    simp only [List.append_assoc]
    rw [← hbr]
  · exact trim_between hg hb hne <| hshort.isTrimmed
      (fun c s hc hs => (closes_cons hc s).trans hs) (head?_of_trimStart hyr)
  · intro hmem
    cases y with
    | nil => exact absurd rfl hne
    | cons c w =>
      obtain ⟨u, v, rfl⟩ := List.append_of_mem hmem
      refine hshort.not_rest (u := c :: u) rfl (by simp) (by simp)
        (closes_eq_true_iff.2 (.inr ⟨v ++ r, ?_⟩))
      rw [List.cons_append]
      exact trimStart_eq_self (by simp [isBlank])

/-- An empty second branch is the blanks before a closing parenthesis, where nothing can be read up
to one. -/
theorem exists_of_hasBlankStart {s : Text} (hclose : closes s = true)
    (hblank : hasBlankStart s = true) (hnone : untilClose (trimStart s) = none) :
    ∃ second after, s = second ++ after ∧ trim second = [] ∧ second ≠ [] ∧
      (after = [] ∨ '\n' ∈ after) ∧ ∀ c ∈ after.head?, c = ')' := by
  obtain ⟨g, hg, hs⟩ := exists_blanks_trimStart s
  refine ⟨g, trimStart s, hs, ?_, ?_, ?_, head?_trimStart_of_closes hclose⟩
  · have htrim := trim_blanks_append (s := []) hg
    rwa [List.append_nil] at htrim
  · rintro rfl
    have hrun : s.takeWhile isBlank = [] := by
      have hhead := head?_trimStart s
      rw [← List.nil_append (trimStart s), ← hs] at hhead
      cases s with
      | nil => rfl
      | cons c s => rw [List.takeWhile_cons, hhead c rfl]; rfl
    rw [hasBlankStart, hrun] at hblank
    exact absurd hblank (by simp)
  · by_contra hcon
    rw [not_or] at hcon
    have hsome := untilClose_isSome hcon.1 hcon.2
    rw [hnone] at hsome
    exact absurd hsome (by simp)

/-- The second branch is what stands before a closing parenthesis or the end, blanks around it
aside; it is empty only at the end of the text or before a line feed. -/
theorem exists_of_secondBranch {s y : Text} (h : secondBranch s = some y) :
    ∃ second after, s = second ++ after ∧ trim second = y ∧ '\n' ∉ y ∧ ')' ∉ y.drop 1 ∧
      second ≠ [] ∧ (y = [] → after = [] ∨ '\n' ∈ after) ∧ ∀ c ∈ after.head?, c = ')' := by
  rw [secondBranch] at h
  split at h
  · rename_i w hw
    obtain rfl : w = y := by simpa using h
    obtain ⟨second, after, hs, htrim, hline, hopen, hsecond, hne, hafter⟩ := exists_of_untilClose hw
    exact ⟨second, after, hs, htrim, hline, hopen, hsecond, fun hy => absurd hy hne, hafter⟩
  · rename_i hnone
    split at h
    · rename_i hclose
      rw [Bool.and_eq_true] at hclose
      obtain rfl : [] = y := by simpa using h
      obtain ⟨second, after, hs, htrim, hsecond, hend, hafter⟩ :=
        exists_of_hasBlankStart hclose.1 hclose.2 hnone
      exact ⟨second, after, hs, htrim, by simp, by simp, hsecond, fun _ => hend, hafter⟩
    · exact absurd h (by simp)

/-! ## The first branch -/

theorem afterColon_eq_some_iff {s y : Text} :
    afterColon s = some y ↔ ∃ r, trimStart s = ':' :: r ∧ secondBranch r = some y := by
  unfold afterColon
  split <;> simp_all

theorem afterColon_cons {c : Char} (hc : isBlank c = true) (s : Text) :
    afterColon (c :: s) = afterColon s := by
  have h := trimStart_blanks_append (b := [c]) (s := s) (by simpa using hc)
  rw [afterColon, ← List.singleton_append, h, ← afterColon]

theorem branchesFrom_eq_some_iff {s x y : Text} :
    branchesFrom s = some (x, y) ↔ ∃ r, s = x ++ r ∧
      IsShortest (fun s => (afterColon s).isSome = true) r x ∧ afterColon r = some y := by
  constructor
  · intro h
    induction s generalizing x with
    | nil => exact absurd h (by simp [branchesFrom])
    | cons c s ih =>
      rw [branchesFrom] at h
      split at h
      · exact absurd h (by simp)
      rename_i hn
      split at h
      · rename_i second hsecond
        obtain ⟨rfl, rfl⟩ : [c] = x ∧ second = y := by simpa using h
        exact ⟨s, rfl, .last hn (by rw [hsecond]; rfl), hsecond⟩
      · rename_i hnone
        obtain ⟨⟨x', y'⟩, hx', heq⟩ := Option.map_eq_some_iff.1 h
        obtain ⟨rfl, rfl⟩ : c :: x' = x ∧ y' = y := by simpa using heq
        obtain ⟨r, rfl, hr, hy⟩ := ih hx'
        exact ⟨r, rfl, .cons hn (by rw [hnone]; decide) hr, hy⟩
  · rintro ⟨r, rfl, h, hy⟩
    induction h with
    | last hc _ => rw [List.singleton_append, branchesFrom, if_neg hc, hy]
    | cons hc hw _ ih =>
      rw [Bool.not_eq_true, Option.isSome_eq_false_iff, Option.isNone_iff_eq_none] at hw
      rw [List.cons_append, branchesFrom, if_neg hc, hw, ih]
      rfl

/-- The first branch is what stands before the colon, blanks around it aside. -/
theorem exists_of_branches {s x y : Text} (h : branches s = some (x, y)) :
    ∃ first r, s = first ++ ':' :: r ∧ trim first = x ∧ '\n' ∉ x ∧ secondBranch r = some y := by
  obtain ⟨g, hg, hs⟩ := exists_blanks_trimStart s
  rw [branches] at h
  split at h
  · rename_i found hfound
    obtain rfl : found = (x, y) := by simpa using h
    obtain ⟨r, hxr, hshort, hr⟩ := branchesFrom_eq_some_iff.1 hfound
    obtain ⟨b, hb, hbr⟩ := exists_blanks_trimStart r
    obtain ⟨r', hr', hsecond⟩ := afterColon_eq_some_iff.1 hr
    refine ⟨g ++ (x ++ b), r', ?_, ?_, hshort.line, hsecond⟩
    · rw [hs, hxr, hbr, hr']
      simp
    · exact trim_between hg hb hshort.ne_nil <| hshort.isTrimmed
        (fun c s hc hs => (congrArg Option.isSome (afterColon_cons hc s)).trans hs)
        (head?_of_trimStart hxr)
  · split at h
    · obtain ⟨y', hy', heq⟩ := Option.map_eq_some_iff.1 h
      obtain ⟨rfl, rfl⟩ : [] = x ∧ y' = y := by simpa using heq
      obtain ⟨r, hr, hsecond⟩ := afterColon_eq_some_iff.1 hy'
      refine ⟨g, r, hr ▸ hs, ?_, by simp, hsecond⟩
      have := trim_blanks_append (s := []) hg
      rwa [List.append_nil] at this
    · exact absurd h (by simp)

/-! ## The amount -/

/-- A sign between blanks and a numeral, with blanks at the end. -/
def IsAmount (sign : Char) (digits s : Text) : Prop :=
  ∃ g g' b, s = g ++ sign :: (g' ++ (digits ++ b)) ∧ g ≠ [] ∧ (∀ c ∈ g, isBlank c = true) ∧
    g' ≠ [] ∧ (∀ c ∈ g', isBlank c = true) ∧ digits ≠ [] ∧ (∀ c ∈ digits, isDecimal c = true) ∧
    ∀ c ∈ b, isBlank c = true

theorem exists_of_amountAtEnd? {s body digits : Text} {isAdded : Bool}
    (h : amountAtEnd? s = some (body, isAdded, digits)) :
    ∃ tail, s = body ++ tail ∧ IsAmount (if isAdded then '+' else '-') digits tail ∧
      '\n' ∉ body ∧ ∀ c ∈ body.getLast?, isBlank c = false := by
  -- The amount is read from the end, so every run of the tail appears reversed.
  obtain ⟨b, r, hs, hb, hr⟩ := exists_run isBlank s.reverse
  obtain ⟨d, r, rfl, hd, hr'⟩ := exists_run isDecimal r
  obtain ⟨g', r, rfl, hg', hr''⟩ := exists_run isBlank r
  have hdrop : (b ++ (d ++ (g' ++ r))).dropWhile isBlank = d ++ (g' ++ r) :=
    (trimStart_blanks_append hb).trans (trimStart_eq_self hr)
  rw [amountAtEnd?, hs, hdrop, span_append hd hr'] at h
  simp only [span_append hg' hr''] at h
  split at h
  · rename_i sign r
    obtain ⟨g, r, rfl, hg, hr₃⟩ := exists_run isBlank r
    simp only [span_append hg hr₃] at h
    split at h
    · rename_i hcond
      obtain ⟨hsign, hdne, hg'ne, hgne, hline⟩ := hcond
      obtain ⟨rfl, rfl, rfl⟩ : r.reverse = body ∧ decide (sign = '+') = isAdded ∧
          d.reverse = digits := by simpa using h
      -- Turned around again: blanks, sign, blanks, digits, blanks.
      have hmark : (if decide (sign = '+') then '+' else '-') = sign := by
        rcases hsign with rfl | rfl <;> rfl
      refine ⟨g.reverse ++ sign :: (g'.reverse ++ (d.reverse ++ b.reverse)), ?_, ?_, ?_, ?_⟩
      · have := congrArg List.reverse hs
        simpa using this
      · rw [hmark]
        exact ⟨g.reverse, g'.reverse, b.reverse, rfl, by simpa using hgne, by simpa using hg,
          by simpa using hg'ne, by simpa using hg', by simpa using hdne, by simpa using hd,
          by simpa using hb⟩
      · simpa using hline
      · intro c hc
        rw [List.getLast?_reverse] at hc
        exact hr₃ c hc
    · exact absurd h (by simp)
  · exact absurd h (by simp)

/-! ## Cuts -/

theorem Value.scalar_trim (s : Text) : Value.scalar (trim s) = Value.scalar s := by
  rw [Value.scalar, Value.scalar, trim_trim]

namespace Conditional

/-- A comparison and the question mark after it; `isClosed` says whether a closing parenthesis
stands between them. -/
def IsHead (left : Text) (comparison : Comparison) (right : Text) (isClosed : Bool) (s : Text) :
    Prop :=
  ∃ g₁ g₂ g₃ g₄, s = left ++ (g₁ ++ (comparison.text.toList ++ (g₂ ++ (right ++
      (g₃ ++ ((if isClosed then [')'] else []) ++ (g₄ ++ ['?']))))))) ∧ IsWord left ∧
    IsWord right ∧ ∀ g ∈ [g₁, g₂, g₃, g₄], ∀ c ∈ g, isBlank c = true

/-- What stands at the end of a text, and the amounts that it gives. -/
inductive IsTail (s : Text) : Int → Int → Prop
  | nothing (h : s = []) : IsTail s 0 0
  | added {digits : Text} {n : Int} (h : IsAmount '+' digits s) (hn : readInt? digits = some n) :
      IsTail s n 0
  | taken {digits : Text} {n : Int} (h : IsAmount '-' digits s) (hn : readInt? digits = some n) :
      IsTail s 0 n

/-- A text put together from the parts of a conditional and what stands around them. -/
structure Cut (e : Conditional) (t : Text) where
  /-- What precedes the left operand. -/
  before : Text
  /-- The comparison and the question mark. -/
  head : Text
  /-- What stands between the question mark and the colon. -/
  first : Text
  /-- What stands between the colon and the parenthesis that closes, or the end. -/
  second : Text
  /-- The rest, from the parenthesis that closes. -/
  after : Text
  /-- The amount. -/
  tail : Text
  /-- Whether a parenthesis closes before the question mark. -/
  isClosed : Bool
  /-- The text is put together from the parts, with the colon between the branches. -/
  eq_append : t = before ++ (head ++ (first ++ ':' :: (second ++ (after ++ tail))))
  /-- The comparison has the operands and the operator of the conditional. -/
  isHead : IsHead e.left.toList e.comparison e.right.toList isClosed head
  /-- The first branch is what the text between question mark and colon stands for. -/
  whenTrue : e.whenTrue = .scalar first
  /-- The second branch is what the text behind the colon stands for. -/
  whenFalse : e.whenFalse = .scalar second
  /-- The first branch is on one line, blanks around it aside. -/
  first_line : '\n' ∉ trim first
  /-- The second branch is on one line, blanks around it aside. -/
  second_line : '\n' ∉ trim second
  /-- Nothing closes in the second branch behind its first character. -/
  second_open : ')' ∉ (trim second).drop 1
  /-- Something stands behind the colon, and be it blanks. -/
  second_ne_nil : second ≠ []
  /-- An empty second branch is at the end of the text, or a line feed comes behind it. -/
  second_blank : trim second = [] → after = [] ∨ '\n' ∈ after
  /-- If anything stands behind the second branch, a parenthesis closes first. -/
  after_closes : ∀ c ∈ after.head?, c = ')'
  /-- What stands at the end gives the amounts. -/
  isTail : IsTail tail e.toAdd e.toSubtract

theorem exists_of_afterQuestion? {s r : Text} (h : afterQuestion? s = some r) :
    ∃ g g' isClosed, s = g ++ ((if isClosed = true then [')'] else []) ++ (g' ++ '?' :: r)) ∧
      (∀ c ∈ g, isBlank c = true) ∧ ∀ c ∈ g', isBlank c = true := by
  obtain ⟨g, hg, hs⟩ := exists_blanks_trimStart s
  rw [afterQuestion?] at h
  split at h
  · rename_i r' hr'
    obtain rfl : r' = r := by simpa using h
    cases hp : dropStart? [')'] (trimStart s) with
    | none =>
      rw [hp, Option.getD_none] at hr'
      obtain ⟨g', hg', hs'⟩ := exists_blanks_trimStart (trimStart s)
      refine ⟨g, g', false, ?_, hg, hg'⟩
      rw [hs, hs', hr']
      simp
    | some u =>
      rw [hp, Option.getD_some] at hr'
      obtain ⟨g', hg', hu⟩ := exists_blanks_trimStart u
      refine ⟨g, g', true, ?_, hg, hg'⟩
      rw [hs, dropStart?_eq_some_iff.1 hp, hu, hr']
      rfl
  · exact absurd h (by simp)

/-- A conditional that is read at the start of a text is cut out of it. -/
theorem exists_cut_of_conditionalAt? {s : Text} {e : Conditional}
    (h : conditionalAt? s = some e) :
    (∃ c : e.Cut s, c.tail = []) ∧ e.toAdd = 0 ∧ e.toSubtract = 0 := by
  simp only [conditionalAt?, Option.bind_eq_bind, Option.bind_eq_some_iff] at h
  obtain ⟨⟨left, s₁⟩, hleft, ⟨comparison, s₂⟩, hcomparison, ⟨right, s₃⟩, hright, s₄, hquestion,
    ⟨x, y⟩, hbranches, he⟩ := h
  dsimp only at hcomparison hright hquestion hbranches he
  obtain ⟨g, hg, rfl, hl, -⟩ := exists_of_wordAt? hleft
  obtain ⟨g₁, hg₁, hs₁⟩ := exists_blanks_trimStart s₁
  obtain ⟨g₂, hg₂, hs₂, hr, -⟩ := exists_of_wordAt? hright
  obtain ⟨g₃, g₄, isClosed, hs₃, hg₃, hg₄⟩ := exists_of_afterQuestion? hquestion
  obtain ⟨first, r, rfl, hx, hxline, hsecond⟩ := exists_of_branches hbranches
  obtain ⟨second, after, rfl, hy, hyline, hyopen, hyne, hyblank, hafter⟩ :=
    exists_of_secondBranch hsecond
  obtain rfl : (⟨String.ofList left, comparison, String.ofList right, .scalar x, .scalar y, 0, 0⟩ :
      Conditional) = e := by simpa using he
  refine ⟨⟨{ before := g, isClosed, first, second, after, tail := [],
             head := left ++ (g₁ ++ (comparison.text.toList ++ (g₂ ++ (right ++
               (g₃ ++ ((if isClosed then [')'] else []) ++ (g₄ ++ ['?']))))))),
             eq_append := ?_, isHead := ?_, whenTrue := ?_, whenFalse := ?_,
             first_line := hx ▸ hxline, second_line := hy ▸ hyline, second_open := hy ▸ hyopen,
             second_ne_nil := hyne, second_blank := hy ▸ hyblank, after_closes := hafter,
             isTail := .nothing rfl }, rfl⟩, rfl, rfl⟩
  · rw [hs₁, eq_of_comparisonAt? hcomparison, hs₂, hs₃]
    simp
  · refine ⟨g₁, g₂, g₃, g₄, ?_, ?_, ?_, ?_⟩
    · simp only [String.toList_ofList]
    · simpa only [String.toList_ofList] using hl
    · simpa only [String.toList_ofList] using hr
    · simpa using ⟨hg₁, hg₂, hg₃, hg₄⟩
  · rw [← hx]
    exact Value.scalar_trim first
  · rw [← hy]
    exact Value.scalar_trim second

/-- A conditional that is read anywhere in a text is cut out of it. -/
theorem exists_cut_of_conditionalIn? {inWord : Bool} {s : Text} {e : Conditional}
    (h : conditionalIn? inWord s = some e) :
    (∃ c : e.Cut s, c.tail = []) ∧ e.toAdd = 0 ∧ e.toSubtract = 0 := by
  induction s generalizing inWord with
  | nil => exact absurd h (by simp [conditionalIn?])
  | cons x s ih =>
    have hcons : (∃ c : e.Cut s, c.tail = []) → ∃ c : e.Cut (x :: s), c.tail = [] := by
      rintro ⟨c, hc⟩
      exact ⟨{ c with before := x :: c.before, eq_append := congrArg (x :: ·) c.eq_append }, hc⟩
    rw [conditionalIn?] at h
    split at h
    · exact (ih h).imp_left hcons
    · split at h
      · exact (ih h).imp_left hcons
      · rcases Option.or_eq_some_iff.1 h with hat | ⟨-, hin⟩
        · exact exists_cut_of_conditionalAt? hat
        · exact (ih hin).imp_left hcons

/-- A cut of what precedes an amount is a cut of the whole. -/
theorem Cut.exists_append {e : Conditional} {s : Text} (c : e.Cut s) (hc : c.tail = [])
    {toAdd toSubtract : Int} {tail : Text} (ht : IsTail tail toAdd toSubtract) :
    ∃ c : ({ e with toAdd := toAdd, toSubtract := toSubtract } : Conditional).Cut (s ++ tail),
      c.tail = tail := by
  refine ⟨{ c with tail := tail, eq_append := ?_, isTail := ht }, rfl⟩
  have hs := c.eq_append
  rw [hc] at hs
  conv_lhs => rw [hs]
  simp

/-- A conditional is found in the whole text, or in what precedes an amount. -/
theorem find?_cases {t : Text} {e : Conditional} (h : find? t = some e) :
    conditionalIn? false t = some e ∨
      ∃ body isAdded digits e' n, amountAtEnd? t = some (body, isAdded, digits) ∧
        conditionalIn? false body = some e' ∧ readInt? digits = some n ∧
        e = if isAdded then { e' with toAdd := n } else { e' with toSubtract := n } := by
  rw [find?] at h
  split at h
  · rename_i body isAdded digits hamount
    split at h
    · rename_i e' hin
      obtain ⟨n, hn, rfl⟩ := Option.map_eq_some_iff.1 h
      exact .inr ⟨body, isAdded, digits, e', n, hamount, hin, hn, rfl⟩
    · exact .inl h
  · exact .inl h

/-- **What is found in a text is cut out of it.** -/
theorem exists_cut {t : Text} {e : Conditional} (h : find? t = some e) : Nonempty (e.Cut t) := by
  rcases find?_cases h with hin | ⟨body, isAdded, digits, e', n, hamount, hin, hn, rfl⟩
  · exact (exists_cut_of_conditionalIn? hin).1.nonempty
  · obtain ⟨tail, rfl, htail, -⟩ := exists_of_amountAtEnd? hamount
    obtain ⟨⟨c, hc⟩, hadd, hsub⟩ := exists_cut_of_conditionalIn? hin
    cases isAdded with
    | true =>
      obtain ⟨c', -⟩ := c.exists_append hc (.added htail hn)
      rw [if_pos rfl, hsub]
      exact ⟨c'⟩
    | false =>
      obtain ⟨c', -⟩ := c.exists_append hc (.taken htail hn)
      rw [if_neg (by decide), hadd]
      exact ⟨c'⟩

/-- A text without a question mark holds no conditional. -/
theorem find?_eq_none {t : Text} (h : '?' ∉ t) : find? t = none := by
  cases hfind : find? t with
  | none => rfl
  | some e =>
    obtain ⟨c⟩ := exists_cut hfind
    obtain ⟨g₁, g₂, g₃, g₄, hhead, -⟩ := c.isHead
    refine absurd ?_ h
    rw [c.eq_append, hhead]
    simp

/-- **A word holds no conditional.** -/
theorem find?_word {w : Text} (h : IsWord w) : find? w = none :=
  find?_eq_none (h.isToken.notMem (by decide) (by decide))

end Conditional

end TableSync
