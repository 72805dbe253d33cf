import TableSync.Text.Quoted
import TableSync.Text.TopLevel

/-!
# Joining and splitting

What is joined with a separator is split at it again, as long as no separator is met inside a part.

* `splitOn_joinWith` is for separators that count everywhere, and `joinWith_splitOn` is the other
  way round for a single character.
* For separators that count outside quotes and brackets only, `levelAfter` says where a reader
  stands after a text: how many brackets are open, and whether a quote is.  `Passes` says that a
  reader which stands somewhere goes over a text without meeting a separator, where some text
  follows.
* `Passes.append`, `Passes.left`, `Passes.before_separator` and `passes_cons_iff` are how this is
  shown of a text, part by part or character by character.
* `IsClosed` says that a reader stands after the text where it stood before it, however many
  brackets were open.
* `splitTopLevelFrom_append` and `exists_splitTopLevel_append` say what splitting makes of a text
  that is passed over: it goes to the front of the first part.

A separator of two characters may begin at the end of one text and end at the start of the next.
This is why `Passes` is told what follows, and why what is passed over at the end of a text is
passed over before other text only under the conditions of `Passes.before_separator` and
`Passes.before_any`.
-/

set_option autoImplicit false

namespace TableSync

/-! ## Parts that grow at their front

Splitting goes from left to right, and puts each character that is no separator to the front of the
first part of the rest. -/

theorem foldr_consHead_singleton (w p : Text) : w.foldr consHead [p] = [w ++ p] := by
  induction w with
  | nil => rfl
  | cons c w ih => rw [List.foldr_cons, ih, consHead, List.cons_append]

theorem foldr_consHead_cons (w p : Text) (ps : List Text) :
    w.foldr consHead (p :: ps) = (w ++ p) :: ps := by
  induction w with
  | nil => rfl
  | cons c w ih => rw [List.foldr_cons, ih, consHead, List.cons_append]

/-! ## Splitting at every separator

After a separator of several characters has been met, its other characters are passed over, which is
what the number in `splitOnFrom` counts. -/

theorem startsWith_cons_eq_false {x c : Char} {sep r : Text} (h : x ≠ c) :
    startsWith (x :: sep) (c :: r) = false := by
  simp [startsWith, dropStart?, h]

/-- A text is passed over in which the first character of the separator does not occur. -/
theorem splitOnFrom_append {x : Char} {sep w r : Text} (h : x ∉ w) :
    splitOnFrom (x :: sep) 0 (w ++ r) = w.foldr consHead (splitOnFrom (x :: sep) 0 r) := by
  induction w with
  | nil => rfl
  | cons c w ih =>
    rw [List.mem_cons, not_or] at h
    rw [List.cons_append, splitOnFrom, startsWith_cons_eq_false h.1, if_neg (by decide), ih h.2,
      List.foldr_cons]

theorem splitOnFrom_skip {sep u r : Text} :
    splitOnFrom sep u.length (u ++ r) = splitOnFrom sep 0 r := by
  induction u with
  | nil => rfl
  | cons c u ih => rw [List.cons_append, List.length_cons, splitOnFrom, ih]

theorem splitOnFrom_separator {x : Char} {sep r : Text} :
    splitOnFrom (x :: sep) 0 (x :: sep ++ r) = [] :: splitOnFrom (x :: sep) 0 r := by
  have hs : startsWith (x :: sep) (x :: (sep ++ r)) = true := startsWith_iff.2 ⟨r, rfl⟩
  rw [List.cons_append, splitOnFrom, if_pos hs, List.length_cons, Nat.add_sub_cancel,
    splitOnFrom_skip]

theorem joinWith_cons_cons (sep p q : Text) (ps : List Text) :
    joinWith sep (p :: q :: ps) = p ++ sep ++ joinWith sep (q :: ps) := rfl

/-- Parts that are joined are found again. -/
theorem splitOn_joinWith {x : Char} {sep w : Text} {ws : List Text}
    (h : ∀ v ∈ w :: ws, x ∉ v) : splitOn (x :: sep) (joinWith (x :: sep) (w :: ws)) = w :: ws := by
  induction ws generalizing w with
  | nil =>
    have hw : splitOnFrom (x :: sep) 0 (w ++ []) = _ :=
      splitOnFrom_append (h w List.mem_cons_self)
    rw [List.append_nil, splitOnFrom, foldr_consHead_singleton, List.append_nil] at hw
    rw [joinWith, splitOn, hw]
  | cons v ws ih =>
    have hrest := ih fun u hu => h u (List.mem_cons_of_mem w hu)
    rw [splitOn] at hrest
    rw [joinWith_cons_cons, splitOn, List.append_assoc,
      splitOnFrom_append (h w List.mem_cons_self), splitOnFrom_separator, hrest,
      foldr_consHead_cons, List.append_nil]

theorem splitOn_cons (x c : Char) (r : Text) :
    splitOn [x] (c :: r) = if c = x then [] :: splitOn [x] r else consHead c (splitOn [x] r) := by
  by_cases h : c = x
  · subst h
    rw [if_pos rfl]
    exact (splitOnFrom_separator : splitOnFrom [c] 0 ([c] ++ r) = _)
  · rw [if_neg h, splitOn, splitOnFrom, startsWith_cons_eq_false (Ne.symm h), if_neg (by decide),
      splitOn]

theorem splitOn_ne_nil (x : Char) (s : Text) : splitOn [x] s ≠ [] := by
  induction s with
  | nil => exact List.cons_ne_nil _ _
  | cons c r ih =>
    rw [splitOn_cons]
    split
    · exact List.cons_ne_nil _ _
    · cases hp : splitOn [x] r <;> exact List.cons_ne_nil _ _

theorem joinWith_cons {sep p : Text} {ps : List Text} (h : ps ≠ []) :
    joinWith sep (p :: ps) = p ++ sep ++ joinWith sep ps := by
  cases ps with
  | nil => exact absurd rfl h
  | cons q ps => rfl

/-- Parts that grow at their front are joined to a text that does. -/
theorem joinWith_consHead (sep : Text) (c : Char) (ps : List Text) :
    joinWith sep (consHead c ps) = c :: joinWith sep ps := by
  match ps with
  | [] => rfl
  | [_] => rfl
  | _ :: _ :: _ => rfl

/-- Splitting at a character and joining again gives the text. -/
theorem joinWith_splitOn (x : Char) (s : Text) : joinWith [x] (splitOn [x] s) = s := by
  induction s with
  | nil => rfl
  | cons c r ih =>
    rw [splitOn_cons]
    split
    · rename_i hc
      rw [joinWith_cons (splitOn_ne_nil x r), ih, hc]
      rfl
    · rw [joinWith_consHead, ih]

/-- What does not hold a character of `p` does not start with `p`. -/
theorem dropStart?_of_notMem {p s : Text} {x : Char} (hx : x ∈ p) (h : x ∉ s) :
    dropStart? p s = none := by
  cases hd : dropStart? p s with
  | none => rfl
  | some r =>
    rw [dropStart?_eq_some_iff] at hd
    exact absurd (by rw [hd]; exact List.mem_append_left r hx) h

theorem dropStart?_of_head? {x c : Char} {p s : Text} (hs : s.head? = some c) (h : x ≠ c) :
    dropStart? (x :: p) s = none := by
  cases s with
  | nil => rfl
  | cons d s => rw [dropStart?, if_neg (Option.some.inj hs ▸ h)]

/-- The first separator is found after a text in which it does not occur. -/
theorem cut?_of_notMem {x : Char} {w r : Text} (h : x ∉ w) :
    cut? [x] (w ++ x :: r) = some (w, r) := by
  induction w with
  | nil => simp [cut?, dropStart?]
  | cons c w ih =>
    rw [List.mem_cons, not_or] at h
    have hc : dropStart? [x] (c :: (w ++ x :: r)) = none := by
      rw [dropStart?, if_neg h.1]
    rw [List.cons_append, cut?, hc]
    simp only [ih h.2, Option.map_some]

/-! ## Splitting at the top level

The same with a reader that keeps account of quotes and brackets. -/

/-- How many brackets are open after one more character, and where the reader stands with regard
to quotes. -/
def levelStep : Nat × QuoteState → Char → Nat × QuoteState
  | (depth, .plain), c =>
    if c = '"' then (depth, .quoted)
    else if isOpening c then (depth + 1, .plain)
    else if isClosing c then (depth - 1, .plain)
    else (depth, .plain)
  | (depth, q), c => (depth, q.step c)

/-- The level of brackets and quotes after a text. -/
def levelAfter (l : Nat × QuoteState) (s : Text) : Nat × QuoteState := s.foldl levelStep l

/-- No separator that counts starts inside `s`, where `r` follows. -/
def Passes (sep : Text) (l : Nat × QuoteState) (s r : Text) : Prop :=
  ∀ u v, s = u ++ v → v ≠ [] → levelAfter l u = (0, .plain) → startsWith sep (v ++ r) = false

theorem levelAfter_append (l : Nat × QuoteState) (s t : Text) :
    levelAfter l (s ++ t) = levelAfter (levelAfter l s) t :=
  List.foldl_append

theorem Passes.tail {sep : Text} {l : Nat × QuoteState} {c : Char} {s r : Text}
    (h : Passes sep l (c :: s) r) : Passes sep (levelStep l c) s r := by
  intro u v hs hv hl
  exact h (c :: u) v (by rw [hs, List.cons_append]) hv hl

/-- Passing over one text and then over another is passing over both. -/
theorem Passes.append {sep : Text} {l : Nat × QuoteState} {s t r : Text}
    (hs : Passes sep l s (t ++ r)) (ht : Passes sep (levelAfter l s) t r) :
    Passes sep l (s ++ t) r := by
  intro u v huv hv hl
  rcases List.append_eq_append_iff.1 huv with ⟨w, hu, ht'⟩ | ⟨w, hs', hv'⟩
  · rw [hu, levelAfter_append] at hl
    exact ht w v ht' hv hl
  · by_cases hw : w = []
    · rw [hw, List.append_nil] at hs'
      rw [hw, List.nil_append] at hv'
      rw [← hs'] at hl
      exact ht [] v hv'.symm hv hl
    · rw [hv', List.append_assoc]
      exact hs u w hs' hw hl

/-- A text without the first character of the separator is passed over. -/
theorem passes_of_notMem {x : Char} {sep : Text} {s : Text} (h : x ∉ s)
    (l : Nat × QuoteState) (r : Text) : Passes (x :: sep) l s r := by
  intro u v hs hv _
  cases v with
  | nil => exact absurd rfl hv
  | cons c v =>
    refine startsWith_cons_eq_false ?_
    rintro rfl
    exact h (by simp [hs])

/-- At its end, a text is passed over that lacks any character of the separator. -/
theorem passes_nil_of_notMem {sep : Text} {x : Char} (hx : x ∈ sep) {s : Text} (h : x ∉ s)
    (l : Nat × QuoteState) : Passes sep l s [] := by
  intro u v hs _ _
  cases hv : startsWith sep (v ++ []) with
  | false => rfl
  | true =>
    obtain ⟨r, hr⟩ := startsWith_iff.1 hv
    rw [List.append_nil] at hr
    exact absurd (by simp [hs, hr, hx]) h

theorem passes_cons {sep : Text} {l : Nat × QuoteState} {c : Char} {s r : Text}
    (hl : l ≠ (0, .plain)) (h : Passes sep (levelStep l c) s r) : Passes sep l (c :: s) r := by
  intro u v hs hv hu
  cases u with
  | nil => exact absurd hu hl
  | cons d u =>
    rw [List.cons_append, List.cons.injEq] at hs
    rw [← hs.1] at hu
    exact h u v hs.2 hv hu

/-- What is passed over at the end of a text is passed over before a separator, too, if the first
character of the separator does not occur in the rest of it. -/
theorem Passes.before_separator {x : Char} {sep : Text} {l : Nat × QuoteState} {s : Text}
    (hx : x ∉ sep) (h : Passes (x :: sep) l s []) (r : Text) :
    Passes (x :: sep) l s (x :: sep ++ r) := by
  intro u v hs hv hl
  have hend := h u v hs hv hl
  rw [List.append_nil] at hend
  refine Bool.eq_false_iff.2 fun hstart => ?_
  obtain ⟨t, ht⟩ := startsWith_iff.1 hstart
  rcases List.append_eq_append_iff.1 ht with ⟨w, hsep, hw⟩ | ⟨w, hlong, -⟩
  · cases w with
    | nil =>
      rw [List.append_nil] at hsep
      rw [← hsep, startsWith_iff.2 ⟨[], (List.append_nil _).symm⟩] at hend
      exact Bool.noConfusion hend
    | cons d w =>
      -- the next separator would start inside this one
      rw [List.cons_append, List.cons_append, List.cons.injEq] at hw
      cases v with
      | nil => exact absurd rfl hv
      | cons c v =>
        rw [List.cons_append, List.cons.injEq] at hsep
        exact hx (by rw [hsep.2, hw.1]; simp)
  · rw [startsWith_iff.2 ⟨w, hlong⟩] at hend
    exact Bool.noConfusion hend

/-- What follows a text makes no difference to a separator of one character. -/
theorem Passes.before_any {x : Char} {l : Nat × QuoteState} {s : Text} (h : Passes [x] l s [])
    (r : Text) : Passes [x] l s r := by
  intro u v hs hv hl
  have hend := h u v hs hv hl
  cases v with
  | nil => exact absurd rfl hv
  | cons c v =>
    refine startsWith_cons_eq_false ?_
    rintro rfl
    have hstart : startsWith [x] (x :: v ++ []) = true := startsWith_iff.2 ⟨v ++ [], rfl⟩
    rw [hstart] at hend
    exact Bool.noConfusion hend

/-- What is passed over at the end of a text is passed over where the text ends earlier. -/
theorem Passes.left {sep : Text} {l : Nat × QuoteState} {s t : Text} (h : Passes sep l (s ++ t) []) :
    Passes sep l s [] := by
  intro u v hs hv hl
  have hlong := h u (v ++ t) (by rw [hs, List.append_assoc]) (by simp [hv]) hl
  refine Bool.eq_false_iff.2 fun hstart => ?_
  obtain ⟨r, hr⟩ := startsWith_iff.1 hstart
  rw [List.append_nil] at hr
  rw [startsWith_iff.2 ⟨r ++ t, by rw [hr, List.append_nil, List.append_assoc]⟩] at hlong
  exact Bool.noConfusion hlong

/-- A text is passed over character by character. -/
theorem passes_cons_iff {sep : Text} {l : Nat × QuoteState} {c : Char} {s r : Text} :
    Passes sep l (c :: s) r ↔
      (l = (0, .plain) → startsWith sep (c :: s ++ r) = false) ∧ Passes sep (levelStep l c) s r := by
  refine ⟨fun h => ⟨h [] (c :: s) rfl (List.cons_ne_nil c s), h.tail⟩, fun h => ?_⟩
  by_cases hl : l = (0, .plain)
  · refine Passes.append (s := [c]) ?_ h.2
    intro u v huv hv _
    rcases List.append_eq_singleton_iff.1 huv.symm with ⟨-, rfl⟩ | ⟨-, rfl⟩
    · exact h.1 hl
    · exact absurd rfl hv
  · exact passes_cons hl h.2

instance decidablePasses (sep r : Text) :
    (s : Text) → (l : Nat × QuoteState) → Decidable (Passes sep l s r)
  | [], _ => isTrue fun _ _ hs hv => absurd (List.append_eq_nil_iff.1 hs.symm).2 hv
  | c :: s, l =>
    have := decidablePasses sep r s (levelStep l c)
    decidable_of_iff _ passes_cons_iff.symm

theorem splitTopLevelFrom_cons {sep : Text} {l : Nat × QuoteState} {c : Char} {r : Text}
    (h : l = (0, .plain) → startsWith sep (c :: r) = false) :
    splitTopLevelFrom sep 0 l.1 l.2 (c :: r) =
      consHead c (splitTopLevelFrom sep 0 (levelStep l c).1 (levelStep l c).2 r) := by
  obtain ⟨depth, q⟩ := l
  cases q with
  | plain =>
    rw [splitTopLevelFrom, levelStep]
    split
    · rfl
    · split
      · rfl
      · split
        · rfl
        · split
          · rename_i hs
            have hd : depth = 0 := hs.1
            rw [h (by rw [hd])] at hs
            exact Bool.noConfusion hs.2
          · rfl
  | quoted => rfl
  | escaped => rfl

/-- What is passed over goes to the front of the first part. -/
theorem splitTopLevelFrom_append {sep : Text} {l : Nat × QuoteState} {s r : Text}
    (h : Passes sep l s r) :
    splitTopLevelFrom sep 0 l.1 l.2 (s ++ r) =
      s.foldr consHead (splitTopLevelFrom sep 0 (levelAfter l s).1 (levelAfter l s).2 r) := by
  induction s generalizing l with
  | nil => rfl
  | cons c s ih =>
    have hc : l = (0, .plain) → startsWith sep (c :: (s ++ r)) = false :=
      h [] (c :: s) rfl (List.cons_ne_nil c s)
    rw [List.cons_append, splitTopLevelFrom_cons hc, ih h.tail, List.foldr_cons]
    rfl

/-- A text in which no separator counts is one part. -/
theorem splitTopLevel_eq_singleton {sep s : Text} (h : Passes sep (0, .plain) s []) :
    splitTopLevel sep s = [s] := by
  have hs := splitTopLevelFrom_append h
  rw [List.append_nil] at hs
  rw [splitTopLevel, hs, splitTopLevelFrom, foldr_consHead_singleton, List.append_nil]

/-- The reader is at the top level again after the text. -/
def IsClosed (s : Text) : Prop := ∀ depth, levelAfter (depth, .plain) s = (depth, .plain)

theorem splitTopLevelFrom_skip {sep u r : Text} (depth : Nat) (q : QuoteState) :
    splitTopLevelFrom sep u.length depth q (u ++ r) = splitTopLevelFrom sep 0 depth q r := by
  induction u with
  | nil => rfl
  | cons c u ih =>
    rw [List.cons_append, List.length_cons, splitTopLevelFrom, ih]

/-- A character that is neither a quote nor a bracket. -/
def IsInert (c : Char) : Prop := c ≠ '"' ∧ isOpening c = false ∧ isClosing c = false

theorem levelStep_inert {c : Char} (h : IsInert c) (depth : Nat) :
    levelStep (depth, .plain) c = (depth, .plain) := by
  rw [levelStep, if_neg h.1, h.2.1, h.2.2]
  rfl

/-- Text without quotes and brackets leaves the level as it is. -/
theorem isClosed_of_inert {s : Text} (h : ∀ c ∈ s, IsInert c) : IsClosed s := by
  intro depth
  induction s with
  | nil => rfl
  | cons c s ih =>
    rw [levelAfter, List.foldl_cons, levelStep_inert (h c List.mem_cons_self)]
    exact ih fun d hd => h d (List.mem_cons_of_mem c hd)

/-- A text is inert in which neither quotes nor brackets occur. -/
theorem isInert_of_notMem {s : Text} (h : ∀ x ∈ ['"', '(', '{', '[', ')', '}', ']'], x ∉ s) :
    ∀ c ∈ s, IsInert c := by
  intro c hc
  have hne : ∀ x ∈ ['"', '(', '{', '[', ')', '}', ']'], c ≠ x := by
    rintro x hx rfl
    exact h c hx hc
  refine ⟨hne _ (by decide), ?_, ?_⟩
  · simp [isOpening, hne '(' (by decide), hne '{' (by decide), hne '[' (by decide)]
  · simp [isClosing, hne ')' (by decide), hne '}' (by decide), hne ']' (by decide)]

theorem IsClosed.append {s t : Text} (hs : IsClosed s) (ht : IsClosed t) : IsClosed (s ++ t) := by
  intro depth
  rw [levelAfter_append, hs, ht]

/-- What is closed stays so in parentheses. -/
theorem IsClosed.parenthesized {s : Text} (h : IsClosed s) : IsClosed ('(' :: (s ++ [')'])) := by
  intro depth
  have hopen : levelStep (depth, .plain) '(' = (depth + 1, .plain) := rfl
  rw [levelAfter, List.foldl_cons, hopen, ← levelAfter, levelAfter_append, h]
  rfl

theorem splitTopLevelFrom_separator {x : Char} {sep r : Text} (hx : IsInert x) :
    splitTopLevelFrom (x :: sep) 0 0 .plain (x :: sep ++ r) =
      [] :: splitTopLevelFrom (x :: sep) 0 0 .plain r := by
  have hs : startsWith (x :: sep) (x :: (sep ++ r)) = true := startsWith_iff.2 ⟨r, rfl⟩
  rw [List.cons_append, splitTopLevelFrom, if_neg hx.1, hx.2.1, hx.2.2, if_neg (by decide),
    if_neg (by decide), if_pos ⟨rfl, hs⟩, if_neg (by simp), List.length_cons, Nat.add_sub_cancel,
    splitTopLevelFrom_skip]

theorem splitTopLevelFrom_ne_nil (sep s : Text) (skip depth : Nat) (q : QuoteState) :
    splitTopLevelFrom sep skip depth q s ≠ [] := by
  have hcons : ∀ c ps, consHead c ps ≠ [] := fun c ps => by
    cases ps <;> exact List.cons_ne_nil _ _
  fun_induction splitTopLevelFrom sep skip depth q s <;>
    first
      | exact hcons _ _
      | exact List.cons_ne_nil _ _
      | assumption

theorem consHead_append {ps : List Text} (h : ps ≠ []) (c : Char) (qs : List Text) :
    consHead c (ps ++ qs) = consHead c ps ++ qs := by
  cases ps with
  | nil => exact absurd rfl h
  | cons p ps => rfl

/-- The first part begins with what is passed over. -/
theorem exists_splitTopLevel_append {sep s r : Text} (h : Passes sep (0, .plain) s r) :
    ∃ p ps, splitTopLevel sep (s ++ r) = (s ++ p) :: ps := by
  rw [splitTopLevel, splitTopLevelFrom_append h]
  cases hps : splitTopLevelFrom sep 0 (levelAfter (0, .plain) s).1 (levelAfter (0, .plain) s).2 r with
  | nil => exact absurd hps (splitTopLevelFrom_ne_nil _ _ _ _ _)
  | cons p ps => exact ⟨p, ps, foldr_consHead_cons s p ps⟩

/-- At the top level a separator splits the text in two, whatever stands around it.  Its first
character does not occur in the rest of it, so separators do not overlap. -/
theorem splitTopLevelFrom_append_separator {x : Char} {sep : Text}
    (hinert : ∀ c ∈ x :: sep, IsInert c) (hx : x ∉ sep) {l : Nat × QuoteState} {u : Text}
    (hl : levelAfter l u = (0, .plain)) (v : Text) :
    splitTopLevelFrom (x :: sep) 0 l.1 l.2 (u ++ (x :: sep ++ v)) =
      splitTopLevelFrom (x :: sep) 0 l.1 l.2 u ++ splitTopLevelFrom (x :: sep) 0 0 .plain v := by
  match u with
  | [] =>
    obtain rfl : l = (0, .plain) := hl
    exact splitTopLevelFrom_separator (hinert x List.mem_cons_self)
  | c :: u =>
    by_cases hsep : l = (0, .plain) ∧ startsWith (x :: sep) (c :: (u ++ (x :: sep ++ v))) = true
    · -- a separator starts here already, and ends before the one at hand starts
      obtain ⟨rfl, hstart⟩ := hsep
      obtain ⟨r, hr⟩ := startsWith_iff.1 hstart
      obtain ⟨rfl, hr⟩ := List.cons.inj hr
      obtain ⟨w, rfl⟩ : ∃ w, u = sep ++ w := by
        rcases List.append_eq_append_iff.1 hr with ⟨w, hsep, hw⟩ | ⟨w, hu, -⟩
        · cases w with
          | nil => exact ⟨[], by rw [hsep, List.append_nil, List.append_nil]⟩
          | cons d w =>
            rw [List.cons_append, List.cons_append, List.cons.injEq] at hw
            exact absurd (by rw [hsep, hw.1]; simp) hx
        · exact ⟨w, hu⟩
      have hw : levelAfter (0, .plain) w = (0, .plain) := by
        rw [← List.cons_append, levelAfter_append, isClosed_of_inert hinert] at hl
        exact hl
      have hrest := splitTopLevelFrom_append_separator hinert hx hw v
      have hc := hinert c List.mem_cons_self
      show splitTopLevelFrom (c :: sep) 0 0 .plain ((c :: sep ++ w) ++ (c :: sep ++ v)) =
        splitTopLevelFrom (c :: sep) 0 0 .plain (c :: sep ++ w) ++ _
      rw [List.append_assoc, splitTopLevelFrom_separator hc, hrest, splitTopLevelFrom_separator hc,
        List.cons_append]
    · have hlong : l = (0, .plain) → startsWith (x :: sep) (c :: (u ++ (x :: sep ++ v))) = false :=
        fun h => Bool.eq_false_iff.2 fun hs => hsep ⟨h, hs⟩
      have hshort : l = (0, .plain) → startsWith (x :: sep) (c :: u) = false := by
        refine fun h => Bool.eq_false_iff.2 fun hs => ?_
        obtain ⟨r, hr⟩ := startsWith_iff.1 hs
        refine hsep ⟨h, startsWith_iff.2 ⟨r ++ (x :: sep ++ v), ?_⟩⟩
        rw [← List.cons_append, hr, List.append_assoc]
      have hrest := splitTopLevelFrom_append_separator hinert hx (l := levelStep l c) hl v
      rw [List.cons_append, splitTopLevelFrom_cons hlong, splitTopLevelFrom_cons hshort, hrest,
        consHead_append (splitTopLevelFrom_ne_nil _ _ _ _ _)]
termination_by u.length
decreasing_by
  · subst_vars
    simp only [List.length_cons, List.length_append]
    omega
  · simp only [List.length_cons]
    omega

/-- Parts that are joined are found again if all but the last are closed and passed over where a
separator follows, and the last is passed over at the end. -/
theorem splitTopLevel_joinWith_concat {x : Char} {sep v : Text} {ws : List Text} (hx : IsInert x)
    (h : ∀ w ∈ ws, IsClosed w ∧ ∀ r, Passes (x :: sep) (0, .plain) w (x :: sep ++ r))
    (hv : Passes (x :: sep) (0, .plain) v []) :
    splitTopLevel (x :: sep) (joinWith (x :: sep) (ws ++ [v])) = ws ++ [v] := by
  induction ws with
  | nil => exact splitTopLevel_eq_singleton hv
  | cons w ws ih =>
    obtain ⟨hclosed, hpass⟩ := h w List.mem_cons_self
    have hrest := ih fun u hu => h u (List.mem_cons_of_mem w hu)
    rw [splitTopLevel] at hrest
    have hw := splitTopLevelFrom_append (hpass (joinWith (x :: sep) (ws ++ [v])))
    rw [hclosed, splitTopLevelFrom_separator hx, hrest, foldr_consHead_cons, List.append_nil,
      ← List.append_assoc] at hw
    rw [List.cons_append, joinWith_cons (by simp)]
    exact hw

/-- Closed parts that are joined are found again, each passed over where a separator follows. -/
theorem splitTopLevel_joinWith {x : Char} {sep w : Text} {ws : List Text} (hx : IsInert x)
    (hclosed : ∀ v ∈ w :: ws, IsClosed v)
    (hpass : ∀ v ∈ w :: ws, Passes (x :: sep) (0, .plain) v [] ∧
      ∀ r, Passes (x :: sep) (0, .plain) v (x :: sep ++ r)) :
    splitTopLevel (x :: sep) (joinWith (x :: sep) (w :: ws)) = w :: ws := by
  obtain ⟨init, last, hlast⟩ := (List.eq_nil_or_concat (w :: ws)).resolve_left (List.cons_ne_nil w ws)
  rw [List.concat_eq_append] at hlast
  rw [hlast] at hclosed hpass ⊢
  exact splitTopLevel_joinWith_concat hx
    (fun v hv => ⟨hclosed v (List.mem_append_left _ hv), (hpass v (List.mem_append_left _ hv)).2⟩)
    (hpass last (by simp)).1

end TableSync
