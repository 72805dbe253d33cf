import TableSync.Proofs.Expr.Tokens

/-!
# How a text is divided into tokens

`Fold.tokens?` reads a text character by character, with the digits of an integer kept aside.
`Fold.Lexes` says what is read by itself: blanks separate tokens, an integer is a run of digits that
no digit follows, and every other token is the longest mark that starts where it stands.  That is
how the documentation puts it, and a mark is the longest exactly if it is not the first character of
one of two characters.

* `Fold.Token.mark_cases` says that a token is an integer or is written with one or two characters,
  and `Fold.Token.isLongestIn_single_iff` and `Fold.Token.isLongestIn_double` when such a mark is
  the longest.
* `Fold.Lexes.tokens?_eq` and `Fold.lexes_of_tokensFrom` are the two directions of
  `Fold.tokens?_eq_some_iff`, which says that both are the same.  The second goes by induction on
  the text, with the digits that have been read so far put in front of it (`Fold.Lexes.of_emit`).
* `Fold.Lexes.exists_append` cuts a text where its tokens are cut.
* `Fold.Lexes.char` says which characters a text can have that has tokens, so that a text with
  another character is known to have none.
-/

set_option autoImplicit false

namespace TableSync.Fold

/-! ## Marks -/

/-- How a token is written that is no integer. -/
def Token.mark : Token → Text
  | .int _ => []
  | .question => "?".toList
  | .colon => ":".toList
  | .and => "&&".toList
  | .or => "||".toList
  | .eq => "==".toList
  | .ne => "!=".toList
  | .ge => ">=".toList
  | .le => "<=".toList
  | .gt => ">".toList
  | .lt => "<".toList
  | .plus => "+".toList
  | .minus => "-".toList
  | .star => "*".toList
  | .slash => "/".toList
  | .opening => "(".toList
  | .closing => ")".toList

/-- No longer mark than that of the token starts a text. -/
def Token.IsLongestIn (t : Token) (s : Text) : Prop :=
  ∀ u : Token, startsWith u.mark s = true → u.mark.length ≤ t.mark.length

/-- The tokens of a text. -/
inductive Lexes : Text → List Token → Prop
  | nil : Lexes [] []
  | blank {c : Char} {s : Text} {ts : List Token} (hc : isBlank c = true) (h : Lexes s ts) :
      Lexes (c :: s) ts
  | int {d s : Text} {n : Int} {ts : List Token} (hd : ∀ c ∈ d, isAsciiDigit c = true)
      (hs : ∀ c ∈ s.head?, isAsciiDigit c = false) (hn : readInt? d = some n) (h : Lexes s ts) :
      Lexes (d ++ s) (.int n :: ts)
  | mark {t : Token} {s : Text} {ts : List Token} (ht : t.mark ≠ [])
      (hlongest : t.IsLongestIn (t.mark ++ s)) (h : Lexes s ts) : Lexes (t.mark ++ s) (t :: ts)

theorem Token.mark_of_single? {c : Char} {t : Token} (h : single? c = some t) : t.mark = [c] := by
  unfold single? at h
  split at h <;> simp only [reduceCtorEq, Option.some.injEq] at h <;> subst h <;> rfl

theorem Token.mark_of_double? {c d : Char} {t : Token} (h : double? c d = some t) :
    t.mark = [c, d] := by
  unfold double? at h
  split at h <;> simp only [reduceCtorEq, Option.some.injEq] at h <;> subst h <;> rfl

theorem Token.length_mark_le (t : Token) : t.mark.length ≤ 2 := by
  cases t <;> simp [mark]

/-- A token is an integer, or it is written with one character or with two. -/
theorem Token.mark_cases (t : Token) :
    (∃ n, t = .int n) ∨ (∃ c, t.mark = [c] ∧ single? c = some t) ∨
      ∃ c d, t.mark = [c, d] ∧ double? c d = some t := by
  cases t
  case int n => exact .inl ⟨n, rfl⟩
  case and | or | eq | ne | ge | le => exact .inr (.inr ⟨_, _, rfl, rfl⟩)
  all_goals exact .inr (.inl ⟨_, rfl, rfl⟩)

/-- A mark of one character is the longest exactly if it is not the first of two. -/
theorem Token.isLongestIn_single_iff {c : Char} {t : Token} (ht : t.mark = [c]) (s : Text) :
    t.IsLongestIn (c :: s) ↔ ∀ d ∈ s.head?, double? c d = none := by
  constructor
  · intro h d hd
    obtain ⟨s, rfl⟩ : ∃ r, s = d :: r := by
      cases s with
      | nil => exact absurd hd (by simp)
      | cons e r => exact ⟨r, by simpa using hd⟩
    by_contra hsome
    obtain ⟨u, hu⟩ := Option.ne_none_iff_exists'.1 hsome
    have hle := h u (by rw [Token.mark_of_double? hu]; exact startsWith_iff.2 ⟨s, rfl⟩)
    rw [Token.mark_of_double? hu, ht] at hle
    exact absurd hle (by simp)
  · intro h u hu
    obtain ⟨r, hr⟩ := startsWith_iff.1 hu
    rcases u.mark_cases with ⟨n, rfl⟩ | ⟨x, hx, -⟩ | ⟨x, y, hxy, hdouble⟩
    · exact Nat.zero_le _
    · rw [hx, ht]
      exact Nat.le_refl _
    · rw [hxy, List.cons_append, List.cons.injEq] at hr
      obtain ⟨rfl, rfl⟩ := hr
      rw [h y rfl] at hdouble
      exact absurd hdouble (by simp)

theorem Token.isLongestIn_double {c d : Char} {t : Token} (ht : t.mark = [c, d]) (s : Text) :
    t.IsLongestIn s := fun u _ => ht ▸ u.length_mark_le

/-! ## The tokens that are read -/

/-- A mark starts neither with a digit nor with a blank. -/
theorem isMark_of_single? {c : Char} {t : Token} (h : single? c = some t) :
    isAsciiDigit c = false ∧ isBlank c = false := by
  unfold single? at h
  split at h <;> first | decide | exact absurd h (by simp)

theorem isMark_of_double? {c d : Char} {t : Token} (h : double? c d = some t) :
    isAsciiDigit c = false ∧ isBlank c = false := by
  unfold double? at h
  split at h <;> first | decide | exact absurd h (by simp)

theorem tokens?_single {c : Char} {t : Token} {s : Text} (ht : single? c = some t)
    (hs : ∀ d ∈ s.head?, double? c d = none) : tokens? (c :: s) = (tokens? s).map (t :: ·) := by
  have hmark := isMark_of_single? ht
  cases s with
  | nil => simp [tokens?, tokensFrom, emit, hmark, ht]
  | cons d s => simp [tokens?, tokensFrom, emit, hmark, ht, hs d rfl]

theorem tokens?_double {c d : Char} {t : Token} (ht : double? c d = some t) (s : Text) :
    tokens? (c :: d :: s) = (tokens? s).map (t :: ·) := by
  have hmark := isMark_of_double? ht
  simp [tokens?, tokensFrom, emit, hmark, ht]

theorem Lexes.tokens?_eq {s : Text} {ts : List Token} (h : Lexes s ts) : tokens? s = some ts := by
  induction h with
  | nil => rfl
  | @blank c s ts hc _ ih =>
    rw [← List.singleton_append, tokens?_blanks_append (by simpa using hc), ih]
  | int hd hs hn _ ih => rw [tokens?_digits_append hd hn hs, ih]; rfl
  | @mark t s ts ht hlongest _ ih =>
    rcases t.mark_cases with ⟨n, rfl⟩ | ⟨c, hc, hsingle⟩ | ⟨c, d, hcd, hdouble⟩
    · exact absurd rfl ht
    · rw [hc, List.singleton_append] at hlongest ⊢
      rw [tokens?_single hsingle ((Token.isLongestIn_single_iff hc s).1 hlongest), ih]
      rfl
    · rw [hcd, List.cons_append, List.singleton_append, tokens?_double hdouble, ih]
      rfl

theorem Lexes.of_single {c : Char} {t : Token} {s : Text} {ts : List Token}
    (ht : single? c = some t) (hs : ∀ d ∈ s.head?, double? c d = none) (h : Lexes s ts) :
    Lexes (c :: s) (t :: ts) := by
  have hmark := Token.mark_of_single? ht
  have hlexes := Lexes.mark (t := t) (s := s) (by simp [hmark])
    (by rw [hmark]; exact (Token.isLongestIn_single_iff hmark s).2 hs) h
  rwa [hmark] at hlexes

theorem Lexes.of_double {c d : Char} {t : Token} {s : Text} {ts : List Token}
    (ht : double? c d = some t) (h : Lexes s ts) : Lexes (c :: d :: s) (t :: ts) := by
  have hmark := Token.mark_of_double? ht
  have hlexes := Lexes.mark (t := t) (s := s) (by simp [hmark])
    (Token.isLongestIn_double hmark _) h
  rwa [hmark] at hlexes

/-- The digits that have been read, last first, make up an integer before what follows them. -/
theorem Lexes.of_emit {digits s : Text} {rest : Option (List Token)} {ts : List Token}
    (hdigits : ∀ c ∈ digits, isAsciiDigit c = true) (hs : ∀ c ∈ s.head?, isAsciiDigit c = false)
    (h : emit digits rest = some ts) (hrest : ∀ us, rest = some us → Lexes s us) :
    Lexes (digits.reverse ++ s) ts := by
  rw [emit] at h
  split at h
  · rename_i hempty
    obtain rfl := List.isEmpty_iff.1 hempty
    exact hrest ts h
  · simp only [Option.bind_eq_bind, Option.bind_eq_some_iff] at h
    obtain ⟨n, hn, us, hus, heq⟩ := h
    obtain rfl := Option.some.inj heq
    exact .int (by simpa using hdigits) hs hn (hrest us hus)

theorem lexes_of_tokensFrom : ∀ (digits s : Text) (ts : List Token),
    (∀ c ∈ digits, isAsciiDigit c = true) → tokensFrom digits s = some ts →
      Lexes (digits.reverse ++ s) ts
  | digits, [], ts, hdigits, h => .of_emit hdigits (by simp) h fun us hus => by
    obtain rfl := Option.some.inj hus
    exact .nil
  | digits, [c], ts, hdigits, h => by
    have hnil : ∀ us, some [] = some us → Lexes [] us := by
      rintro us hus
      obtain rfl := Option.some.inj hus
      exact .nil
    rw [tokensFrom] at h
    -- The last character may be a digit, a blank or a mark of one character.
    split at h
    · rename_i hc
      have hlexes := Lexes.of_emit (s := []) (by simpa [hc] using hdigits) (by simp) h hnil
      simpa using hlexes
    · rename_i hc
      have hend : ∀ d ∈ ([c] : Text).head?, isAsciiDigit d = false := by simpa using hc
      split at h
      · rename_i hblank
        exact .of_emit hdigits hend h fun us hus => .blank hblank (hnil us hus)
      · refine .of_emit hdigits hend h fun us hus => ?_
        obtain ⟨t, ht, rfl⟩ := Option.map_eq_some_iff.1 hus
        exact .of_single ht (by simp) .nil
  | digits, c :: d :: s, ts, hdigits, h => by
    rw [tokensFrom] at h
    split at h
    · rename_i hc
      have hlexes := lexes_of_tokensFrom (c :: digits) (d :: s) ts (by simpa [hc] using hdigits) h
      simpa using hlexes
    · rename_i hc
      have hend : ∀ x ∈ (c :: d :: s).head?, isAsciiDigit x = false := by simpa using hc
      split at h
      · rename_i hblank
        exact .of_emit hdigits hend h fun us hus =>
          .blank hblank (lexes_of_tokensFrom [] (d :: s) us (by simp) hus)
      -- A mark of two characters is tried first, which is what `IsLongestIn` asks of the mark.
      · split at h
        · rename_i t ht
          refine .of_emit hdigits hend h fun us hus => ?_
          obtain ⟨vs, hvs, rfl⟩ := Option.map_eq_some_iff.1 hus
          exact .of_double ht (lexes_of_tokensFrom [] s vs (by simp) hvs)
        · rename_i hnone
          split at h
          · rename_i t ht
            refine .of_emit hdigits hend h fun us hus => ?_
            obtain ⟨vs, hvs, rfl⟩ := Option.map_eq_some_iff.1 hus
            exact .of_single ht (by simpa using hnone)
              (lexes_of_tokensFrom [] (d :: s) vs (by simp) hvs)
          · exact absurd h (by simp)

/-- **The tokens that are read are those into which the text is divided.** -/
theorem tokens?_eq_some_iff {s : Text} {ts : List Token} : tokens? s = some ts ↔ Lexes s ts :=
  ⟨fun h => lexes_of_tokensFrom [] s ts (by simp) h, Lexes.tokens?_eq⟩

/-! ## Characters and parts -/

/-- The characters that marks are written with. -/
def markCharacters : Text := "?:&|=!<>+-*/()".toList

theorem Token.mem_markCharacters (t : Token) : ∀ c ∈ t.mark, c ∈ markCharacters := by
  cases t
  case int => simp [mark]
  all_goals decide

theorem isWordChar_markCharacters : ∀ c ∈ markCharacters, isWordChar c = false := by
  decide

/-- A text that has tokens consists of blanks, digits and characters of marks. -/
theorem Lexes.char {s : Text} {ts : List Token} (h : Lexes s ts) :
    ∀ c ∈ s, isBlank c = true ∨ isAsciiDigit c = true ∨ c ∈ markCharacters := by
  induction h with
  | nil => simp
  | blank hc _ ih =>
    intro d hd
    rcases List.mem_cons.1 hd with rfl | hd
    · exact .inl hc
    · exact ih d hd
  | int hd _ _ _ ih =>
    intro c hc
    rcases List.mem_append.1 hc with hc | hc
    · exact .inr (.inl (hd c hc))
    · exact ih c hc
  | mark _ _ _ ih =>
    intro c hc
    rcases List.mem_append.1 hc with hc | hc
    · exact .inr (.inr (Token.mem_markCharacters _ c hc))
    · exact ih c hc

/-- Where the tokens of a text are cut, the text can be cut. -/
theorem Lexes.exists_append {s : Text} {us vs : List Token} (h : Lexes s (us ++ vs)) :
    ∃ p r, s = p ++ r ∧ Lexes p us ∧ Lexes r vs := by
  generalize hts : us ++ vs = ts at h
  induction h generalizing us with
  | nil =>
    obtain ⟨rfl, rfl⟩ := List.append_eq_nil_iff.1 hts
    exact ⟨[], [], rfl, .nil, .nil⟩
  | @blank c _ _ hc _ ih =>
    obtain ⟨p, r, rfl, hp, hr⟩ := ih hts
    exact ⟨c :: p, r, rfl, .blank hc hp, hr⟩
  | @int d _ _ _ hd hs hn h ih =>
    cases us with
    | nil =>
      rw [List.nil_append] at hts
      exact ⟨[], _, rfl, .nil, hts ▸ .int hd hs hn h⟩
    | cons u us =>
      rw [List.cons_append, List.cons.injEq] at hts
      obtain ⟨rfl, hts⟩ := hts
      obtain ⟨p, r, rfl, hp, hr⟩ := ih hts
      refine ⟨d ++ p, r, (List.append_assoc d p r).symm, .int hd (fun c hc => hs c ?_) hn hp, hr⟩
      rw [List.head?_append, Option.mem_def.1 hc, Option.some_or, Option.mem_def]
  | @mark t _ _ ht hlongest h ih =>
    cases us with
    | nil =>
      rw [List.nil_append] at hts
      exact ⟨[], _, rfl, .nil, hts ▸ .mark ht hlongest h⟩
    | cons u us =>
      rw [List.cons_append, List.cons.injEq] at hts
      obtain ⟨rfl, hts⟩ := hts
      obtain ⟨p, r, rfl, hp, hr⟩ := ih hts
      refine ⟨u.mark ++ p, r, (List.append_assoc _ p r).symm, .mark ht (fun w hw => hlongest w ?_) hp,
        hr⟩
      obtain ⟨x, hx⟩ := startsWith_iff.1 hw
      exact startsWith_iff.2 ⟨x ++ r, by rw [← List.append_assoc, ← List.append_assoc, hx]⟩

end TableSync.Fold
