import TableSync.Json.Parser
import TableSync.Proofs.Text.Word

/-!
# The tokens of a printed tree

A tree is printed over several lines.  Between its tokens are blanks and line ends only, so that the
lexer gives back the tokens of which it is made.

* `Json.tokens` are the tokens of a tree, defined by recursion on it together with those of its
  items and members, which have commas between them.
* `lexFrom_space`, `lexFrom_newLine` and `lexFrom_punctuation` are about what stands between strings
  and integers.
* `lexFrom_quote` is about a string: each character is read from what it is written as, be it
  itself, an escape or four hexadecimal digits.  What follows the string makes no difference.
* `lexFrom_showInt` is about an integer, which ends where its characters end, so it asks for a rest
  that starts with none of them (`CanFollow`).  Only integers of 64 bits are read.
* `lexFrom_pretty` is about trees, by the recursion of the printer and for every indentation and
  every rest that a tree can have behind it.
* `lex_document` is the whole text of a document.
-/

set_option autoImplicit false

namespace TableSync.Json

mutual

/-- The tokens of a tree. -/
def tokens : Json → List Token
  | .null => [.null]
  | .num n => [.num n]
  | .str s => [.str s]
  | .arr items => .openList :: itemTokens items ++ [.closeList]
  | .obj members => .openObject :: memberTokens members ++ [.closeObject]
termination_by structural j => j

/-- The tokens of items, with commas between them. -/
def itemTokens : List Json → List Token
  | [] => []
  | j :: js => tokens j ++ (if js.isEmpty then [] else .comma :: itemTokens js)
termination_by structural js => js

/-- The tokens of members, with commas between them. -/
def memberTokens : List (String × Json) → List Token
  | [] => []
  | (k, j) :: ms =>
    .str k :: .colon :: tokens j ++ (if ms.isEmpty then [] else .comma :: memberTokens ms)
termination_by structural ms => ms

end

mutual

/-- All integers in a tree have 64 bits. -/
def AreInt64 : Json → Prop
  | .null => True
  | .num n => IsInt64 n
  | .str _ => True
  | .arr items => AreInt64Items items
  | .obj members => AreInt64Members members
termination_by structural j => j

/-- All integers in some items have 64 bits. -/
def AreInt64Items : List Json → Prop
  | [] => True
  | j :: js => j.AreInt64 ∧ AreInt64Items js
termination_by structural js => js

/-- All integers in some members have 64 bits. -/
def AreInt64Members : List (String × Json) → Prop
  | [] => True
  | (_, j) :: ms => j.AreInt64 ∧ AreInt64Members ms
termination_by structural ms => ms

end

/-! ## Between tokens -/

theorem lexFrom_space {c : Char} (hc : isSpace c = true) (r : Text) :
    lexFrom .between (c :: r) = lexFrom .between r := by
  simp only [isSpace, Bool.or_eq_true, decide_eq_true_eq] at hc
  rcases hc with ((rfl | rfl) | rfl) | rfl <;> rfl

theorem lexFrom_punctuation {c : Char} {t : Token} (hc : punctuation? c = some t) (r : Text) :
    lexFrom .between (c :: r) = (lexFrom .between r).map (t :: ·) := by
  unfold punctuation? at hc
  split at hc <;> first
    | (obtain rfl := Option.some.inj hc; rfl)
    | cases hc

/-- A new line is skipped. -/
theorem lexFrom_newLine (level : Nat) (r : Text) :
    lexFrom .between (newLine level ++ r) = lexFrom .between r := by
  have hblanks : ∀ n, lexFrom .between (List.replicate n ' ' ++ r) = lexFrom .between r := by
    intro n
    induction n with
    | zero => rfl
    | succ n ih =>
      rw [List.replicate_succ, List.cons_append, lexFrom_space rfl, ih]
  rw [newLine, List.cons_append, lexFrom_space rfl, hblanks]

/-! ## Strings -/

theorem hexValue?_hexDigit {n : Nat} (hn : n < 16) : hexValue? (hexDigit n) = some n := by
  have hall : ∀ n : Fin 16, hexValue? (hexDigit n) = some n := by decide
  exact hall ⟨n, hn⟩

/-- A control character is read from its four digits. -/
theorem lexFrom_hex {c : Char} (hc : c.toNat < 32) (read r : Text) :
    lexFrom (.string read) ('\\' :: 'u' :: '0' :: '0' :: hexDigit (c.toNat / 16) ::
      hexDigit (c.toNat % 16) :: r) = lexFrom (.string (c :: read)) r := by
  have hafter : afterHex read none ((0 * 16 + c.toNat / 16) * 16 + c.toNat % 16) =
      some (.string (c :: read)) := by
    rw [Nat.zero_mul, Nat.zero_add, Nat.div_add_mod', afterHex, if_neg (by omega),
      if_neg (by omega), Char.ofNat_toNat]
  show lexFrom (.hex read none 2 0) _ = _
  rw [lexFrom, hexValue?_hexDigit (by omega)]
  show lexFrom (.hex read none 1 (0 * 16 + c.toNat / 16)) _ = _
  rw [lexFrom, hexValue?_hexDigit (by omega)]
  simp only [hafter]
  rfl

/-- A character of a string is read from what it is written as. -/
theorem lexFrom_escapeChar (c : Char) (read r : Text) :
    lexFrom (.string read) (escapeChar c ++ r) = lexFrom (.string (c :: read)) r := by
  unfold escapeChar
  split
  all_goals try rfl
  next hquote hslash _ _ _ _ _ =>
    split
    · next hc => exact lexFrom_hex hc read r
    · next hc =>
      rw [List.singleton_append, lexFrom, if_neg hquote, if_neg hslash, if_neg hc]

theorem lexFrom_string (s read r : Text) :
    lexFrom (.string read) (s.flatMap escapeChar ++ '"' :: r) =
      (lexFrom .between r).map (.str (String.ofList (read.reverse ++ s)) :: ·) := by
  induction s generalizing read with
  | nil => rw [List.flatMap_nil, List.nil_append, lexFrom, if_pos rfl, List.append_nil]
  | cons c s ih =>
    rw [List.flatMap_cons, List.append_assoc, lexFrom_escapeChar, ih, List.reverse_cons,
      List.append_assoc, List.singleton_append]

/-- **A string is read from its quotes**, whatever its characters. -/
theorem lexFrom_quote (s : String) (r : Text) :
    lexFrom .between (quote s ++ r) = (lexFrom .between r).map (.str s :: ·) := by
  have hstring := lexFrom_string s.toList [] r
  rw [List.reverse_nil, List.nil_append, String.ofList_toList] at hstring
  rw [← hstring, quote, List.cons_append, List.cons_append, List.append_assoc]
  rfl

/-! ## Integers

The lexer takes all characters that a number can be written with, and then asks whether they are an
integer.  So the numeral has to be complete where it ends, which blanks and marks see to. -/

/-- The first digit of a number is no zero, unless it is the only one. -/
theorem head?_showNat_ne_zero {n : Nat} (hn : n ≠ 0) : (showNat n).head? ≠ some '0' := by
  induction n using Nat.strongRecOn with
  | ind n ih =>
    rw [showNat, Nat.toDigits_eq_if (by decide)]
    split
    · next hlt =>
      have hall : ∀ n : Fin 10, n.1 ≠ 0 → [Nat.digitChar n].head? ≠ some '0' := by decide
      exact hall ⟨n, hlt⟩ hn
    · next hge =>
      have hfirst := ih (n / 10) (by omega) (by omega)
      rw [showNat] at hfirst
      obtain ⟨c, s, hs⟩ := List.exists_cons_of_ne_nil (Nat.toDigits_ne_nil (n := n / 10) (b := 10))
      rw [hs] at hfirst ⊢
      exact hfirst

/-- A text that starts with another digit than zero is read as an integer. -/
theorem numeral?_of_head {c : Char} {s : Text} (hc : c ≠ '0') (hminus : c ≠ '-') (hplus : c ≠ '+') :
    numeral? (c :: s) = readInt? (c :: s) := by
  unfold numeral?
  split <;> simp_all

theorem numeral?_showInt {n : Int} (hn : IsInt64 n) : numeral? (showInt n) = some n := by
  have hread := readInt?_showInt hn
  cases n with
  | ofNat n =>
    by_cases hzero : n = 0
    · subst hzero
      rfl
    · rw [← hread, showInt]
      have hhead := head?_showNat_ne_zero hzero
      cases hs : showNat n with
      | nil => exact absurd hs (showNat_ne_nil n)
      | cons c s =>
        have hdigit : isAsciiDigit c = true :=
          isAsciiDigit_of_mem_showNat (hs ▸ List.mem_cons_self)
        refine numeral?_of_head ?_ ?_ ?_
        · rintro rfl
          exact hhead (by rw [hs]; rfl)
        · rintro rfl
          exact absurd hdigit (by decide)
        · rintro rfl
          exact absurd hdigit (by decide)
  | negSucc n =>
    rw [← hread, showInt]
    have hhead := head?_showNat_ne_zero (Nat.succ_ne_zero n)
    cases hs : showNat (n + 1) with
    | nil => exact absurd hs (showNat_ne_nil _)
    | cons c s =>
      have hc : c ≠ '0' := by
        rintro rfl
        exact hhead (by rw [hs]; rfl)
      unfold numeral?
      split <;> simp_all

/-- A character after which a numeral is complete. -/
def EndsNumeral (c : Char) : Prop := isSpace c = true ∨ (punctuation? c).isSome = true

theorem EndsNumeral.not_isNumeralChar {c : Char} (h : EndsNumeral c) : isNumeralChar c = false := by
  rcases h with h | h
  · simp only [isSpace, Bool.or_eq_true, decide_eq_true_eq] at h
    rcases h with ((rfl | rfl) | rfl) | rfl <;> rfl
  · unfold punctuation? at h
    split at h <;> first
      | rfl
      | cases h

theorem lexFrom_numeral_cons (read : Text) (c : Char) (r : Text) :
    lexFrom (.numeral read) (c :: r) =
      if isNumeralChar c then lexFrom (.numeral (c :: read)) r
      else
        match numeral? read.reverse with
        | none => none
        | some n =>
          if isSpace c then (lexFrom .between r).map (.num n :: ·)
          else
            match punctuation? c with
            | some t => (lexFrom .between r).map fun ts => .num n :: t :: ts
            | none => none := rfl

/-- A numeral ends where a blank or a punctuation mark follows. -/
theorem lexFrom_numeral {s : Text} (hs : ∀ c ∈ s, isNumeralChar c = true) {n : Int} {read : Text}
    (hn : numeral? (read.reverse ++ s) = some n) {c : Char} (hc : EndsNumeral c) (r : Text) :
    lexFrom (.numeral read) (s ++ c :: r) = (lexFrom .between (c :: r)).map (.num n :: ·) := by
  induction s generalizing read with
  | nil =>
    rw [List.append_nil] at hn
    rw [List.nil_append, lexFrom_numeral_cons, hc.not_isNumeralChar, hn]
    by_cases hspace : isSpace c = true
    · rw [lexFrom_space hspace, hspace]
      rfl
    · obtain ⟨t, ht⟩ := Option.isSome_iff_exists.1 (hc.resolve_left hspace)
      rw [lexFrom_punctuation ht, eq_false_of_ne_true hspace, ht, Option.map_map]
      rfl
  | cons d s ih =>
    rw [List.cons_append, lexFrom_numeral_cons, if_pos (hs d List.mem_cons_self)]
    refine ih (fun x hx => hs x (List.mem_cons_of_mem d hx)) ?_
    rw [List.reverse_cons, List.append_assoc]
    exact hn

theorem isNumeralChar_of_mem_showInt {n : Int} {c : Char} (hc : c ∈ showInt n) :
    isNumeralChar c = true := by
  rcases mem_showInt hc with hdigit | rfl
  · simp [isNumeralChar, hdigit]
  · rfl

/-- A numeral starts with a character of its own. -/
theorem lexFrom_between_numeral {c : Char} (hc : isNumeralChar c = true) (r : Text) :
    lexFrom .between (c :: r) = lexFrom (.numeral [c]) r := by
  have hn : c ≠ 'n' := by
    rintro rfl
    exact absurd hc (by decide)
  have hspace : ¬ isSpace c = true := by
    intro h
    rw [EndsNumeral.not_isNumeralChar (Or.inl h)] at hc
    exact Bool.noConfusion hc
  have hquote : c ≠ '"' := by
    rintro rfl
    exact absurd hc (by decide)
  rw [lexFrom, if_neg hspace, if_neg hquote, if_pos hc]
  rintro _ rfl
  exact absurd rfl hn

/-- A text after which a numeral is complete. -/
def CanFollow (r : Text) : Prop := ∃ c ∈ r.head?, EndsNumeral c

/-- **An integer is read from its numeral.** -/
theorem lexFrom_showInt {n : Int} (hn : IsInt64 n) {r : Text} (hr : CanFollow r) :
    lexFrom .between (showInt n ++ r) = (lexFrom .between r).map (.num n :: ·) := by
  obtain ⟨c, hhead, hc⟩ := hr
  obtain ⟨r, rfl⟩ := List.head?_eq_some_iff.1 hhead
  have hnumeral := numeral?_showInt hn
  have hchars := fun d => isNumeralChar_of_mem_showInt (n := n) (c := d)
  cases hs : showInt n with
  | nil => exact absurd hs (showInt_ne_nil n)
  | cons d s =>
    rw [hs] at hnumeral hchars
    rw [List.cons_append, lexFrom_between_numeral (hchars d List.mem_cons_self)]
    exact lexFrom_numeral (fun x hx => hchars x (List.mem_cons_of_mem d hx))
      (show numeral? ([d].reverse ++ s) = some n from hnumeral) hc r

/-! ## Trees -/

theorem canFollow_newLine (level : Nat) (r : Text) : CanFollow (newLine level ++ r) :=
  ⟨'\n', rfl, Or.inl rfl⟩

theorem canFollow_punctuation {c : Char} (hc : (punctuation? c).isSome = true) (r : Text) :
    CanFollow (c :: r) :=
  ⟨c, rfl, Or.inr hc⟩

mutual

/-- **The tokens of a printed tree are those of the tree.** -/
theorem lexFrom_pretty : ∀ (j : Json) (level : Nat), j.AreInt64 → ∀ {r : Text}, CanFollow r →
    lexFrom .between (pretty level j ++ r) = (lexFrom .between r).map (tokens j ++ ·)
  | .null, _, _, _, _ => rfl
  | .num _, _, hn, _, hr => lexFrom_showInt hn hr
  | .str s, _, _, r, _ => lexFrom_quote s r
  | .arr [], _, _, _, _ => by
    rw [pretty, List.isEmpty_nil, if_pos rfl]
    simp only [List.cons_append, List.nil_append, lexFrom_punctuation (c := '[') rfl,
      lexFrom_punctuation (c := ']') rfl, Option.map_map]
    rfl
  | .arr (j :: js), level, hjs, r, _ => by
    have hitems := lexFrom_prettyItems (j :: js) (level + 1) hjs
      (canFollow_newLine level (']' :: r))
    rw [lexFrom_newLine, lexFrom_punctuation rfl] at hitems
    rw [pretty, List.isEmpty_cons, if_neg Bool.false_ne_true]
    simp only [List.cons_append, List.append_assoc, List.nil_append] at hitems ⊢
    rw [lexFrom_punctuation rfl, hitems, Option.map_map, Option.map_map]
    simp [tokens, Function.comp_def]
  | .obj [], _, _, _, _ => by
    rw [pretty, List.isEmpty_nil, if_pos rfl]
    simp only [List.cons_append, List.nil_append, lexFrom_punctuation (c := '\x7b') rfl,
      lexFrom_punctuation (c := '\x7d') rfl, Option.map_map]
    rfl
  | .obj (m :: ms), level, hms, r, _ => by
    have hmembers := lexFrom_prettyMembers (m :: ms) (level + 1) hms
      (canFollow_newLine level ('\x7d' :: r))
    rw [lexFrom_newLine, lexFrom_punctuation rfl] at hmembers
    rw [pretty, List.isEmpty_cons, if_neg Bool.false_ne_true]
    simp only [List.cons_append, List.append_assoc, List.nil_append] at hmembers ⊢
    rw [lexFrom_punctuation rfl, hmembers, Option.map_map, Option.map_map]
    simp [tokens, Function.comp_def]

theorem lexFrom_prettyItems : ∀ (js : List Json) (level : Nat), AreInt64Items js →
    ∀ {r : Text}, CanFollow r → lexFrom .between (prettyItems level js ++ r) =
      (lexFrom .between r).map (itemTokens js ++ ·)
  | [], _, _, r, _ => by simp [prettyItems, itemTokens]
  | [j], level, hj, r, hr => by
    have hitem := lexFrom_pretty j level hj.1 hr
    simp only [prettyItems, itemTokens, List.isEmpty_nil, if_true, List.append_nil,
      List.append_assoc, lexFrom_newLine]
    exact hitem
  | j :: j' :: js, level, hjs, r, hr => by
    have hitem := lexFrom_pretty j level hjs.1
      (canFollow_punctuation (c := ',') rfl (prettyItems level (j' :: js) ++ r))
    rw [lexFrom_punctuation rfl, lexFrom_prettyItems (j' :: js) level hjs.2 hr] at hitem
    rw [prettyItems, List.isEmpty_cons, if_neg Bool.false_ne_true]
    simp only [List.cons_append, List.append_assoc] at hitem ⊢
    rw [lexFrom_newLine, hitem, Option.map_map, Option.map_map]
    simp [itemTokens, Function.comp_def]

theorem lexFrom_prettyMembers : ∀ (ms : List (String × Json)) (level : Nat), AreInt64Members ms →
    ∀ {r : Text}, CanFollow r → lexFrom .between (prettyMembers level ms ++ r) =
      (lexFrom .between r).map (memberTokens ms ++ ·)
  | [], _, _, r, _ => by simp [prettyMembers, memberTokens]
  | [(k, j)], level, hj, r, hr => by
    have hvalue := lexFrom_pretty j level hj.1 hr
    rw [prettyMembers, List.isEmpty_nil, if_pos rfl]
    simp only [List.cons_append, List.append_assoc, List.nil_append]
    rw [lexFrom_newLine, lexFrom_quote, lexFrom_punctuation rfl, lexFrom_space rfl, hvalue,
      Option.map_map, Option.map_map]
    simp [memberTokens, Function.comp_def]
  | (k, j) :: m :: ms, level, hms, r, hr => by
    have hvalue := lexFrom_pretty j level hms.1
      (canFollow_punctuation (c := ',') rfl (prettyMembers level (m :: ms) ++ r))
    rw [lexFrom_punctuation rfl, lexFrom_prettyMembers (m :: ms) level hms.2 hr] at hvalue
    rw [prettyMembers, List.isEmpty_cons, if_neg Bool.false_ne_true]
    simp only [List.cons_append, List.append_assoc] at hvalue ⊢
    rw [lexFrom_newLine, lexFrom_quote, lexFrom_punctuation rfl, lexFrom_space rfl, hvalue,
      Option.map_map, Option.map_map, Option.map_map, Option.map_map]
    simp [memberTokens, Function.comp_def]

end

/-- A tree that is printed on lines of its own is read as its tokens. -/
theorem lex_document {j : Json} (hj : j.AreInt64) :
    lex (pretty 0 j ++ ['\n']) = some (tokens j) := by
  have hend : CanFollow ['\n'] := canFollow_newLine 0 []
  rw [lex, lexFrom_pretty j 0 hj hend, lexFrom_space rfl]
  simp [lexFrom]

end TableSync.Json
