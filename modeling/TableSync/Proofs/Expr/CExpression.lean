import TableSync.Proofs.Expr.Literal

/-!
# The value of a C expression

What is written into a table is an expression of the C language.  This module gives such a text the
value that C gives it, over integers of any size: names stand for the integers that an environment
gives them, and the operators have the precedence of the language,

    conditional    := or ( '?' conditional ':' conditional )?
    or             := and ( '||' and )*
    and            := equality ( '&&' equality )*
    equality       := relational ( ('==' | '!=') relational )*
    relational     := additive ( ('>=' | '<=' | '>' | '<') additive )*
    additive       := multiplicative ( ('+' | '-') multiplicative )*
    multiplicative := unary ( ('*' | '/') unary )*
    unary          := INT | NAME | '-' unary | '(' conditional ')'

* `C.value?` is the value of a text, if it is such an expression and divides by nothing that is
  zero; an operand of `&&`, `||` or `?:` that C does not evaluate may have no value.
* `C.Denotes.value?_eq` is the value of a name or of an integer.
* `C.lexesAs_base` and `C.conditional_tokens` read a conditional between such operands,
  `C.value?_choice` is its value, and `C.value?_parenthesized` that with an amount outside.
-/

set_option autoImplicit false

namespace TableSync.C

/-! ## Trees -/

/-- The operators of two operands. -/
inductive Operator
  | or
  | and
  | eq
  | ne
  | ge
  | le
  | gt
  | lt
  | add
  | sub
  | mul
  | div
  deriving DecidableEq

namespace Operator

/-- How tightly an operator binds, from `||` to `*` and `/`. -/
def level : Operator → Nat
  | or => 0
  | and => 1
  | eq | ne => 2
  | ge | le | gt | lt => 3
  | add | sub => 4
  | mul | div => 5

/-- Truth as an integer. -/
def truth (b : Bool) : Int := if b then 1 else 0

/-- The value of an operator, of which the second operand is evaluated only if it has to be. -/
def value? (o : Operator) (a : Int) (second : Option Int) : Option Int :=
  match o with
  | or => if a ≠ 0 then some 1 else second.map fun b => truth (b != 0)
  | and => if a = 0 then some 0 else second.map fun b => truth (b != 0)
  | eq => second.map fun b => truth (a == b)
  | ne => second.map fun b => truth (a != b)
  | ge => second.map fun b => truth (a ≥ b)
  | le => second.map fun b => truth (a ≤ b)
  | gt => second.map fun b => truth (a > b)
  | lt => second.map fun b => truth (a < b)
  | add => second.map (a + ·)
  | sub => second.map (a - ·)
  | mul => second.map (a * ·)
  | div => second.bind fun b => if b = 0 then none else some (a.tdiv b)

end Operator

/-- An expression. -/
inductive Tree
  | int (n : Nat)
  | name (s : String)
  | neg (t : Tree)
  | binary (o : Operator) (l r : Tree)
  | choice (c t f : Tree)
  deriving DecidableEq

/-- The integers that names stand for. -/
abbrev Environment := String → Int

/-- The value of an expression; there is none where it divides by zero. -/
def Tree.value? (ρ : Environment) : Tree → Option Int
  | int n => some n
  | name s => some (ρ s)
  | neg t => (t.value? ρ).map (- ·)
  | binary o l r => (l.value? ρ).bind fun a => o.value? a (r.value? ρ)
  | choice c t f => (c.value? ρ).bind fun b => if b ≠ 0 then t.value? ρ else f.value? ρ

/-! ## Tokens -/

/-- The tokens of an expression; a minus sign is that of the subtraction. -/
inductive Token
  | int (n : Nat)
  | name (s : String)
  | operator (o : Operator)
  | question
  | colon
  | opening
  | closing
  deriving DecidableEq

/-- A name of C: word characters, of which the first is no digit. -/
def IsIdentifier (s : Text) : Prop := IsWord s ∧ ∀ c ∈ s.head?, isAsciiDigit c = false

instance (s : Text) : Decidable (IsIdentifier s) :=
  inferInstanceAs (Decidable ((s ≠ [] ∧ ∀ c ∈ s, isWordChar c = true) ∧ _))

/-- The token of a word: a name, or an integer without leading zeros. -/
def wordToken? (s : Text) : Option Token :=
  if IsIdentifier s then some (.name (String.ofList s))
  else if 1 < s.length ∧ s.head? = some '0' then none
  else (digitsValue? s).map .int

/-- The token of one character. -/
def single? : Char → Option Token
  | '?' => some .question
  | ':' => some .colon
  | '+' => some (.operator .add)
  | '-' => some (.operator .sub)
  | '*' => some (.operator .mul)
  | '/' => some (.operator .div)
  | '(' => some .opening
  | ')' => some .closing
  | '>' => some (.operator .gt)
  | '<' => some (.operator .lt)
  | _ => none

/-- The token of two characters. -/
def double? : Char → Option Char → Option Token
  | '&', some '&' => some (.operator .and)
  | '|', some '|' => some (.operator .or)
  | '=', some '=' => some (.operator .eq)
  | '!', some '=' => some (.operator .ne)
  | '>', some '=' => some (.operator .ge)
  | '<', some '=' => some (.operator .le)
  | _, _ => none

/-- Puts the token of a word (last character first) in front, if there is one. -/
def wordThen (word : Text) (rest : Option (List Token)) : Option (List Token) :=
  if word = [] then rest
  else do return (← wordToken? word.reverse) :: (← rest)

/-- The tokens of the rest of a text, where `word` (last character first) has been read of a word;
`inDouble` says that a token of two characters goes on here. -/
def tokensFrom : (inDouble : Bool) → (word : Text) → Text → Option (List Token)
  | _, word, [] => wordThen word (some [])
  | true, word, _ :: r => tokensFrom false word r
  | false, word, c :: r =>
    if isWordChar c then tokensFrom false (c :: word) r
    else wordThen word <|
      if isBlank c then tokensFrom false [] r
      else
        match double? c r.head? with
        | some t => (tokensFrom true [] r).map (t :: ·)
        | none => do return (← single? c) :: (← tokensFrom false [] r)

/-- The tokens of a text; blanks separate tokens and are dropped. -/
def tokens? (s : Text) : Option (List Token) := tokensFrom false [] s

/-! ## The grammar

The functions call each other as the parts of the grammar do, with a bound on the depth that the
length of the tokens gives; `Ends` and `ParsesAs` below say what they read without it. -/

/-- An expression and the tokens after it. -/
abbrev Reading := Option (Tree × List Token)

mutual

/-- Reads a `conditional`.  The first argument bounds the depth of calls. -/
def conditional : Nat → List Token → Reading
  | 0, _ => none
  | n + 1, ts =>
    match binary n 0 ts with
    | some (c, .question :: ts) =>
      match conditional n ts with
      | some (t, .colon :: ts) => (conditional n ts).map fun (f, ts) => (.choice c t f, ts)
      | _ => none
    | other => other

/-- Reads an expression with the operators of a level and of those above it. -/
def binary : Nat → (level : Nat) → List Token → Reading
  | 0, _, _ => none
  | n + 1, level, ts =>
    if level = 6 then unary n ts
    else (binary n (level + 1) ts).bind fun (l, ts) => binaryTail n level l ts

/-- Continues such an expression, of which `l` has been read. -/
def binaryTail : Nat → (level : Nat) → Tree → List Token → Reading
  | 0, _, _, _ => none
  | n + 1, level, l, .operator o :: ts =>
    if o.level = level then
      (binary n (level + 1) ts).bind fun (r, ts) => binaryTail n level (.binary o l r) ts
    else some (l, .operator o :: ts)
  | _ + 1, _, l, ts => some (l, ts)

/-- Reads a `unary`. -/
def unary : Nat → List Token → Reading
  | 0, _ => none
  | _ + 1, .int n :: ts => some (.int n, ts)
  | _ + 1, .name s :: ts => some (.name s, ts)
  | n + 1, .operator .sub :: ts => (unary n ts).map fun (t, ts) => (.neg t, ts)
  | n + 1, .opening :: ts =>
    match conditional n ts with
    | some (t, .closing :: ts) => some (t, ts)
    | _ => none
  | _ + 1, _ => none

end

/-- The expression that a list of tokens is as a whole.  Between two tokens there are fewer than
ten calls, which bounds the depth. -/
def parse? (ts : List Token) : Option Tree :=
  match conditional (10 * (ts.length + 1)) ts with
  | some (t, []) => some t
  | _ => none

/-- The value of a text. -/
def value? (ρ : Environment) (s : Text) : Option Int :=
  ((tokens? s).bind parse?).bind (·.value? ρ)

-- `&&` binds tighter than `||`, and division truncates toward zero
example : value? (fun _ => 5) "1 || A && 0 ? -A / 2 : 3 - 4 - 5".toList = some (-2) := by
  decide +kernel

/-! ## Words and integers

A name, or an integer without its sign, is one word, so it is one token wherever no word character
follows it.  `LexesAs` says this of any text, and is what the texts that are put together hand on to
each other. -/

/-- A number is written without leading zeros. -/
theorem head?_showNat {n : Nat} (hn : 0 < n) : (showNat n).head? ≠ some '0' := by
  induction n using Nat.strongRecOn with
  | ind n ih =>
    by_cases hlt : n < 10
    · have hdigit : ∀ m < 10, 0 < m → [Nat.digitChar m].head? ≠ some '0' := by decide
      rw [showNat, Nat.toDigits_of_lt_base hlt]
      exact hdigit n hlt hn
    · have hquotient : 0 < n / 10 := by omega
      have hsplit := Nat.toDigits_append_toDigits (b := 10) (n := n / 10) (d := n % 10) (by decide)
        hquotient (Nat.mod_lt n (by decide))
      rw [Nat.div_add_mod] at hsplit
      have hne : showNat (n / 10) ≠ [] := showNat_ne_nil (n / 10)
      obtain ⟨c, s, hs⟩ := List.exists_cons_of_ne_nil hne
      have hhead := ih (n / 10) (by omega) hquotient
      rw [hs] at hhead
      rw [showNat] at hs
      rw [showNat, ← hsplit, hs]
      exact hhead

theorem wordToken?_showNat (n : Nat) : wordToken? (showNat n) = some (.int n) := by
  have hname : ¬ IsIdentifier (showNat n) := by
    rintro ⟨⟨hne, -⟩, hfirst⟩
    cases hs : showNat n with
    | nil => exact hne hs
    | cons c s =>
      have hdigit : isAsciiDigit c = true := isAsciiDigit_of_mem_showNat (hs ▸ List.mem_cons_self)
      rw [hs] at hfirst
      rw [hfirst c rfl] at hdigit
      exact Bool.noConfusion hdigit
  have hzero : ¬ (1 < (showNat n).length ∧ (showNat n).head? = some '0') := by
    rintro ⟨hlen, hhead⟩
    cases n with
    | zero => exact absurd hlen (by decide)
    | succ n => exact head?_showNat (Nat.succ_pos n) hhead
  rw [wordToken?, if_neg hname, if_neg hzero, digitsValue?_showNat]
  rfl

theorem wordToken?_name {s : Text} (h : IsIdentifier s) :
    wordToken? s = some (.name (String.ofList s)) := if_pos h

theorem tokensFrom_word {w : Text} (hw : ∀ c ∈ w, isWordChar c = true) (word r : Text) :
    tokensFrom false word (w ++ r) = tokensFrom false (w.reverse ++ word) r := by
  induction w generalizing word with
  | nil => rfl
  | cons c w ih =>
    rw [List.cons_append, tokensFrom, if_pos (hw c List.mem_cons_self),
      ih fun d hd => hw d (List.mem_cons_of_mem c hd)]
    simp

/-- A word that ends before `r` is the first token. -/
theorem tokens?_word {w r : Text} {t : Token} (hw : IsWord w)
    (hr : ∀ c ∈ r.head?, isWordChar c = false) (ht : wordToken? w = some t) :
    tokens? (w ++ r) = (tokens? r).map (t :: ·) := by
  have hne : w.reverse ≠ [] := by simpa using hw.1
  have hthen : ∀ rest, wordThen w.reverse rest = rest.map (t :: ·) := by
    intro rest
    rw [wordThen, if_neg hne, List.reverse_reverse, ht]
    cases rest <;> rfl
  rw [tokens?, tokensFrom_word hw.2, List.append_nil]
  cases r with
  | nil => exact hthen _
  | cons c r =>
    have hc : ¬ isWordChar c = true := by simp [hr c rfl]
    rw [tokens?, tokensFrom, if_neg hc, hthen, tokensFrom, if_neg hc]
    rfl

/-- The tokens of an operand before whatever follows it. -/
def LexesAs (s : Text) (us : List Token) : Prop :=
  ∀ r : Text, (∀ c ∈ r.head?, isWordChar c = false) → tokens? (s ++ r) = (tokens? r).map (us ++ ·)

theorem lexesAs_name {s : Text} (h : IsIdentifier s) : LexesAs s [.name (String.ofList s)] :=
  fun _ hr => tokens?_word h.1 hr (wordToken?_name h)

theorem lexesAs_showNat (n : Nat) : LexesAs (showNat n) [.int n] := by
  have hword : IsWord (showNat n) := ⟨showNat_ne_nil n, fun c hc =>
    isWordChar_of_isAsciiDigit (isAsciiDigit_of_mem_showNat hc)⟩
  exact fun _ hr => tokens?_word hword hr (wordToken?_showNat n)

theorem tokens?_blank {c : Char} (hw : isWordChar c = false) (hb : isBlank c = true) (r : Text) :
    tokens? (c :: r) = tokens? r := by
  rw [tokens?, tokensFrom, if_neg (by simp [hw]), wordThen, if_pos rfl, if_pos hb, tokens?]

theorem tokens?_space (r : Text) : tokens? (' ' :: r) = tokens? r :=
  tokens?_blank (by decide) (by decide) r

theorem tokens?_single {c : Char} {t : Token} {r : Text} (hw : isWordChar c = false)
    (hb : isBlank c = false) (hd : double? c r.head? = none) (ht : single? c = some t) :
    tokens? (c :: r) = (tokens? r).map (t :: ·) := by
  rw [tokens?, tokensFrom, if_neg (by simp [hw]), wordThen, if_pos rfl, if_neg (by simp [hb]), hd,
    ht, tokens?]
  cases tokensFrom false [] r <;> rfl

theorem tokens?_double {c d : Char} {t : Token} {r : Text} (hw : isWordChar c = false)
    (hb : isBlank c = false) (ht : double? c (some d) = some t) :
    tokens? (c :: d :: r) = (tokens? r).map (t :: ·) := by
  rw [tokens?, tokensFrom, if_neg (by simp [hw]), wordThen, if_pos rfl, if_neg (by simp [hb]),
    List.head?_cons, ht]
  rfl

theorem double?_eq_none {c : Char} (h : c ∉ ['&', '|', '=', '!', '>', '<']) (d : Option Char) :
    double? c d = none := by
  unfold double?
  split <;> simp_all

/-- A mark that no token of two characters starts with. -/
theorem tokens?_mark {c : Char} {t : Token} (ht : single? c = some t)
    (hc : isWordChar c = false ∧ isBlank c = false ∧ c ∉ ['&', '|', '=', '!', '>', '<'])
    (r : Text) : tokens? (c :: r) = (tokens? r).map (t :: ·) :=
  tokens?_single hc.1 hc.2.1 (double?_eq_none hc.2.2 _) ht

theorem lexesAs_minus {s : Text} {us : List Token} (h : LexesAs s us) :
    LexesAs ('-' :: s) (.operator .sub :: us) := by
  intro r hr
  have hminus : tokens? ('-' :: (s ++ r)) = _ := tokens?_mark rfl (by decide) (s ++ r)
  rw [List.cons_append, hminus, h r hr]
  cases tokens? r <;> rfl

/-! ## Reading operands

An operand goes through all levels of operators without meeting one.  What stops the levels is what
follows it, so each lemma asks for a rest with which no operator of its level or of one above comes
next. -/

/-- No operator of a level or of one above it comes next. -/
def Ends (level : Nat) (ts : List Token) : Prop :=
  ∀ o ∈ ts.head?, ∀ p, o = .operator p → p.level < level

theorem binaryTail_of_ends {level : Nat} {ts : List Token} (h : Ends level ts) (n : Nat)
    (l : Tree) : binaryTail (n + 1) level l ts = some (l, ts) := by
  cases ts with
  | nil => rfl
  | cons t ts =>
    cases t with
    | operator o => rw [binaryTail, if_neg (Nat.ne_of_lt (h _ rfl o rfl))]
    | _ => rfl

theorem Ends.mono {level m : Nat} {ts : List Token} (h : Ends level ts) (hle : level ≤ m) :
    Ends m ts := fun o ho p hp => Nat.lt_of_lt_of_le (h o ho p hp) hle

/-- What is read with the operators above a level is read with those of the level, too, where none
of them comes next. -/
theorem binary_of_le {m level k : Nat} {ts rest : List Token} {t : Tree} (hlevel : level ≤ m)
    (hm : m ≤ 6) (hends : Ends level rest) (h : ∀ n, k ≤ n → binary n m ts = some (t, rest)) :
    ∀ n, k + (m - level) ≤ n → binary n level ts = some (t, rest) := by
  obtain ⟨d, rfl⟩ := Nat.exists_eq_add_of_le hlevel
  induction d generalizing k with
  | zero => simpa using h
  | succ d ih =>
    have hstep : ∀ n, k + 1 ≤ n → binary n (level + d) ts = some (t, rest) := by
      intro n hn
      obtain ⟨n, rfl⟩ : ∃ m, n = m + 1 := ⟨n - 1, by omega⟩
      have habove := h n (by omega)
      have htail : binary (n + 1) (level + d) ts = binaryTail n (level + d) t rest := by
        rw [binary, if_neg (by omega), Nat.add_assoc, habove]
        rfl
      rw [htail]
      cases n with
      | zero => exact absurd habove (by simp [binary])
      | succ n => exact binaryTail_of_ends (hends.mono (by omega)) n t
    exact fun n hn => ih (by omega) (by omega) hstep n (by omega)

/-- Two operands and the operator between them. -/
theorem binary_operator {o : Operator} {k : Nat} {ts ts' rest : List Token} {l r : Tree}
    (hends : Ends o.level rest)
    (hl : ∀ n, k ≤ n → binary n (o.level + 1) ts = some (l, .operator o :: ts'))
    (hr : ∀ n, k ≤ n → binary n (o.level + 1) ts' = some (r, rest)) :
    ∀ n, k + 3 ≤ n → binary n o.level ts = some (.binary o l r, rest) := by
  intro n hn
  obtain ⟨n, rfl⟩ : ∃ m, n = m + 3 := ⟨n - 3, by omega⟩
  have hlevel : o.level ≠ 6 := by cases o <;> decide
  have hfirst : binary (n + 3) o.level ts = binaryTail (n + 2) o.level l (.operator o :: ts') := by
    rw [binary, if_neg hlevel, hl (n + 2) (by omega)]
    rfl
  have hsecond : binaryTail (n + 2) o.level l (.operator o :: ts') =
      binaryTail (n + 1) o.level (.binary o l r) rest := by
    rw [binaryTail, if_pos rfl, hr (n + 1) (by omega)]
    rfl
  rw [hfirst, hsecond]
  exact binaryTail_of_ends hends n _

theorem conditional_choice {k : Nat} {ts ts' ts'' rest : List Token} {c t f : Tree}
    (hc : ∀ n, k ≤ n → binary n 0 ts = some (c, .question :: ts'))
    (ht : ∀ n, k ≤ n → conditional n ts' = some (t, .colon :: ts''))
    (hf : ∀ n, k ≤ n → conditional n ts'' = some (f, rest)) :
    ∀ n, k + 1 ≤ n → conditional n ts = some (.choice c t f, rest) := by
  intro n hn
  obtain ⟨n, rfl⟩ : ∃ m, n = m + 1 := ⟨n - 1, by omega⟩
  rw [conditional, hc n (by omega)]
  simp only [ht n (by omega), hf n (by omega), Option.map_some]

theorem conditional_of_binary {k : Nat} {ts rest : List Token} {t : Tree}
    (hrest : rest.head? ≠ some .question)
    (h : ∀ n, k ≤ n → binary n 0 ts = some (t, rest)) :
    ∀ n, k + 1 ≤ n → conditional n ts = some (t, rest) := by
  intro n hn
  obtain ⟨n, rfl⟩ : ∃ m, n = m + 1 := ⟨n - 1, by omega⟩
  rw [conditional, h n (by omega)]
  cases rest with
  | nil => rfl
  | cons u rest =>
    cases u with
    | question => exact absurd rfl hrest
    | _ => rfl

/-- An operand is read with the operators of any level, where none of them comes next. -/
def ParsesAs (us : List Token) (t : Tree) : Prop :=
  ∀ rest n, 2 ≤ n → unary n (us ++ rest) = some (t, rest)

theorem parsesAs_name (s : String) : ParsesAs [.name s] (.name s) := by
  intro rest n hn
  obtain ⟨n, rfl⟩ : ∃ m, n = m + 1 := ⟨n - 1, by omega⟩
  rfl

theorem parsesAs_int (m : Nat) : ParsesAs [.int m] (.int m) := by
  intro rest n hn
  obtain ⟨n, rfl⟩ : ∃ m, n = m + 1 := ⟨n - 1, by omega⟩
  rfl

theorem parsesAs_minus (m : Nat) : ParsesAs [.operator .sub, .int m] (.neg (.int m)) := by
  intro rest n hn
  obtain ⟨n, rfl⟩ : ∃ m, n = m + 2 := ⟨n - 2, by omega⟩
  rfl

theorem binary_of_unary {level k : Nat} {ts rest : List Token} {t : Tree} (hlevel : level ≤ 6)
    (hends : Ends level rest) (h : ∀ n, k ≤ n → unary n ts = some (t, rest)) :
    ∀ n, k + 7 - level ≤ n → binary n level ts = some (t, rest) := by
  have htop : ∀ n, k + 1 ≤ n → binary n 6 ts = some (t, rest) := by
    intro n hn
    obtain ⟨n, rfl⟩ : ∃ m, n = m + 1 := ⟨n - 1, by omega⟩
    rw [binary, if_pos rfl]
    exact h n (by omega)
  exact fun n hn => binary_of_le hlevel (Nat.le_refl 6) hends htop n (by omega)

theorem unary_parenthesized {k : Nat} {ts rest : List Token} {t : Tree}
    (h : ∀ n, k ≤ n → conditional n ts = some (t, .closing :: rest)) :
    ∀ n, k + 1 ≤ n → unary n (.opening :: ts) = some (t, rest) := by
  intro n hn
  obtain ⟨n, rfl⟩ : ∃ m, n = m + 1 := ⟨n - 1, by omega⟩
  rw [unary, h n (by omega)]

/-! ## The values of texts -/

/-- The integer that a name or a numeral stands for. -/
inductive Denotes (ρ : Environment) : Text → Int → Prop
  | name {s : Text} (h : IsIdentifier s) : Denotes ρ s (ρ (String.ofList s))
  | int (n : Int) : Denotes ρ (showInt n) n

theorem Denotes.exists_tree {ρ : Environment} {s : Text} {v : Int} (h : Denotes ρ s v) :
    ∃ us t, LexesAs s us ∧ ParsesAs us t ∧ t.value? ρ = some v := by
  cases h with
  | name h => exact ⟨_, _, lexesAs_name h, parsesAs_name _, rfl⟩
  | int =>
    cases v with
    | ofNat m => exact ⟨_, _, lexesAs_showNat m, parsesAs_int m, rfl⟩
    | negSucc m => exact ⟨_, _, lexesAs_minus (lexesAs_showNat (m + 1)), parsesAs_minus _, rfl⟩

theorem value?_of_conditional {ρ : Environment} {s : Text} {us : List Token} {t : Tree} {v : Int}
    (hs : LexesAs s us) (ht : ∀ n, 20 ≤ n → conditional n us = some (t, [])) (hus : 0 < us.length)
    (hv : t.value? ρ = some v) : value? ρ s = some v := by
  have htokens : tokens? s = some us := by
    have := hs [] (by simp)
    rw [List.append_nil] at this
    rw [this]
    simp [tokens?, tokensFrom, wordThen]
  have hparse : parse? us = some t := by
    rw [parse?, ht _ (by omega)]
  rw [value?, htokens, Option.bind_some, hparse, Option.bind_some, hv]

/-- A name or a numeral has the value that it stands for. -/
theorem Denotes.value?_eq {ρ : Environment} {s : Text} {v : Int} (h : Denotes ρ s v) :
    value? ρ s = some v := by
  obtain ⟨us, t, hs, ht, hv⟩ := h.exists_tree
  have hpos : 0 < us.length := by
    cases us with
    | nil => exact absurd (ht [] 2 (Nat.le_refl 2)) (by simp [unary])
    | cons u us => exact Nat.succ_pos us.length
  refine value?_of_conditional hs (fun n hn => ?_) hpos hv
  have hends : Ends 0 [] := by simp [Ends]
  have hbinary := binary_of_unary (Nat.zero_le 6) hends fun n hn => ht [] n hn
  rw [List.append_nil] at hbinary
  exact conditional_of_binary (by simp) hbinary n (by omega)

/-! ## Conditionals -/

/-- The operator of a comparison. -/
def ofComparison : Comparison → Operator
  | .eq => .eq
  | .ne => .ne
  | .gt => .gt
  | .ge => .ge
  | .lt => .lt
  | .le => .le

theorem tokens?_comparison (c : Comparison) (r : Text) :
    tokens? (c.text.toList ++ ' ' :: r) =
      (tokens? r).map (.operator (ofComparison c) :: ·) := by
  have hblank := tokens?_space r
  cases c with
  | gt => exact hblank ▸ tokens?_single (r := ' ' :: r) (by decide) (by decide) rfl rfl
  | lt => exact hblank ▸ tokens?_single (r := ' ' :: r) (by decide) (by decide) rfl rfl
  | _ => exact hblank ▸ tokens?_double (r := ' ' :: r) (by decide) (by decide) rfl

/-- The tokens of a conditional, of which the operands and branches have the tokens given. -/
def conditionalTokens (o : Operator) (l r t f : List Token) : List Token :=
  l ++ .operator o :: (r ++ .question :: (t ++ .colon :: f))

theorem lexesAs_base {e : Conditional} {l r t f : List Token} (hl : LexesAs e.left.toList l)
    (hr : LexesAs e.right.toList r) (ht : LexesAs e.whenTrue.branchText t)
    (hf : LexesAs e.whenFalse.branchText f) :
    LexesAs e.base (conditionalTokens (ofComparison e.comparison) l r t f) := by
  intro s hs
  have hquestion : ∀ r, tokens? ('?' :: r) = (tokens? r).map (.question :: ·) :=
    tokens?_mark rfl (by decide)
  have hcolon : ∀ r, tokens? (':' :: r) = (tokens? r).map (.colon :: ·) :=
    tokens?_mark rfl (by decide)
  have hspace : ∀ r : Text, ∀ c ∈ (' ' :: r).head?, isWordChar c = false := by
    simp [isWordChar_space]
  have hshape : e.base ++ s = e.left.toList ++ ' ' :: (e.comparison.text.toList ++
      ' ' :: (e.right.toList ++ ' ' :: '?' :: ' ' :: (e.whenTrue.branchText ++
        ' ' :: ':' :: ' ' :: (e.whenFalse.branchText ++ s)))) := by
    simp [Conditional.base]
  rw [hshape, hl _ (hspace _), tokens?_space, tokens?_comparison, hr _ (hspace _), tokens?_space,
    hquestion, tokens?_space, ht _ (hspace _), tokens?_space, hcolon, tokens?_space, hf s hs]
  simp only [Option.map_map, conditionalTokens]
  refine Option.map_congr fun a _ => ?_
  simp

theorem conditional_tokens {o : Operator} (ho : o.level = 2 ∨ o.level = 3)
    {l r t f rest : List Token} {tl tr tt tf : Tree} (hl : ParsesAs l tl) (hr : ParsesAs r tr)
    (ht : ParsesAs t tt) (hf : ParsesAs f tf) (hends : Ends 0 rest)
    (hrest : rest.head? ≠ some .question) :
    ∀ n, 18 ≤ n → conditional n (conditionalTokens o l r t f ++ rest) =
      some (.choice (.binary o tl tr) tt tf, rest) := by
  have hshape : conditionalTokens o l r t f ++ rest =
      l ++ .operator o :: (r ++ .question :: (t ++ .colon :: (f ++ rest))) := by
    simp [conditionalTokens]
  have hquestion : ∀ level ts, Ends level (.question :: ts) := by simp [Ends]
  have hcolon : ∀ level ts, Ends level (.colon :: ts) := by simp [Ends]
  have hoperator : ∀ ts, Ends (o.level + 1) (.operator o :: ts) := by simp [Ends]
  have hlevel : o.level + 1 ≤ 6 := by omega
  have hleft := binary_of_unary hlevel (hoperator (r ++ .question :: (t ++ .colon :: (f ++ rest))))
    fun n hn => hl _ n hn
  have hright := binary_of_unary hlevel (hquestion (o.level + 1) (t ++ .colon :: (f ++ rest)))
    fun n hn => hr _ n hn
  have hcomparison := binary_of_le (Nat.zero_le o.level) (by omega)
    (hquestion 0 (t ++ .colon :: (f ++ rest))) (binary_operator (hquestion o.level _) hleft hright)
  have htrue := conditional_of_binary (by simp)
    (binary_of_unary (Nat.zero_le 6) (hcolon 0 (f ++ rest)) fun n hn => ht _ n hn)
  have hfalse := conditional_of_binary hrest
    (binary_of_unary (Nat.zero_le 6) hends fun n hn => hf rest n hn)
  rw [hshape]
  intro n hn
  exact conditional_choice (k := 17) (fun n hn => hcomparison n (by omega))
    (fun n hn => htrue n (by omega)) (fun n hn => hfalse n (by omega)) n (by omega)

theorem value?_choice {ρ : Environment} {c : Comparison} {tl tr tt tf : Tree} {l r t f : Int}
    (hl : tl.value? ρ = some l) (hr : tr.value? ρ = some r) (ht : tt.value? ρ = some t)
    (hf : tf.value? ρ = some f) :
    (Tree.choice (.binary (ofComparison c) tl tr) tt tf).value? ρ =
      some (if c.holds l r then t else f) := by
  have hholds : ∀ a b, (ofComparison c).value? a (some b) =
      some (Operator.truth (c.holds a b)) := by
    intro a b
    cases c <;> rfl
  rw [Tree.value?, Tree.value?, hl, hr, Option.bind_some, hholds, Option.bind_some, ht, hf]
  cases c.holds l r <;> rfl

/-! ## Amounts -/

/-- The tokens of what stands in parentheses and of an amount behind them. -/
def amountTokens (o : Operator) (us : List Token) (m : Nat) : List Token :=
  .opening :: (us ++ .closing :: .operator o :: [.int m])

theorem tokens?_parenthesized {s : Text} {us : List Token} (hs : LexesAs s us) {sign : Char}
    {o : Operator} (hsign : sign = '+' ∧ o = .add ∨ sign = '-' ∧ o = .sub) (m : Nat) :
    tokens? ('(' :: (s ++ [')']) ++ ' ' :: sign :: ' ' :: showNat m) =
      some (amountTokens o us m) := by
  have hopening : ∀ r, tokens? ('(' :: r) = (tokens? r).map (.opening :: ·) :=
    tokens?_mark rfl (by decide)
  have hclosing : ∀ r, tokens? (')' :: r) = (tokens? r).map (.closing :: ·) :=
    tokens?_mark rfl (by decide)
  have hoperator : ∀ r, tokens? (sign :: r) = (tokens? r).map (.operator o :: ·) := by
    rcases hsign with ⟨rfl, rfl⟩ | ⟨rfl, rfl⟩ <;> exact tokens?_mark rfl (by decide)
  have hnumeral : tokens? (showNat m) = some [.int m] := by
    have := lexesAs_showNat m [] (by simp)
    rw [List.append_nil] at this
    rw [this]
    rfl
  have hshape : '(' :: (s ++ [')']) ++ ' ' :: sign :: ' ' :: showNat m =
      '(' :: (s ++ ')' :: ' ' :: sign :: ' ' :: showNat m) := by simp
  rw [hshape, hopening, hs _ (by simp; decide), hclosing, tokens?_space, hoperator, tokens?_space,
    hnumeral]
  rfl

theorem parse?_parenthesized {us : List Token} {t : Tree}
    (ht : ∀ rest, Ends 0 rest → rest.head? ≠ some .question → ∀ n, 18 ≤ n →
      conditional n (us ++ rest) = some (t, rest)) {o : Operator} (ho : o.level = 4) (m : Nat) :
    parse? (amountTokens o us m) = some (.binary o t (.int m)) := by
  have hgroup := unary_parenthesized (ht (.closing :: .operator o :: [.int m]) (by simp [Ends])
    (by simp))
  have hends : Ends 0 ([] : List Token) := by simp [Ends]
  have hlevel : o.level + 1 ≤ 6 := by omega
  have hleft := binary_of_unary hlevel
    (by simp [Ends] : Ends (o.level + 1) (.operator o :: [.int m])) hgroup
  have hright := binary_of_unary hlevel (hends.mono (Nat.zero_le _))
    fun n (hn : 19 ≤ n) => parsesAs_int m [] n (by omega)
  have hsum := binary_of_le (Nat.zero_le o.level) (by omega) hends
    (binary_operator (hends.mono (Nat.zero_le _)) hleft hright)
  have hall := conditional_of_binary (by simp) hsum
  rw [parse?, amountTokens, hall _ (by simp; omega)]

/-- An amount that is added to a conditional in parentheses, or taken from it. -/
theorem value?_parenthesized {ρ : Environment} {s : Text} {us : List Token} {t : Tree} {v : Int}
    (hs : LexesAs s us)
    (ht : ∀ rest, Ends 0 rest → rest.head? ≠ some .question → ∀ n, 18 ≤ n →
      conditional n (us ++ rest) = some (t, rest)) (hv : t.value? ρ = some v)
    {sign : Char} {o : Operator} (hsign : sign = '+' ∧ o = .add ∨ sign = '-' ∧ o = .sub)
    (m : Nat) :
    value? ρ ('(' :: (s ++ [')']) ++ ' ' :: sign :: ' ' :: showNat m) = o.value? v (some m) := by
  have ho : o.level = 4 := by rcases hsign with ⟨-, rfl⟩ | ⟨-, rfl⟩ <;> rfl
  rw [value?, tokens?_parenthesized hs hsign, Option.bind_some, parse?_parenthesized ht ho,
    Option.bind_some, Tree.value?, hv]
  rfl

end TableSync.C
