import Mathlib.Data.List.TakeDrop
import Mathlib.Data.Option.Basic
import TableSync.Text.Numeral
import TableSync.Text.Search

/-!
# Words, names and numerals

The tables are written in words, which hold neither blanks nor punctuation, and in decimal numerals.

* `IsWord` and `IsName` are the non-empty texts of word characters, and those of them that no
  integer is written as.
* `isBlank_eq_false` says that no word character is blank.  Blanks are known by their code points,
  of which there are few, and each of them is looked at (`isWordChar_blankPoints`).
* `span_append`, `exists_run` and `wordRun_append` are about runs of characters: where a run ends,
  and that every text starts with one.
* `trim_eq_self` and `trim_blanks_append` say what trimming leaves alone and takes off, and
  `isTrimmed_trim` that it does so once and for all.
* `readInt?_showInt` reads an integer back, and `mem_of_readInt?` says of which characters the texts
  consist that are read as integers.

Integers are read with or without a sign and within 64 bits; digits are those of ASCII, although a
word may hold others.
-/

set_option autoImplicit false

namespace TableSync

/-! ## Deciding what holds of all characters -/

-- characters are finitely many, but what holds in a text is decided along the text
instance decidableForallMem (s : Text) (p : Char → Prop) [DecidablePred p] :
    Decidable (∀ c ∈ s, p c) :=
  List.decidableBAll p s

instance decidableForallMemOption (o : Option Char) (p : Char → Prop) [DecidablePred p] :
    Decidable (∀ c ∈ o, p c) :=
  o.decidableForallMem

/-! ## Blanks and word characters

A text of one kind holds no character of the other, which is how most lemmas about lines are shown.
-/

/-- The code points of blanks. -/
def blankPoints : List Nat :=
  [0x09, 0x0A, 0x0B, 0x0C, 0x0D, 0x20, 0x85, 0xA0, 0x1680, 0x2000, 0x2001, 0x2002, 0x2003, 0x2004,
    0x2005, 0x2006, 0x2007, 0x2008, 0x2009, 0x200A, 0x2028, 0x2029, 0x202F, 0x205F, 0x3000]

theorem toNat_mem_blankPoints {c : Char} (h : isBlank c = true) : c.toNat ∈ blankPoints := by
  simp only [isBlank, Bool.or_eq_true, Bool.and_eq_true, decide_eq_true_eq] at h
  simp only [blankPoints, List.mem_cons, List.not_mem_nil, or_false]
  omega

theorem isWordChar_blankPoints : ∀ n ∈ blankPoints, isWordChar (Char.ofNat n) = false := by
  decide +kernel

/-- No blank is a word character. -/
theorem isBlank_eq_false {c : Char} (h : isWordChar c = true) : isBlank c = false := by
  cases hb : isBlank c with
  | false => rfl
  | true =>
    have hn := isWordChar_blankPoints _ (toNat_mem_blankPoints hb)
    rw [Char.ofNat_toNat, h] at hn
    exact Bool.noConfusion hn

theorem isWordChar_of_isBlank {c : Char} (h : isBlank c = true) : isWordChar c = false := by
  cases hw : isWordChar c with
  | false => rfl
  | true => exact absurd h (by simp [isBlank_eq_false hw])

theorem isWordChar_space : isWordChar ' ' = false := by
  decide

/-- A character that is not blank does not occur among blanks. -/
theorem notMem_of_blanks {g : Text} (hg : ∀ c ∈ g, isBlank c = true) {x : Char}
    (hx : isBlank x = false) : x ∉ g := by
  intro hmem
  rw [hg x hmem] at hx
  exact Bool.noConfusion hx

/-- A character that is no word character does not occur in a text of word characters. -/
theorem notMem_of_word {s : Text} (h : ∀ c ∈ s, isWordChar c = true) {x : Char}
    (hx : isWordChar x = false) : x ∉ s := by
  intro hmem
  rw [h x hmem] at hx
  exact Bool.noConfusion hx

theorem isDecimal_of_isAsciiDigit {c : Char} (h : isAsciiDigit c = true) : isDecimal c = true := by
  have hlt : c.toNat < 128 := by
    simp only [isAsciiDigit, Bool.and_eq_true, decide_eq_true_eq] at h
    omega
  rw [isDecimal, if_pos hlt, h]

theorem isWordChar_of_isAsciiDigit {c : Char} (h : isAsciiDigit c = true) :
    isWordChar c = true := by
  rw [isWordChar, isDecimal_of_isAsciiDigit h, Bool.or_true, Bool.true_or, Bool.true_or]

theorem isAsciiDigit_of_isBlank {c : Char} (h : isBlank c = true) : isAsciiDigit c = false := by
  cases hd : isAsciiDigit c with
  | false => rfl
  | true => exact absurd h (by simp [isBlank_eq_false (isWordChar_of_isAsciiDigit hd)])

/-- A non-empty text of word characters. -/
def IsWord (s : Text) : Prop := s ≠ [] ∧ ∀ c ∈ s, isWordChar c = true

/-- A word that is not the numeral of an integer. -/
def IsName (s : Text) : Prop := IsWord s ∧ readInt? s = none

/-- A run of characters that meet a condition ends where one does not. -/
theorem span_append {p : Char → Bool} {w r : Text} (hw : ∀ c ∈ w, p c = true)
    (hr : ∀ c ∈ r.head?, p c = false) : (w ++ r).span p = (w, r) := by
  have htake : r.takeWhile p = [] ∧ r.dropWhile p = r := by
    cases r with
    | nil => exact ⟨rfl, rfl⟩
    | cons c r =>
      have hc : p c = false := hr c rfl
      simp [hc]
  rw [List.span_eq_takeWhile_dropWhile, List.takeWhile_append_of_pos hw,
    List.dropWhile_append_of_pos hw, htake.1, htake.2, List.append_nil]

/-- Every text is a run of characters that meet a condition, and a rest that starts with one that
does not. -/
theorem exists_run (p : Char → Bool) (s : Text) :
    ∃ w r, s = w ++ r ∧ (∀ c ∈ w, p c = true) ∧ ∀ c ∈ r.head?, p c = false := by
  induction s with
  | nil => exact ⟨[], [], rfl, by simp, by simp⟩
  | cons c s ih =>
    cases hc : p c with
    | false => exact ⟨[], c :: s, rfl, by simp, by simp [hc]⟩
    | true =>
      obtain ⟨w, r, rfl, hw, hr⟩ := ih
      exact ⟨c :: w, r, rfl, by simpa [hc] using hw, hr⟩

/-- The run of word characters ends with a word that no word character follows. -/
theorem wordRun_append {w r : Text} (hw : ∀ c ∈ w, isWordChar c = true)
    (hr : ∀ c ∈ r.head?, isWordChar c = false) : wordRun (w ++ r) = (w, r) :=
  span_append hw hr

/-! ## Trimming

A text is trimmed if neither of its ends is blank; what trimming gives is such a text. -/

/-- Neither end of the text is blank. -/
def IsTrimmed (s : Text) : Prop :=
  (∀ c ∈ s.head?, isBlank c = false) ∧ ∀ c ∈ s.getLast?, isBlank c = false

instance (s : Text) : Decidable (IsTrimmed s) := inferInstanceAs (Decidable (_ ∧ _))

/-- A character that does not go ends the run of those that go. -/
theorem dropEndWhile_append_cons {p : Char → Bool} {c : Char} (hc : p c = false) (s t : Text) :
    dropEndWhile p (s ++ c :: t) = s ++ c :: dropEndWhile p t := by
  have hrev : (s ++ c :: t).reverse = t.reverse ++ c :: s.reverse := by simp
  rw [dropEndWhile, dropEndWhile, hrev, List.dropWhile_append]
  split
  · rename_i hempty
    have hnil : t.reverse.dropWhile p = [] := by simpa using hempty
    rw [hnil, List.dropWhile_cons, if_neg (by simp [hc])]
    simp
  · simp

theorem exists_dropEndWhile_append (p : Char → Bool) (s : Text) : ∃ b, s = dropEndWhile p s ++ b := by
  have h := List.takeWhile_append_dropWhile (p := p) (l := s.reverse)
  refine ⟨(s.reverse.takeWhile p).reverse, ?_⟩
  rw [dropEndWhile, ← List.reverse_append, h, List.reverse_reverse]

theorem dropEndWhile_eq_self {p : Char → Bool} {s : Text} (h : ∀ c ∈ s.getLast?, p c = false) :
    dropEndWhile p s = s := by
  rcases List.eq_nil_or_concat s with rfl | ⟨t, c, rfl⟩
  · rfl
  · rw [List.concat_eq_append] at h ⊢
    exact dropEndWhile_append_cons (h c (by rw [List.getLast?_concat]; rfl)) t []

theorem trimStart_eq_self {s : Text} (h : ∀ c ∈ s.head?, isBlank c = false) : trimStart s = s := by
  cases s with
  | nil => rfl
  | cons c s =>
    have hc : isBlank c = false := h c rfl
    simp [trimStart, hc]

theorem trimEnd_eq_self {s : Text} (h : ∀ c ∈ s.getLast?, isBlank c = false) : trimEnd s = s :=
  dropEndWhile_eq_self h

theorem trim_eq_self {s : Text} (h : IsTrimmed s) : trim s = s := by
  rw [trim, trimStart_eq_self h.1, trimEnd_eq_self h.2]

theorem trimStart_blanks_append {b s : Text} (hb : ∀ c ∈ b, isBlank c = true) :
    trimStart (b ++ s) = trimStart s := by
  induction b with
  | nil => rfl
  | cons c b ih =>
    have hc : isBlank c = true := hb c List.mem_cons_self
    rw [List.cons_append, trimStart, List.dropWhile_cons, if_pos hc]
    exact ih fun d hd => hb d (List.mem_cons_of_mem c hd)

theorem trimEnd_append_blanks {b s : Text} (hb : ∀ c ∈ b, isBlank c = true) :
    trimEnd (s ++ b) = trimEnd s := by
  have h := trimStart_blanks_append (b := b.reverse) (s := s.reverse) (by simpa using hb)
  rw [trimStart, trimStart, ← List.reverse_append] at h
  rw [trimEnd, trimEnd, dropEndWhile, dropEndWhile, h]

/-- Blanks before a text make no difference to what is left of it. -/
theorem trim_blanks_append {b s : Text} (hb : ∀ c ∈ b, isBlank c = true) :
    trim (b ++ s) = trim s := by
  rw [trim, trim, trimStart_blanks_append hb]

/-- Trimming takes the blanks around a trimmed text off. -/
theorem trim_between {b b' s : Text} (hb : ∀ c ∈ b, isBlank c = true)
    (hb' : ∀ c ∈ b', isBlank c = true) (hs : s ≠ []) (h : IsTrimmed s) :
    trim (b ++ (s ++ b')) = s := by
  have hhead : ∀ c ∈ (s ++ b').head?, isBlank c = false := by
    cases s with
    | nil => exact absurd rfl hs
    | cons c s => simpa using h.1
  rw [trim, trimStart_blanks_append hb, trimStart_eq_self hhead, trimEnd_append_blanks hb',
    trimEnd_eq_self h.2]

theorem head?_trimStart (s : Text) : ∀ c ∈ (trimStart s).head?, isBlank c = false := by
  intro c hc
  have h := List.head?_dropWhile_not isBlank s
  rw [← trimStart, Option.mem_def.1 hc] at h
  simpa using h

/-- A text is trimmed once and for all. -/
theorem isTrimmed_trim (s : Text) : IsTrimmed (trim s) := by
  have hlast : ∀ c ∈ (trim s).getLast?, isBlank c = false := by
    intro c hc
    have hrev : (trim s).getLast? = (trimStart (trimStart s).reverse).head? := by
      rw [trim, trimEnd, dropEndWhile, List.getLast?_reverse]
      rfl
    exact head?_trimStart _ c (hrev ▸ hc)
  refine ⟨fun c hc => ?_, hlast⟩
  obtain ⟨b, hb⟩ : ∃ b, trimStart s = trim s ++ b := exists_dropEndWhile_append isBlank _
  refine head?_trimStart s c ?_
  rw [hb, List.head?_append, Option.mem_def.1 hc]
  rfl

theorem trim_trim (s : Text) : trim (trim s) = trim s := trim_eq_self (isTrimmed_trim s)

/-- What is left after trimming the end is what is left after trimming, behind the blanks at the
start. -/
theorem exists_trimEnd_eq (s : Text) :
    ∃ b, (∀ c ∈ b, isBlank c = true) ∧ trimEnd s = b ++ trim s := by
  obtain ⟨b, r, rfl, hb, hr⟩ := exists_run isBlank s
  have htrim : trim (b ++ r) = trimEnd r := by
    rw [trim, trimStart_blanks_append hb, trimStart_eq_self hr]
  cases r with
  | nil =>
    refine ⟨[], by simp, ?_⟩
    rw [htrim, List.append_nil]
    exact trimEnd_append_blanks (s := []) hb
  | cons c r =>
    have hc : isBlank c = false := hr c rfl
    refine ⟨b, hb, ?_⟩
    rw [htrim]
    exact (dropEndWhile_append_cons hc b r).trans
      (congrArg (b ++ ·) (dropEndWhile_append_cons hc [] r).symm)

theorem trim_trimEnd (s : Text) : trim (trimEnd s) = trim s := by
  obtain ⟨b, hb, hs⟩ := exists_trimEnd_eq s
  rw [hs, trim_blanks_append hb, trim_trim]

theorem isTrimmed_of_forall {s : Text} (h : ∀ c ∈ s, isBlank c = false) : IsTrimmed s :=
  ⟨fun c hc => h c (List.mem_of_mem_head? hc), fun c hc => h c (List.mem_of_mem_getLast? hc)⟩

/-- A text is trimmed that starts and ends with a trimmed one. -/
theorem isTrimmed_append {a b : Text} (ha : IsTrimmed a) (ha' : a ≠ []) (hb : IsTrimmed b)
    (hb' : b ≠ []) (m : Text) : IsTrimmed (a ++ (m ++ b)) := by
  constructor
  · cases a with
    | nil => exact absurd rfl ha'
    | cons c a => exact ha.1
  · have hlast : b.getLast? = some (b.getLast hb') := List.getLast?_eq_some_getLast hb'
    rw [List.getLast?_append, List.getLast?_append, hlast, Option.some_or, Option.some_or, ← hlast]
    exact hb.2

theorem IsWord.isTrimmed {s : Text} (h : IsWord s) : IsTrimmed s :=
  isTrimmed_of_forall fun c hc => isBlank_eq_false (h.2 c hc)

/-! ## Numerals

Digits are read from the left with what has been read so far, so the lemmas about them have this
number as an argument. -/

theorem isDigit_eq_isAsciiDigit (c : Char) : c.isDigit = isAsciiDigit c := by
  simp only [Char.isDigit, isAsciiDigit, Char.toNat, ge_iff_le, UInt32.le_iff_toNat_le]
  rfl

/-- Digits are read from the left, each adding to ten times what came before it. -/
theorem digitsValueFrom_eq {s : Text} (h : ∀ c ∈ s, isAsciiDigit c = true) (acc : Nat) :
    digitsValueFrom acc s = some (Nat.ofDigitChars 10 s acc) := by
  induction s generalizing acc with
  | nil => rfl
  | cons c s ih =>
    rw [digitsValueFrom, if_pos (h c List.mem_cons_self), Nat.ofDigitChars_cons,
      ih (fun d hd => h d (List.mem_cons_of_mem c hd)), Nat.mul_comm]
    rfl

theorem isAsciiDigit_of_mem_showNat {n : Nat} {c : Char} (h : c ∈ showNat n) :
    isAsciiDigit c = true := by
  rw [← isDigit_eq_isAsciiDigit]
  exact Nat.isDigit_of_mem_toDigits (by decide) (by decide) h

theorem showNat_ne_nil (n : Nat) : showNat n ≠ [] := Nat.toDigits_ne_nil

/-- The digits of a number are read as the number. -/
theorem digitsValue?_showNat (n : Nat) : digitsValue? (showNat n) = some n := by
  have h : digitsValueFrom 0 (showNat n) = some n := by
    rw [digitsValueFrom_eq fun c hc => isAsciiDigit_of_mem_showNat hc]
    exact congrArg some Nat.ofDigitChars_ten_toDigits
  cases hs : showNat n with
  | nil => exact absurd hs (showNat_ne_nil n)
  | cons c s => rw [digitsValue?, ← hs, h]; simp

theorem isAsciiDigit_of_digitsValueFrom {s : Text} {acc n : Nat}
    (h : digitsValueFrom acc s = some n) : ∀ c ∈ s, isAsciiDigit c = true := by
  induction s generalizing acc with
  | nil => intro c hc; exact absurd hc List.not_mem_nil
  | cons d s ih =>
    rw [digitsValueFrom] at h
    split at h
    · rename_i hd
      intro c hc
      rcases List.mem_cons.1 hc with rfl | hc
      · exact hd
      · exact ih h c hc
    · exact absurd h (by simp)

theorem isAsciiDigit_of_digitsValue? {s : Text} {n : Nat} (h : digitsValue? s = some n) :
    ∀ c ∈ s, isAsciiDigit c = true := by
  cases s with
  | nil => exact absurd h (by simp [digitsValue?])
  | cons c s => exact isAsciiDigit_of_digitsValueFrom h

/-- What is read as an integer consists of ASCII digits and signs. -/
theorem mem_of_readInt? {s : Text} {n : Int} (h : readInt? s = some n) :
    ∀ c ∈ s, isAsciiDigit c = true ∨ c = '+' ∨ c = '-' := by
  unfold readInt? at h
  split at h <;> obtain ⟨m, hm, -⟩ := Option.bind_eq_some_iff.1 h <;> intro c hc
  · rcases List.mem_cons.1 hc with rfl | hc
    · exact .inr (.inl rfl)
    · exact .inl (isAsciiDigit_of_digitsValue? hm c hc)
  · rcases List.mem_cons.1 hc with rfl | hc
    · exact .inr (.inr rfl)
    · exact .inl (isAsciiDigit_of_digitsValue? hm c hc)
  · exact .inl (isAsciiDigit_of_digitsValue? hm c hc)

/-- A text with a character that is neither a digit nor a sign is no integer. -/
theorem readInt?_eq_none {s : Text} {c : Char} (hc : c ∈ s) (hd : isAsciiDigit c = false)
    (hp : c ≠ '+') (hm : c ≠ '-') : readInt? s = none := by
  cases h : readInt? s with
  | none => rfl
  | some n =>
    rcases mem_of_readInt? h c hc with h | h | h
    · rw [h] at hd; exact Bool.noConfusion hd
    · exact absurd h hp
    · exact absurd h hm

theorem isInt64_of_readInt? {s : Text} {n : Int} (h : readInt? s = some n) : IsInt64 n := by
  unfold readInt? at h
  split at h <;> obtain ⟨m, -, hm⟩ := Option.bind_eq_some_iff.1 h <;>
    obtain ⟨rfl, hn⟩ := int64?_eq_some_iff.1 hm <;> exact hn

/-- A run of digits is read without a sign. -/
theorem readInt?_of_digits {s : Text} (h : ∀ c ∈ s, isAsciiDigit c = true) :
    readInt? s = (digitsValue? s).bind fun n => int64? n := by
  unfold readInt?
  split
  · exact absurd (h '+' List.mem_cons_self) (by decide)
  · exact absurd (h '-' List.mem_cons_self) (by decide)
  · rfl

theorem readInt?_showNat {n : Nat} (h : IsInt64 n) : readInt? (showNat n) = some (n : Int) := by
  rw [readInt?_of_digits fun c hc => isAsciiDigit_of_mem_showNat hc, digitsValue?_showNat]
  exact int64?_eq_some_iff.2 ⟨rfl, h⟩

theorem readInt?_minus_showNat {n : Nat} (h : IsInt64 (-(n : Int))) :
    readInt? ('-' :: showNat n) = some (-(n : Int)) := by
  rw [readInt?, digitsValue?_showNat]
  exact int64?_eq_some_iff.2 ⟨rfl, h⟩

/-- An integer is read back from its numeral. -/
theorem readInt?_showInt {n : Int} (h : IsInt64 n) : readInt? (showInt n) = some n := by
  cases n with
  | ofNat n =>
    rw [Int.ofNat_eq_natCast] at h
    exact readInt?_showNat h
  | negSucc n =>
    rw [Int.negSucc_eq, ← Int.natCast_add_one] at h
    rw [showInt, readInt?_minus_showNat h, Int.neg_ofNat_succ]

/-- A numeral consists of ASCII digits after a sign that may be missing. -/
theorem mem_showInt {n : Int} {c : Char} (h : c ∈ showInt n) :
    isAsciiDigit c = true ∨ c = '-' := by
  cases n with
  | ofNat n => exact .inl (isAsciiDigit_of_mem_showNat h)
  | negSucc n =>
    rcases List.mem_cons.1 h with rfl | h
    · exact .inr rfl
    · exact .inl (isAsciiDigit_of_mem_showNat h)

theorem showInt_ne_nil (n : Int) : showInt n ≠ [] := by
  cases n with
  | ofNat n => exact showNat_ne_nil n
  | negSucc n => exact List.cons_ne_nil _ _

end TableSync
