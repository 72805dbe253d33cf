import TableSync.Text.Search
import TableSync.Proofs.Text.Split
import TableSync.Proofs.Text.Word

/-!
# What a search finds

A recogniser looks at the start of a text, and a search tries it at every place of the text from
left to right.  To say what a search finds in a line that was written, every place before the right
one has to be ruled out.

* `search?_append` is for a recogniser that needs some character first: the places without this
  character are passed over, so a search of such text and what follows it is a search of what
  follows.
* `search?_eq_none` is for a recogniser that needs some character anywhere: nothing is found in a
  text without it.
* `search?_eq_some` is the place at which it is found.
* `wordAt?_append` and `digitsAt?_append` are the recognisers that most others are made of: after
  blanks a word or a numeral is read, up to the first character that does not belong to it.

Which characters a recogniser needs is shown where its search is.
-/

set_option autoImplicit false

namespace TableSync

variable {α : Type} {at? : Text → Option α}

/-- The places without a character that a shape starts with are passed over. -/
theorem search?_append {x : Char} (hat : ∀ c s, x ≠ c → at? (c :: s) = none) {p : Text}
    (hp : x ∉ p) (s : Text) : search? at? (p ++ s) = search? at? s := by
  induction p with
  | nil => rfl
  | cons c p ih =>
    rw [List.mem_cons, not_or] at hp
    rw [List.cons_append, search?, hat c _ hp.1, ih hp.2, Option.none_or]

/-- Nothing is found without a character that a shape has. -/
theorem search?_eq_none {x : Char} (hat : ∀ s, x ∉ s → at? s = none) {s : Text} (hs : x ∉ s) :
    search? at? s = none := by
  induction s with
  | nil => exact hat [] hs
  | cons c s ih =>
    rw [search?, hat _ hs, ih fun h => hs (List.mem_cons_of_mem c h), Option.none_or]

theorem search?_eq_some {s : Text} {a : α} (h : at? s = some a) : search? at? s = some a := by
  cases s with
  | nil => exact h
  | cons c s => rw [search?, h, Option.some_or]

/-- Blanks before a word are trimmed, and no more. -/
theorem trimStart_blanks_word {b w : Text} (hb : ∀ c ∈ b, isBlank c = true) (hw : IsWord w)
    (r : Text) : trimStart (b ++ (w ++ r)) = w ++ r := by
  have hhead : ∀ c ∈ (w ++ r).head?, isBlank c = false := by
    cases w with
    | nil => exact absurd rfl hw.1
    | cons c w => exact hw.isTrimmed.1
  rw [trimStart_blanks_append hb, trimStart_eq_self hhead]

/-- A word is read up to the end of its characters. -/
theorem wordAt?_append {b w r : Text} (hb : ∀ c ∈ b, isBlank c = true) (hw : IsWord w)
    (hr : ∀ c ∈ r.head?, isWordChar c = false) : wordAt? (b ++ (w ++ r)) = some (w, r) := by
  rw [wordAt?, trimStart_blanks_word hb hw, wordRun_append hw.2 hr]
  cases w with
  | nil => exact absurd rfl hw.1
  | cons c w => rfl

/-- A numeral is read up to the end of its digits. -/
theorem digitsAt?_append {b d r : Text} (hb : ∀ c ∈ b, isBlank c = true) (hne : d ≠ [])
    (hd : ∀ c ∈ d, isAsciiDigit c = true) (hr : ∀ c ∈ r.head?, isDecimal c = false) :
    digitsAt? (b ++ (d ++ r)) = some (d, r) := by
  have hword : IsWord d := ⟨hne, fun c hc => isWordChar_of_isAsciiDigit (hd c hc)⟩
  have hdecimal : ∀ c ∈ d, isDecimal c = true := fun c hc => isDecimal_of_isAsciiDigit (hd c hc)
  rw [digitsAt?, trimStart_blanks_word hb hword, span_append hdecimal hr]
  cases d with
  | nil => exact absurd rfl hne
  | cons c d => rfl

end TableSync
