import TableSync.Text.Blank
import TableSync.Text.Letter

/-!
# Decimal integers of 64 bits

Integers are read and written in decimal.  The range is that of signed 64-bit words: a numeral
outside it is not an integer, and arithmetic that would leave it has no value.

* `IsInt64` is the range, and `int64?` an integer that is in it.
* `digitsValue?` reads digits without a sign and without a bound, and `readInt?` a numeral with a
  sign or without one, within the range.  A plus sign and leading zeros are read, but not written.
* `showNat` and `showInt` write the digits.
* `hexValue?` is a single digit of base sixteen, for escapes.
-/

set_option autoImplicit false

namespace TableSync

/-- The integers of a signed 64-bit word. -/
def IsInt64 (n : Int) : Prop := -9223372036854775808 ≤ n ∧ n ≤ 9223372036854775807

instance (n : Int) : Decidable (IsInt64 n) := inferInstanceAs (Decidable (_ ∧ _))

/-- The integer itself, if it fits a signed 64-bit word. -/
def int64? (n : Int) : Option Int := if IsInt64 n then some n else none

theorem int64?_eq_some_iff {n m : Int} : int64? n = some m ↔ n = m ∧ IsInt64 n := by
  unfold int64?
  split <;> simp_all

/-- The number written by a non-empty run of ASCII digits that continues the number `acc`. -/
def digitsValueFrom (acc : Nat) : Text → Option Nat
  | [] => some acc
  | c :: r => if isAsciiDigit c then digitsValueFrom (acc * 10 + (c.toNat - 48)) r else none

/-- The number written by a non-empty text of ASCII digits. -/
def digitsValue? : Text → Option Nat
  | [] => none
  | s => digitsValueFrom 0 s

/-- The value of a hexadecimal digit. -/
def hexValue? (c : Char) : Option Nat :=
  if isAsciiDigit c then some (c.toNat - 48)
  else if 'a' ≤ c ∧ c ≤ 'f' then some (c.toNat - 87)
  else if 'A' ≤ c ∧ c ≤ 'F' then some (c.toNat - 55)
  else none

/-- The integer a text writes: an optional sign and ASCII digits, leading zeros allowed, within
64 bits. -/
def readInt? : Text → Option Int
  | '+' :: r => (digitsValue? r).bind fun n => int64? n
  | '-' :: r => (digitsValue? r).bind fun n => int64? (-n)
  | s => (digitsValue? s).bind fun n => int64? n

/-- The digits of a number. -/
def showNat (n : Nat) : Text := Nat.toDigits 10 n

/-- An integer in decimal, with a sign only if it is negative. -/
def showInt : Int → Text
  | .ofNat n => showNat n
  | .negSucc n => '-' :: showNat (n + 1)

end TableSync
