import TableSync.Text.Numeral

/-!
# Folding literal conditional expressions

After preprocessing, most switches over generations are expressions in numbers, such as
`(8 >= 6) ? 65 : 60`.  `fold?` gives the value of such a text by the grammar

    ternary    := logic ( '?' ternary ':' ternary )?
    logic      := comparison ( ('&&' | '||') comparison )*
    comparison := additive ( ('==' | '!=' | '>=' | '<=' | '>' | '<') additive )?
    additive   := term ( ('+' | '-') term )*
    term       := atom ( ('*' | '/') atom )*
    atom       := INT | '(' ternary ')' | '-' atom

Comparisons and logic give `1` or `0`, division truncates toward zero, and arithmetic is that of
signed 64-bit words: a text in which any part overflows or divides by zero has no value.  A text
that does not look like a conditional of literals (`hasTernary`) is not tried.
-/

set_option autoImplicit false

namespace TableSync

/-! ## Does a text look like a literal conditional? -/

/-- The rests of a text after each closing parenthesis of its first line. -/
def afterClosings : Text → List Text
  | [] => []
  | c :: r => if c = '\n' then [] else if c = ')' then r :: afterClosings r else afterClosings r

/-- The rests of a text after one or more decimal digits at its start. -/
def afterDigits : Text → List Text
  | [] => []
  | c :: r => if isDecimal c then r :: afterDigits r else []

/-- The rests of a text after an operand at its start: a run of digits, or a parenthesis closed on
the same line. -/
def afterOperand : Text → List Text
  | [] => []
  | c :: r => if c = '(' then afterClosings r else afterDigits (c :: r)

/-- Whether an operand stands at the start of a text, blanks aside, before what `next` accepts. -/
def operandThen (next : Text → Bool) (s : Text) : Bool := (afterOperand (trimStart s)).any next

/-- Whether a text starts, blanks aside, with the mark `c` and then what `next` accepts. -/
def markThen (c : Char) (next : Text → Bool) (s : Text) : Bool :=
  match trimStart s with
  | [] => false
  | d :: r => d = c && next r

/-- Whether a conditional of literals starts here: operand, `?`, operand, `:`, operand. -/
def ternaryStarts (s : Text) : Bool :=
  (afterOperand s).any <|
    markThen '?' <| operandThen <| markThen ':' <| operandThen fun _ => true

/-- Whether a conditional of literals starts anywhere in the text. -/
def hasTernary : Text → Bool
  | [] => false
  | c :: r => ternaryStarts (c :: r) || hasTernary r

/-! ## Tokens -/

namespace Fold

/-- The tokens of an expression. -/
inductive Token
  | int (n : Int)
  | question
  | colon
  | and
  | or
  | eq
  | ne
  | ge
  | le
  | gt
  | lt
  | plus
  | minus
  | star
  | slash
  | opening
  | closing
  deriving DecidableEq

/-- The token of one character. -/
def single? : Char → Option Token
  | '?' => some .question
  | ':' => some .colon
  | '+' => some .plus
  | '-' => some .minus
  | '*' => some .star
  | '/' => some .slash
  | '(' => some .opening
  | ')' => some .closing
  | '>' => some .gt
  | '<' => some .lt
  | _ => none

/-- The token of two characters. -/
def double? : Char → Char → Option Token
  | '&', '&' => some .and
  | '|', '|' => some .or
  | '=', '=' => some .eq
  | '!', '=' => some .ne
  | '>', '=' => some .ge
  | '<', '=' => some .le
  | _, _ => none

/-- Puts the integer in front whose digits (last first) have just been read, if there are any. -/
def emit (digits : Text) (rest : Option (List Token)) : Option (List Token) :=
  if digits.isEmpty then rest
  else do return .int (← readInt? digits.reverse) :: (← rest)

/-- The tokens of the rest of a text, where `digits` (last first) have been read of an integer. -/
def tokensFrom (digits : Text) : Text → Option (List Token)
  | [] => emit digits (some [])
  | [c] =>
    if isAsciiDigit c then emit (c :: digits) (some [])
    else if isBlank c then emit digits (some [])
    else emit digits ((single? c).map fun t => [t])
  | c :: d :: r =>
    if isAsciiDigit c then tokensFrom (c :: digits) (d :: r)
    else if isBlank c then emit digits (tokensFrom [] (d :: r))
    else
      match double? c d with
      | some t => emit digits ((tokensFrom [] r).map (t :: ·))
      | none =>
        match single? c with
        | some t => emit digits ((tokensFrom [] (d :: r)).map (t :: ·))
        | none => none

/-- The tokens of a text; blanks separate tokens and are dropped. -/
def tokens? (s : Text) : Option (List Token) := tokensFrom [] s

/-! ## Evaluation -/

/-- Truth as an integer. -/
def ofBool (b : Bool) : Int := if b then 1 else 0

/-- A quotient truncated toward zero. -/
def quotient? (a b : Int) : Option Int := if b = 0 then none else int64? (a.tdiv b)

/-- What a comparison operator asks of two integers. -/
def comparison? : Token → Option (Int → Int → Bool)
  | .eq => some fun a b => a == b
  | .ne => some fun a b => a != b
  | .ge => some fun a b => a ≥ b
  | .le => some fun a b => a ≤ b
  | .gt => some fun a b => a > b
  | .lt => some fun a b => a < b
  | _ => none

/-- A value and the tokens after the expression it was read from. -/
abbrev Reading := Option (Int × List Token)

mutual

/-- Reads a `ternary`.  The first argument bounds the depth of calls. -/
def ternary : Nat → List Token → Reading
  | 0, _ => none
  | n + 1, ts =>
    match logic n ts with
    | some (cond, .question :: ts) =>
      match ternary n ts with
      | some (whenTrue, .colon :: ts) =>
        match ternary n ts with
        | some (whenFalse, ts) => some (if cond ≠ 0 then whenTrue else whenFalse, ts)
        | none => none
      | _ => none
    | other => other

/-- Reads a `logic`. -/
def logic : Nat → List Token → Reading
  | 0, _ => none
  | n + 1, ts =>
    match comparison n ts with
    | some (lhs, ts) => logicTail n lhs ts
    | none => none

/-- Continues a `logic` whose value so far is `lhs`. -/
def logicTail : Nat → Int → List Token → Reading
  | 0, _, _ => none
  | n + 1, lhs, .and :: ts =>
    match comparison n ts with
    | some (rhs, ts) => logicTail n (ofBool (lhs != 0 && rhs != 0)) ts
    | none => none
  | n + 1, lhs, .or :: ts =>
    match comparison n ts with
    | some (rhs, ts) => logicTail n (ofBool (lhs != 0 || rhs != 0)) ts
    | none => none
  | _ + 1, lhs, ts => some (lhs, ts)

/-- Reads a `comparison`. -/
def comparison : Nat → List Token → Reading
  | 0, _ => none
  | n + 1, ts =>
    match additive n ts with
    | some (lhs, t :: ts) =>
      match comparison? t with
      | some holds =>
        match additive n ts with
        | some (rhs, ts) => some (ofBool (holds lhs rhs), ts)
        | none => none
      | none => some (lhs, t :: ts)
    | other => other

/-- Reads an `additive`. -/
def additive : Nat → List Token → Reading
  | 0, _ => none
  | n + 1, ts =>
    match term n ts with
    | some (lhs, ts) => additiveTail n lhs ts
    | none => none

/-- Continues an `additive` whose value so far is `lhs`. -/
def additiveTail : Nat → Int → List Token → Reading
  | 0, _, _ => none
  | n + 1, lhs, .plus :: ts =>
    match term n ts with
    | some (rhs, ts) =>
      match int64? (lhs + rhs) with
      | some sum => additiveTail n sum ts
      | none => none
    | none => none
  | n + 1, lhs, .minus :: ts =>
    match term n ts with
    | some (rhs, ts) =>
      match int64? (lhs - rhs) with
      | some difference => additiveTail n difference ts
      | none => none
    | none => none
  | _ + 1, lhs, ts => some (lhs, ts)

/-- Reads a `term`. -/
def term : Nat → List Token → Reading
  | 0, _ => none
  | n + 1, ts =>
    match atom n ts with
    | some (lhs, ts) => termTail n lhs ts
    | none => none

/-- Continues a `term` whose value so far is `lhs`. -/
def termTail : Nat → Int → List Token → Reading
  | 0, _, _ => none
  | n + 1, lhs, .star :: ts =>
    match atom n ts with
    | some (rhs, ts) =>
      match int64? (lhs * rhs) with
      | some product => termTail n product ts
      | none => none
    | none => none
  | n + 1, lhs, .slash :: ts =>
    match atom n ts with
    | some (rhs, ts) =>
      match quotient? lhs rhs with
      | some quotient => termTail n quotient ts
      | none => none
    | none => none
  | _ + 1, lhs, ts => some (lhs, ts)

/-- Reads an `atom`. -/
def atom : Nat → List Token → Reading
  | 0, _ => none
  | _ + 1, .int n :: ts => some (n, ts)
  | n + 1, .opening :: ts =>
    match ternary n ts with
    | some (value, .closing :: ts) => some (value, ts)
    | _ => none
  | n + 1, .minus :: ts =>
    match atom n ts with
    | some (value, ts) => (int64? (-value)).map fun m => (m, ts)
    | none => none
  | _ + 1, _ => none

end

/-- The value of a list of tokens that is one `ternary` as a whole.  Between two tokens there are
fewer than eight calls, which bounds the depth. -/
def evaluate? (ts : List Token) : Option Int :=
  match ternary (8 * (ts.length + 1)) ts with
  | some (value, []) => some value
  | _ => none

end Fold

/-- The value of a text that is a conditional expression of literals. -/
def fold? (s : Text) : Option Int :=
  if hasTernary s then (Fold.tokens? s).bind Fold.evaluate? else none

end TableSync
