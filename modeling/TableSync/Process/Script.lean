import TableSync.Text.Numeral

/-!
# Shell scripts

The shape of small shell scripts: simple commands of quoted words, joined by `;`, `&&` and `||`,
with a redirection of one output to the other.

* `Script.parse?` takes a script apart.
* `Word.expand` puts the arguments of the script into a word.
-/

set_option autoImplicit false

namespace TableSync

/-- A piece of a word. -/
inductive WordPiece
  | text (t : Text)
  /-- A dollar sign with the name of an argument or of a special value. -/
  | variable (name : Char)
  deriving DecidableEq

/-- A word before its variables are known. -/
abbrev Word := List WordPiece

/-- When a command runs, seen from the command before it. -/
inductive Condition
  | always
  | ifSucceeded
  | ifFailed
  deriving DecidableEq

/-- A simple command. -/
structure ScriptCommand where
  /-- Whether the command is run after the one before it. -/
  condition : Condition
  /-- The name of the command and its arguments. -/
  words : List Word
  /-- The outputs, `1` and `2`, that go to other outputs. -/
  redirections : List (Nat × Nat)
  deriving DecidableEq

/-- A part of a script. -/
inductive ScriptToken
  | word (w : Word)
  | redirection (source target : Nat)
  | separator (next : Condition)

/-- How characters are quoted. -/
inductive ScriptQuote
  | none
  | single
  | double

/-- A word with one more character. -/
def Word.push (w : Word) (c : Char) : Word :=
  match w.getLast? with
  | some (.text t) => w.dropLast ++ [.text (t ++ [c])]
  | _ => w ++ [.text [c]]

/-- The name of a variable. -/
def isVariableName (c : Char) : Bool := isAsciiDigit c || c = '$' || c = '?' || c = '#'

/-- The value of a digit, one by default. -/
def outputOf (w? : Option Word) : Nat :=
  match w? with
  | some [.text t] => (digitsValue? t).getD 1
  | _ => 1

namespace Script

/-- Puts a finished word in front of tokens. -/
def flush (w? : Option Word) (rest : Option (List ScriptToken)) : Option (List ScriptToken) :=
  match w? with
  | some w => rest.map (.word w :: ·)
  | none => rest

/-- The tokens of the rest of a script, where `w?` is the word that is being read; an unclosed
quotation has none. -/
def lexFrom : ScriptQuote → (w? : Option Word) → Text → Option (List ScriptToken)
  | .none, w?, [] => flush w? (some [])
  | _, _, [] => none
  | .single, w?, c :: r =>
    let w := w?.getD []
    if c = '\'' then lexFrom .none (some w) r else lexFrom .single (some (w.push c)) r
  | .double, w?, '\\' :: c :: r =>
    let w := w?.getD []
    if c = '"' ∨ c = '\\' ∨ c = '$' then lexFrom .double (some (w.push c)) r
    else lexFrom .double (some ((w.push '\\').push c)) r
  | .double, w?, '$' :: c :: r =>
    let w := w?.getD []
    if isVariableName c then lexFrom .double (some (w ++ [.variable c])) r
    else if c = '"' then lexFrom .none (some (w.push '$')) r
    else lexFrom .double (some ((w.push '$').push c)) r
  | .double, w?, c :: r =>
    let w := w?.getD []
    if c = '"' then lexFrom .none (some w) r else lexFrom .double (some (w.push c)) r
  | .none, w?, '&' :: '&' :: r =>
    flush w? ((lexFrom .none none r).map (.separator .ifSucceeded :: ·))
  | .none, w?, '|' :: '|' :: r =>
    flush w? ((lexFrom .none none r).map (.separator .ifFailed :: ·))
  | .none, w?, '>' :: '&' :: c :: r =>
    (lexFrom .none none r).map (.redirection (outputOf w?) (c.toNat - 48) :: ·)
  | .none, w?, '\\' :: c :: r => lexFrom .none (some ((w?.getD []).push c)) r
  | .none, w?, '$' :: c :: r =>
    let w := w?.getD []
    if isVariableName c then lexFrom .none (some (w ++ [.variable c])) r
    else lexFrom .none (some ((w.push '$').push c)) r
  | .none, w?, c :: r =>
    let w := w?.getD []
    if c = ' ' ∨ c = '\t' then flush w? (lexFrom .none none r)
    else if c = '\n' ∨ c = ';' then
      flush w? ((lexFrom .none none r).map (.separator .always :: ·))
    else if c = '\'' then lexFrom .single (some w) r
    else if c = '"' then lexFrom .double (some w) r
    else lexFrom .none (some (w.push c)) r

/-- The commands of some tokens, where `current` is the command that is being read. -/
def commandsFrom (current : ScriptCommand) : List ScriptToken → List ScriptCommand
  | [] => if current.words.isEmpty then [] else [current]
  | .word w :: rest => commandsFrom { current with words := current.words ++ [w] } rest
  | .redirection source target :: rest =>
    commandsFrom { current with redirections := current.redirections ++ [(source, target)] } rest
  | .separator next :: rest =>
    let others := commandsFrom ⟨next, [], []⟩ rest
    if current.words.isEmpty then others else current :: others

/-- The commands of a script. -/
def parse? (s : Text) : Option (List ScriptCommand) :=
  (lexFrom .none none s).map (commandsFrom ⟨.always, [], []⟩)

end Script

/-- A word with the values of its variables. -/
def Word.expand (value : Char → Text) (w : Word) : String :=
  String.ofList <| w.flatMap fun
    | .text t => t
    | .variable name => value name

end TableSync
