import TableSync.Text.Basic

/-!
# The command line

`Invocation.parse` reads the arguments of a run.  The arguments of the program come first, then the
name of a command with its own arguments; `--verbose` and `--root` may stand in both places.

* Options may be given once in each place; of two roots the one after the command counts.
* `--root` takes the next argument as its value, unless that is an option itself.
* After `--` every argument is taken as it is.
* Of several faults the first one from the left is reported, but a root is checked only when the
  next option is met or the arguments end.
-/

set_option autoImplicit false

namespace TableSync

/-- What a run is asked to do. -/
inductive Command
  /-- Sources are read into documents, if `force` is set also where that is not due. -/
  | extract (force : Bool)
  /-- Sources are written from documents; in a dry run nothing is written. -/
  | build (dryRun : Bool)
  | restore
  | status
  /-- A document, or the value at the end of a path in it, is printed. -/
  | print (category : String) (path? : Option String)
  /-- The value at the end of a path is changed. -/
  | assign (category path value : String)
  | version
  deriving DecidableEq

/-- The name of a command. -/
def Command.name : Command → String
  | extract _ => "extract"
  | build _ => "build"
  | restore => "restore"
  | status => "status"
  | print .. => "show"
  | assign .. => "set"
  | version => "version"

/-- Why there is nothing to run. -/
inductive UsageError
  | helpRequested
  | versionRequested
  /-- There are no arguments at all. -/
  | nothingRequested
  | missingCommand
  | unknownCommand
  | unknownArgument
  | missingArgument
  | missingValue
  | unexpectedValue
  | repeatedOption
  deriving DecidableEq, Repr

/-- The exit code of a run that ends with the reading of its arguments. -/
def UsageError.exitCode : UsageError → Nat
  | helpRequested | versionRequested => 0
  | _ => 2

/-- What a run is asked to do, with the options that every command has. -/
structure Invocation where
  /-- The command with its own arguments. -/
  command : Command
  /-- Whether details are shown. -/
  verbose : Bool
  /-- The root of the project, if it is named. -/
  root? : Option String
  deriving DecidableEq

namespace Invocation

/-! ## One level of arguments -/

/-- The arguments that are understood in one place. -/
structure Grammar where
  /-- Whether commands are understood here. -/
  takesCommand : Bool := false
  /-- The option of the command itself, long and short. -/
  flag? : Option (String × Char) := none
  /-- The least and the greatest number of plain arguments. -/
  least : Nat := 0
  /-- No more plain arguments are taken than these. -/
  most : Nat := 0

/-- A root that has been named. -/
inductive PendingRoot
  | none
  /-- The value has not come yet. -/
  | awaiting
  /-- The value has come, and is to be checked. -/
  | given (value : String)
  deriving DecidableEq

/-- What has been read of the arguments in one place. -/
structure Level where
  /-- Whether the option for details has come. -/
  verbose : Bool := false
  /-- Whether the option of the command has come. -/
  flag : Bool := false
  /-- The root that has been taken. -/
  root? : Option String := none
  /-- The root that has been named and not taken yet. -/
  pending : PendingRoot := .none
  /-- The plain arguments, in their order. -/
  plain : List String := []
  /-- Whether `--` has been passed. -/
  literal : Bool := false

namespace Level

/-- Takes a root, which is not empty and comes once. -/
def takeRoot (l : Level) (value : String) : Except UsageError Level :=
  if l.root?.isSome then .error .repeatedOption
  else if value.isEmpty then .error .missingValue
  else .ok { l with root? := some value, pending := .none }

/-- Checks a root that is pending. -/
def settle (l : Level) : Except UsageError Level :=
  match l.pending with
  | .none => .ok l
  | .awaiting => .error .missingValue
  | .given value => l.takeRoot value

/-- An option without a value. -/
inductive Switch
  | verbose
  | flag
  | help
  | version

/-- Turns a switch on. -/
def turnOn (l : Level) (switch : Switch) : Except UsageError Level := do
  let l ← l.settle
  match switch with
  | .help => .error .helpRequested
  | .version => .error .versionRequested
  | .verbose => if l.verbose then .error .repeatedOption else return { l with verbose := true }
  | .flag => if l.flag then .error .repeatedOption else return { l with flag := true }

/-- The switch with a long name. -/
def longSwitch? (g : Grammar) (name : String) : Option Switch :=
  if name = "verbose" then some .verbose
  else if name = "help" then some .help
  else if name = "version" ∧ g.takesCommand then some .version
  else if (g.flag?.map Prod.fst) = some name then some .flag
  else none

/-- The switch with a letter. -/
def letterSwitch? (g : Grammar) (letter : Char) : Option Switch :=
  if letter = 'v' then some .verbose
  else if letter = 'h' then some .help
  else if letter = 'V' ∧ g.takesCommand then some .version
  else if (g.flag?.map Prod.snd) = some letter then some .flag
  else none

/-- An option with a long name, with what follows an equals sign. -/
def readLong (g : Grammar) (l : Level) (name : String) (value? : Option String) :
    Except UsageError Level :=
  if name = "root" then
    match value? with
    | some value => do (← l.settle).takeRoot value
    | none => do return { ← l.settle with pending := .awaiting }
  else
    match longSwitch? g name, value? with
    | some _, some _ => .error .unexpectedValue
    | some switch, none => l.turnOn switch
    | none, _ => .error .unknownArgument

/-- Letters after a dash. -/
def readLetters (g : Grammar) : Level → Text → Except UsageError Level
  | l, [] => .ok l
  | l, c :: r =>
    match letterSwitch? g c with
    | some switch => do readLetters g (← l.turnOn switch) r
    | none => .error .unknownArgument

/-- A plain argument. -/
def readPlain (g : Grammar) (isCommand : Bool) (l : Level) (arg : String) :
    Except UsageError Level :=
  if l.plain.length < g.most then do
    let l ← l.settle
    return { l with plain := l.plain ++ [arg] }
  else if g.takesCommand && !(l.literal && isCommand) then .error .unknownCommand
  else .error .unknownArgument

/-- The name of an option and what follows its equals sign. -/
def splitOption (s : Text) : String × Option String :=
  match cut? ['='] s with
  | some (name, value) => (String.ofList name, some (String.ofList value))
  | none => (String.ofList s, none)

/-- One argument that is no command. -/
def readArgument (g : Grammar) (isCommand : Bool) (l : Level) (arg : String) :
    Except UsageError Level :=
  if l.literal then l.readPlain g isCommand arg
  else
    match arg.toList with
    | ['-', '-'] => .ok { l with literal := true }
    | '-' :: '-' :: option =>
      let (name, value?) := splitOption option
      l.readLong g name value?
    | '-' :: c :: letters => l.readLetters g (c :: letters)
    | _ =>
      if l.pending = .awaiting then .ok { l with pending := .given arg }
      else l.readPlain g isCommand arg

/-- Whether a command would be understood at this point. -/
def mayNameCommand (g : Grammar) (l : Level) : Bool :=
  g.takesCommand && !l.literal && l.pending ≠ .awaiting

end Level

/-- Reads arguments in one place, up to a command: what was read, and the command with the arguments
after it. -/
def readLevel (g : Grammar) (isCommand : String → Bool) :
    Level → List String → Except UsageError (Level × Option (String × List String))
  | l, [] => .ok (l, none)
  | l, arg :: rest =>
    if l.mayNameCommand g && isCommand arg then .ok (l, some (arg, rest))
    else do readLevel g isCommand (← l.readArgument g (isCommand arg) arg) rest

/-! ## Commands -/

/-- The arguments before the command. -/
def outer : Grammar where
  takesCommand := true

/-- The arguments that a command understands. -/
def grammar? : String → Option Grammar
  | "extract" => some { flag? := some ("force", 'f') }
  | "build" => some { flag? := some ("dry-run", 'd') }
  | "restore" => some {}
  | "status" => some {}
  | "show" => some { least := 1, most := 2 }
  | "set" => some { least := 3, most := 3 }
  | "version" => some {}
  | _ => none

/-- The command that asks for help. -/
def helpName : String := "help"

/-- Whether an argument is the name of a command. -/
def isCommandName (name : String) : Bool := name = helpName || (grammar? name).isSome

/-- The command with a name, from its arguments. -/
def command? (name : String) (l : Level) : Option Command :=
  match name, l.plain with
  | "extract", _ => some (.extract l.flag)
  | "build", _ => some (.build l.flag)
  | "restore", _ => some .restore
  | "status", _ => some .status
  | "show", [category] => some (.print category none)
  | "show", [category, path] => some (.print category (some path))
  | "set", [category, path, value] => some (.assign category path value)
  | "version", _ => some .version
  | _, _ => none

/-- The arguments of the command `help`: at most one command. -/
def readHelp : List String → UsageError
  | [] => .helpRequested
  | [name] => if isCommandName name then .helpRequested else .unknownCommand
  | _ => .unknownCommand

/-- A command with its arguments. -/
def readCommand (name : String) (args : List String) : Except UsageError (Command × Level) :=
  match grammar? name with
  | none => .error (readHelp args)
  | some g => do
    let (l, _) ← readLevel g (fun _ => false) {} args
    let l ← l.settle
    match command? name l with
    | some command => return (command, l)
    | none => .error .missingArgument

/-- Reads the arguments of a run, the first of which is the name of the program. -/
def parse (args : List String) : Except UsageError Invocation := do
  let (before, found?) ← readLevel outer isCommandName {} args.tail
  match found? with
  | some (name, rest) =>
    let (command, after) ← readCommand name rest
    let before ← before.settle
    return ⟨command, before.verbose || after.verbose, after.root?.or before.root?⟩
  | none =>
    let before ← before.settle
    if before.verbose || before.root?.isSome then .error .missingCommand
    else .error .nothingRequested

end Invocation

end TableSync
