import TableSync.Log.Event
import TableSync.Text.Numeral

/-!
# Showing events

Events are shown on the console, with colours, and kept in a log file, without.  The console shows
the events that a `Filter` lets through: warnings and errors on the error output, all else on the
other.  The log file keeps every message with the time.

* `Event.consoleLine?` and `Event.fileLine?` are the lines of an event.
* `summary` lists the outcomes of all steps by phase, with totals.
-/

set_option autoImplicit false

namespace TableSync

/-! ## Texts of events -/

/-- The weight of an event, the weightiest first. -/
inductive Severity
  | error
  | warn
  | info
  | debug
  deriving DecidableEq

namespace Severity

/-- The place in the order of weights. -/
def rank : Severity → Nat
  | error => 1
  | warn => 2
  | info => 3
  | debug => 4

end Severity

/-- The weight of a message. -/
def Level.severity : Level → Severity
  | .stage | .info | .dryRun => .info
  | .debug => .debug
  | .warn => .warn
  | .error => .error

/-- The name by which a filter knows where a message comes from. -/
def Level.target : Level → String
  | .stage => "porysync::stage"
  | .dryRun => "porysync::dry_run"
  | _ => "porysync::logging::logger"

/-- An event as it is shown: where it comes from, its level and its text.  Steps are not shown. -/
def Event.shown? : Event → Option (String × Level × String)
  | .message level text => some (level.target, level, text)
  | .spawned command directory =>
    let program := command.head?.getD ""
    let line := " ".intercalate command
    some ("porysync::exec", .debug, s!"spawning {line} program={program} workdir={directory}")
  | .step _ => none

/-! ## Colours -/

/-- What starts a colour or style, and what ends it. -/
def styled (code text : String) : String := "\x1b[" ++ code ++ "m" ++ text ++ "\x1b[0m"

/-- What follows the end of a control sequence that has been opened. -/
def afterSequence : Text → Text
  | [] => []
  | c :: r => if 64 ≤ c.toNat ∧ c.toNat ≤ 126 then r else afterSequence r

theorem length_afterSequence_le (s : Text) : (afterSequence s).length ≤ s.length := by
  induction s with
  | nil => exact Nat.le_refl 0
  | cons c r ih =>
    rw [afterSequence]
    split
    · exact Nat.le_succ _
    · exact Nat.le_succ_of_le ih

/-- A text without control sequences. -/
def withoutStyles : Text → Text
  | [] => []
  | '\x1b' :: '[' :: r => withoutStyles (afterSequence r)
  | ['\x1b'] => []
  | '\x1b' :: _ :: r => withoutStyles r
  | c :: r => c :: withoutStyles r
termination_by s => s.length
decreasing_by
  all_goals simp only [List.length_cons]
  · have := length_afterSequence_le r
    omega
  all_goals omega

/-! ## Lines -/

/-- A line on the console. -/
def Level.consoleLine (level : Level) (text : String) : String :=
  match level with
  | .error => styled "31" "ERROR" ++ " " ++ text
  | .warn => styled "33" "WARN" ++ "  " ++ text
  | .stage => styled "1;34" "==>" ++ " " ++ styled "1" text
  | .dryRun => "  " ++ styled "33" "[DRY RUN]" ++ " " ++ text
  | .info => "  " ++ text
  | .debug => "  " ++ styled "2" text

/-- A line of the log file, after its time. -/
def Level.fileLine (level : Level) (text : String) : String :=
  match level with
  | .stage => s!"==> {text}"
  | .dryRun => s!"    [dry run] {text}"
  | .error => s!"    [error] {text}"
  | .warn => s!"    [warn] {text}"
  | .debug => s!"    [debug] {text}"
  | .info => s!"    {text}"

/-- The line of an event in the log file, with a time. -/
def Event.fileLine? (time : String) (e : Event) : Option String :=
  e.shown?.map fun (_, level, text) =>
    "[" ++ time ++ "] " ++ level.fileLine (String.ofList (withoutStyles text.toList))

/-! ## What the console shows -/

/-- What a filter lets through from some places: events up to a weight, as a rank. -/
structure Directive where
  /-- The start of the places that are meant; every place starts with the empty text. -/
  target : String
  /-- Events up to this rank are shown. -/
  rank : Nat

/-- What the console shows. -/
abbrev Filter := List Directive

namespace Filter

/-- The filter of a run: details are shown on request. -/
def standard (verbose : Bool) : Filter :=
  [⟨"", if verbose then Severity.debug.rank else Severity.info.rank⟩]

/-- The rank that a word names. -/
def rank? (word : Text) : Option Nat :=
  let lower := String.ofList (word.map Char.toLower)
  [("off", 0), ("error", 1), ("warn", 2), ("info", 3), ("debug", 4), ("trace", 5),
    ("0", 0), ("1", 1), ("2", 2), ("3", 3), ("4", 4), ("5", 5)].lookup lower

/-- Whether a text can name a place. -/
def isTarget (s : Text) : Bool :=
  !s.isEmpty && s.all fun c => isWordChar c || c = ':' || c = '-'

/-- A directive: a rank, a place, or both with an equals sign between them.  A place without a rank
lets everything through. -/
def directive? (s : Text) : Option Directive :=
  match rank? s, cut? ['='] s with
  | some rank, _ => some ⟨"", rank⟩
  | none, none => if isTarget s then some ⟨String.ofList s, 5⟩ else none
  | none, some (target, word) =>
    if !isTarget target then none
    else if word.isEmpty then some ⟨String.ofList target, 5⟩
    else (rank? word).map fun rank => ⟨String.ofList target, rank⟩

/-- The filter that a text with commas writes; without directives, errors are shown. -/
def parse? (s : Text) : Option Filter :=
  match (splitOn [','] s).filter (!·.isEmpty) with
  | [] => some [⟨"", Severity.error.rank⟩]
  | parts => parts.mapM directive?

/-- The better of two directives for one place: the longer name counts, then the later one. -/
def better (found? : Option Directive) (d : Directive) : Option Directive :=
  match found? with
  | some found => if d.target.length < found.target.length then some found else some d
  | none => some d

/-- Whether an event from a place is shown. -/
def shows (filter : Filter) (target : String) (severity : Severity) : Bool :=
  let fitting := filter.filter fun d => startsWith d.target.toList target.toList
  match fitting.foldl better none with
  | some d => severity.rank ≤ d.rank
  | none => false

end Filter

/-- The line of an event on the console, and whether it is for the error output. -/
def Event.consoleLine? (filter : Filter) (e : Event) : Option (Bool × String) :=
  e.shown?.bind fun (target, level, text) =>
    if filter.shows target level.severity then
      some (level = .error ∨ level = .warn, level.consoleLine text)
    else none

/-! ## Summary -/

namespace StepStatus

/-- Every outcome, in the order of the totals. -/
def all : List StepStatus := [done, unchanged, skipped, dryRun, failed]

/-- The sign of an outcome. -/
def sign : StepStatus → String
  | done => "✓"
  | unchanged => "·"
  | skipped => "○"
  | dryRun => "~"
  | failed => "✗"

/-- The colour of an outcome. -/
def colour : StepStatus → String
  | done => "32"
  | unchanged => "2"
  | skipped => "33"
  | dryRun => "37"
  | failed => "31"

/-- The word for an outcome in the totals. -/
def word : StepStatus → String
  | done => "done"
  | unchanged => "unchanged"
  | skipped => "skipped"
  | dryRun => "dry-run"
  | failed => "failed"

end StepStatus

/-- The line of a step in the summary. -/
def Step.summaryLine (s : Step) : String :=
  let detail := match s.detail? with
    | some detail => s!" ({detail})"
    | none => ""
  "  " ++ styled s.status.colour s!"{s.status.sign} {s.category}{detail}"

/-- The line of totals. -/
def totalsLine (steps : List Step) : String :=
  let totals := StepStatus.all.map fun status =>
    let count := (steps.filter (·.status = status)).length
    styled status.colour s!"{count} {status.word}"
  s!"{steps.length} steps: " ++ ", ".intercalate totals

/-- The messages of the summary of some steps, with the place of the log file; nothing for no
steps. -/
def summary (steps : List Step) (logFile? : Option String) : List Event :=
  if steps.isEmpty then []
  else
    let phases := (phasesOf steps).flatMap fun phase =>
      styled "1" phase.verb :: (steps.filter (·.phase = phase)).map Step.summaryLine
    let place := logFile?.toList.map fun path => styled "2" s!"log: {path}"
    .message .stage "Summary"
      :: (phases ++ [totalsLine steps] ++ place).map (.message .info)

end TableSync
