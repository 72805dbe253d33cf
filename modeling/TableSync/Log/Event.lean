/-!
# Events

What a run tells about itself: messages of six levels, and the outcome of each step.  A step is one
phase of the work on one category.

* `Phase` and `StepStatus` are what a step is about and how it ended; `Step` puts them together with
  the category.
* `Level` is the weight and purpose of a message.
* `Event` is a message or a step that has ended, and also a program that was started, which is shown
  among the details.

Events are values.  Work on files adds to a list of them, and how they are shown is decided when the
work has ended, in `TableSync.Log.Console`.
-/

set_option autoImplicit false

namespace TableSync

/-- A phase of the work, in the order in which a run goes through them. -/
inductive Phase
  /-- Sources are read into a document. -/
  | extract
  /-- A document is read. -/
  | load
  /-- A document with edits is saved. -/
  | persist
  /-- Sources are written from a document. -/
  | build
  /-- Pristine sources are put back. -/
  | restore
  deriving DecidableEq, Repr

namespace Phase

/-- Every phase, in order. -/
def all : List Phase := [extract, load, persist, build, restore]

/-- The verb of a phase. -/
def verb : Phase → String
  | extract => "extract"
  | load => "load"
  | persist => "persist"
  | build => "build"
  | restore => "restore"

end Phase

/-- How a step ended. -/
inductive StepStatus
  /-- Something was written. -/
  | done
  /-- Nothing had to be done. -/
  | unchanged
  /-- It was not tried, or what was there before was kept. -/
  | skipped
  /-- It would have been done. -/
  | dryRun
  | failed
  deriving DecidableEq, Repr

/-- A step that has ended. -/
structure Step where
  /-- The phase of the work. -/
  phase : Phase
  /-- The category, by its id. -/
  category : String
  /-- How the step ended. -/
  status : StepStatus
  /-- What there is to say about it. -/
  detail? : Option String
  deriving DecidableEq, Repr

/-- The phase and the category of a step. -/
def Step.label (s : Step) : String := s!"{s.phase.verb} {s.category}"

/-- The weight and purpose of a message. -/
inductive Level
  /-- The head of a stage. -/
  | stage
  | info
  | debug
  | warn
  | error
  /-- What would have been done. -/
  | dryRun
  deriving DecidableEq, Repr

/-- Something that a run tells. -/
inductive Event
  | message (level : Level) (text : String)
  | step (s : Step)
  /-- A program was started in a directory. -/
  | spawned (command : List String) (directory : String)
  deriving DecidableEq, Repr

/-- The steps among some events. -/
def stepsOf (events : List Event) : List Step :=
  events.filterMap fun
    | .step s => some s
    | _ => none

/-- The steps that failed. -/
def failedSteps (steps : List Step) : List Step := steps.filter (·.status = .failed)

/-- The phases that occur among some steps, in order. -/
def phasesOf (steps : List Step) : List Phase :=
  Phase.all.filter fun phase => steps.any (·.phase = phase)

end TableSync
