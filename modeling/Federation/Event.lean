import Federation.Action.Outcome
import Federation.LogicalUser
import Federation.Subject

/-! # Events

What an observer of a federation is told: actions that start and finish, warnings of a merge, and
fan-outs that are complete.  `Event.logLine` words an event for a log; the identifiers of actions
and fan-outs are written `<id>`. -/

namespace Federation

/-- The numbers of a fan-out that is complete. -/
structure Summary where
  targeted : Nat
  succeeded : Nat
  failed : Nat
  deriving DecidableEq, Repr

/-- One thing an observer is told. -/
inductive Event where
  | started (subject : Subject)
  | finished (subject : Subject) (status : Status)
  | warning (w : MergeWarning)
  | completed (s : Summary)
  deriving DecidableEq, Repr

/-- How important a line of a log is. -/
inductive LogLevel where
  | debug
  | info
  | warn
  deriving DecidableEq, Repr

/-- The name of a level. -/
def LogLevel.name : LogLevel → String
  | debug => "DEBUG"
  | info => "INFO"
  | warn => "WARN"

/-- One line of a log. -/
structure LogLine where
  target : String
  level : LogLevel
  text : String
  deriving DecidableEq, Repr

/-- The target of the lines of an observer that was given none. -/
def LogLine.defaultTarget : String := "directory_federation::events"

/-- How a logging observer words an event. -/
def Event.logLine (target : String) : Event → LogLine
  | started s => ⟨target, .debug, s!"Action <id> started for {s.inspect}"⟩
  | finished s status =>
    ⟨target, if status = .failed then .warn else .debug,
      s!"Action <id> for {s.inspect} finished: {status.caption}"⟩
  | warning w => ⟨target, .warn, w.message⟩
  | completed n =>
    ⟨target, .info,
      s!"Fan-out <id> completed: {n.succeeded}/{n.targeted} succeeded, {n.failed} failed"⟩

end Federation
