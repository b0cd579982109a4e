import Federation.Event
import Federation.Json.Printer

/-! # Documents of events

Who listens to the events of a federation decides what is written: a recorder writes an event as it
is, a logger writes a line of its log.

Things that finish at the same time may be told in any order.  So that a log can be compared with
another one, each run of lines about finished things is sorted by text.

* `perm_sortRuns` — sorting loses and invents no line. -/

namespace Federation.Wire

/-- Who listens to the events of a federation. -/
inductive Listener where
  | nobody
  | recorder
  | logger (target : String)
  deriving DecidableEq, Repr

/-- Whether a text has a part. -/
def hasPart (part : List Char) : List Char → Bool
  | [] => part.isEmpty
  | c :: cs => part.isPrefixOf (c :: cs) || hasPart part cs

/-- The first item of every line about something that finished. -/
def finishMark : String := "finished"

/-- The document of an event, as a recorder writes it. -/
def ofEvent : Event → Json
  | .started s => .strings ["started", s.inspect]
  | .finished s status => .strings [finishMark, s.inspect, status.name]
  | .warning w => .strings ["warning", w.message]
  | .completed n =>
    .array
      [.string "completed", .natural n.targeted, .natural n.succeeded, .natural n.failed]

/-- The document of a line of a log. -/
def ofLogLine (l : LogLine) : Json :=
  let mark := if hasPart " finished: ".toList l.text.toList then finishMark else "log"
  .strings [mark, l.target, l.level.name, l.text]

/-- What a listener writes of an event. -/
def Listener.write? (e : Event) : Listener → Option Json
  | nobody => none
  | recorder => some (ofEvent e)
  | logger target => some (ofLogLine (e.logLine target))

/-- Whether a line is about something that finished. -/
def isFinish (j : Json) : Bool :=
  match j with
  | .array (.string s :: _) => s == finishMark
  | _ => false

/-- A run of lines, sorted by text. -/
def sortRun (run : List Json) : List Json := run.mergeSort fun a b => decide (a.render ≤ b.render)

/-- A log in which each run of lines about finished things is sorted.  `run` is the run so far. -/
def sortRuns (run : List Json) : List Json → List Json
  | [] => sortRun run
  -- A line that belongs to no run closes the one before it.
  | j :: js => if isFinish j then sortRuns (run ++ [j]) js else sortRun run ++ j :: sortRuns [] js

theorem perm_sortRuns (run js : List Json) : (sortRuns run js).Perm (run ++ js) := by
  induction js generalizing run with
  | nil => simpa [sortRuns, sortRun] using List.mergeSort_perm run _
  | cons j js ih =>
    rw [sortRuns]
    split
    · simpa using ih (run ++ [j])
    · exact (List.mergeSort_perm run _).append ((ih []).cons j)

/-- The document of a log. -/
def ofLog (js : List Json) : Json := .array (sortRuns [] js)

end Federation.Wire
