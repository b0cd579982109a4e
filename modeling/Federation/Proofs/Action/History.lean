import Federation.Action.Roster
import Federation.Proofs.Action.Delivery
import Mathlib.Logic.Relation

/-!
# Histories of an action

A history is what is done with one action and what happens to it, in any order and at any instants:
calls, the roster's settling, and changes of the host that does the work.  Nothing is assumed of the
host: whenever the roster settles, it may say of the work that it has ended in any way.

* `Recorder` — a host that writes down which work was launched.
* `Move`, `act`, `play` — one step of a history, and a history.
-/

namespace Federation

/-! ## The host -/

/-- A host of calls with a list of those that were made. -/
structure Recorder (κ ω : Type) where
  host : κ
  made : List (Nat × ω) := []

namespace Recorder

variable {κ ω ρ : Type} [Host κ ω ρ]

instance : Host (Recorder κ ω) ω ρ where
  settle now r := { r with host := Timed.settle now r.host }
  next? r := Timed.next? r.host
  load r := Timed.load r.host
  submit i request r :=
    { host := Host.submit i request r.host, made := r.made ++ [(i, request)] }
  ripen now r := { r with host := Host.ripen now r.host }
  due? r i := Host.due? r.host i
  abort i r := { r with host := Host.abort i r.host }
  ended? r i := Host.ended? r.host i

/-- A request that is submitted is written down last. -/
theorem made_submit (i : Nat) (request : ω) (r : Recorder κ ω) :
    (Host.submit i request r).made = r.made ++ [(i, request)] := rfl

end Recorder

/-! ## The status -/

/-- How the status of an action moves. -/
inductive Status.Next : Status → Status → Prop
  | start : Next .idle .running
  | finish {s : Status} (h : s.isTerminal = true) : Next .running s

/-! ## Moves -/

/-- Whether a start is answered that it found the action idle. -/
def Answer.isStarted {ρ : Type} : Answer ρ → Bool
  | .started (.ok .started) => true
  | _ => false

/-- What can be done with an action, and what can happen to it. -/
inductive Move (τ π κ ω : Type) where
  | start (p : π) (request : ω)
  | startUnattended (p : π)
  | run (p : π) (request : ω)
  | startOrJoin (p : π) (request : ω)
  | cancel
  | observe (c : Callback τ π)
  | wait
  | result
  | status
  /-- The work and its runner do what they can do. -/
  | settle
  /-- Something else happens to the host. -/
  | evolve (f : κ → κ)

/-- The tags of the callbacks that a move registers, directly or through them. -/
def Move.tags {τ π κ ω : Type} : Move τ π κ ω → List τ
  | observe c => c.tags
  | _ => []

/-- The tags of the callbacks that some moves register. -/
def Move.tagsOfList {τ π κ ω : Type} (moves : List (Nat × Move τ π κ ω)) : List τ :=
  moves.flatMap fun m => m.2.tags

namespace Roster

variable {τ π ρ κ ω : Type} [DecidableEq π] [Host κ ω ρ]

/-- A roster with one action, which is idle. -/
def solo (subject : Subject) (label : String) (deadline : Option Nat) (isFollowed : Bool)
    (host : κ) : Roster τ π ρ (Recorder κ ω) :=
  add { subject := subject, label := label, deadline := deadline, isFollowed := isFollowed }
    { host := { host := host } }

/-- The status of the action. -/
def status (r : Roster τ π ρ κ) : Status := ((r.action? 0).map Action.status).getD .idle

/-- What the action says its result is. -/
def result? (r : Roster τ π ρ κ) : Option (Except Fault (Outcome ρ)) :=
  (r.action? 0).map Action.result

/-- Make a move with the action of a roster; also tell what the caller is answered. -/
def act (now : Nat) (m : Move τ π κ ω) (r : Roster τ π ρ (Recorder κ ω)) :
    Roster τ π ρ (Recorder κ ω) × List (Answer ρ) :=
  match m with
  | .start p request =>
    let x := r.start now 0 p request
    (x.1, x.2.toList.map .started)
  | .startUnattended p =>
    match r.jobs[0]? with
    | none => (r, [])
    | some j =>
      let x := j.action.startUnattended now p
      ({ r with jobs := r.jobs.set 0 { j with action := x.1 } }.record now x.2.1,
        [.started x.2.2])
  | .run p request =>
    let x := r.run now 0 p request
    (x.1, [.replied x.2])
  | .startOrJoin p request =>
    let x := r.startOrJoin now 0 p request
    (x.1, [.replied x.2])
  | .cancel =>
    let x := r.cancel now 0
    (x.1, [.cancelled x.2])
  | .observe c => (r.observe now 0 c, [.observed])
  | .wait => (r, [.replied .awaited])
  | .result => (r, (r.action? 0).toList.map fun a => .result a.result)
  | .status => (r, (r.action? 0).toList.map fun a => .status a.status)
  | .settle => (r.settle now, [])
  | .evolve f => ({ r with host := { r.host with host := f r.host.host } }, [])

/-- Make some moves, each at an instant; also tell all that the callers are answered. -/
def play : List (Nat × Move τ π κ ω) → Roster τ π ρ (Recorder κ ω) →
    Roster τ π ρ (Recorder κ ω) × List (Answer ρ)
  | [], r => (r, [])
  | (now, m) :: rest, r =>
    let x := r.act now m
    let y := play rest x.1
    (y.1, x.2 ++ y.2)

end Roster

end Federation
