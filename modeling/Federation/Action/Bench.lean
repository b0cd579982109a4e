import Federation.Action.Roster
import Federation.Call.Pool
import Federation.Word

/-! # Benches

A `Bench` is a place to try out a single action.  What its work does is laid down by a `Task`: wait
for a permit, then for some time, and then fail, break off, or yield a number that tells with which
parameter and about which subject the work was done.

Permits are given from outside, one at a time; those that nobody waits for are kept. -/

namespace Federation

/-- What the work of an action on a bench does. -/
structure Task where
  /-- Whether it waits for a permit first. -/
  isGated : Bool := false
  /-- How many milliseconds it takes then. -/
  delay : Nat := 0
  /-- Whether it breaks off. -/
  crashes : Bool := false
  /-- The fault with which it fails. -/
  fault : Option Fault := none
  /-- What it adds to its result. -/
  bonus : Int := 0

/-- What the work on a bench changes. -/
structure Bench.Tally where
  /-- How often work has begun. -/
  runs : Nat := 0
  /-- The permits that nobody has used. -/
  permits : Nat := 0
  deriving DecidableEq, Repr

namespace Task

/-- How the work ends.  It breaks off if the number that it is to yield fits no word. -/
def ending (t : Task) (subject : Subject) (p : Int) : Ending Int :=
  if t.crashes then .crashed
  else
    match t.fault with
    | some f => .returned (.error f)
    | none =>
      match (Word.add? p t.bonus).bind (Word.add? · subject.inspect.utf8ByteSize) with
      | some n => .returned (.ok n)
      | none => .crashed

/-- The work that is done with a parameter about a subject. -/
def work (t : Task) (subject : Subject) (p : Int) : Work Unit Bench.Tally Int := fun _ s =>
  let s := { s with runs := s.runs + 1 }
  let visit (pause : Option Nat) : Visit Unit Bench.Tally Int :=
    { pause := pause, finish := fun _ s => ((), s, t.ending subject p), leave := id }
  if t.isGated then
    -- Without a permit the work waits until it is given one.
    if s.permits = 0 then ((), s, visit none)
    else ((), { s with permits := s.permits - 1 }, visit (some t.delay))
  else ((), s, visit (some t.delay))

end Task

/-- One action and what its work does. -/
structure Bench (τ : Type) where
  task : Task
  roster : Roster τ Int Int (Pool Bench.Tally Int)

namespace Bench

variable {τ : Type}

/-- The bench of an action that is idle. -/
def ofAction (t : Task) (a : Action τ Int Int) : Bench τ where
  task := t
  roster := Roster.add a { host := { shared := {} } }

/-- The action on a bench. -/
def action? (b : Bench τ) : Option (Action τ Int Int) := b.roster.action? 0

/-- The status of the action. -/
def status (b : Bench τ) : Status := (b.action?.map Action.status).getD .idle

/-- What the work has changed. -/
def tally (b : Bench τ) : Tally := b.roster.host.shared

/-- The work of the action, done with a parameter. -/
def request (b : Bench τ) (p : Int) : Work Unit Tally Int :=
  b.task.work ((b.action?.map Action.subject).getD (.text "")) p

/-- Start the action. -/
def start (now : Nat) (p : Int) (b : Bench τ) : Bench τ × Option (Except Fault (Launch Int)) :=
  let r := b.roster.start now 0 p (b.request p)
  ({ b with roster := r.1 }, r.2)

/-- Start the action and ask for its outcome. -/
def run (now : Nat) (p : Int) (b : Bench τ) : Bench τ × Reply Int :=
  let r := b.roster.run now 0 p (b.request p)
  ({ b with roster := r.1 }, r.2)

/-- Start the action and ask for its outcome, or join a run with the same parameter. -/
def startOrJoin (now : Nat) (p : Int) (b : Bench τ) : Bench τ × Reply Int :=
  let r := b.roster.startOrJoin now 0 p (b.request p)
  ({ b with roster := r.1 }, r.2)

/-- Cancel the action; tell whether it ran. -/
def cancel (now : Nat) (b : Bench τ) : Bench τ × Bool :=
  let r := b.roster.cancel now 0
  ({ b with roster := r.1 }, r.2)

/-- Register a callback. -/
def observe (now : Nat) (c : Callback τ Int) (b : Bench τ) : Bench τ :=
  { b with roster := b.roster.observe now 0 c }

/-- Give a permit: to the work that waits for one, or for later. -/
def release (now : Nat) (b : Bench τ) : Bench τ :=
  let pool := b.roster.host
  let pool :=
    if pool.isParked then pool.unpark (now + b.task.delay)
    else { pool with shared := { pool.shared with permits := pool.shared.permits + 1 } }
  { b with roster := { b.roster with host := pool } }

/-- Read off what a reply amounts to, once it is known. -/
def read? (b : Bench τ) (reply : Reply Int) : Option (Outcome Int) := b.roster.read? 0 reply

/-- The bench with what was seen of the action collected. -/
def collected (b : Bench τ) : Bench τ := { b with roster := { b.roster with log := [] } }

instance : Timed (Bench τ) where
  settle now b := { b with roster := Timed.settle now b.roster }
  next? b := Timed.next? b.roster
  load b := Timed.load b.roster

/-- Wait for what a reply amounts to, for at most as long as given; also tell the instant. -/
def await (patience now : Nat) (reply : Reply Int) (b : Bench τ) :
    Bench τ × Nat × Option (Outcome Int) :=
  let limit := now + patience
  let r := Timed.runUntil (fun b => (b.read? reply).isSome) limit now (Timed.settle now b)
  (r.1, r.2.getD limit, r.1.read? reply)

end Bench

end Federation
