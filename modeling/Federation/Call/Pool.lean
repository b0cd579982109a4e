import Federation.Call.Host

/-! # Pools

In a `Pool` any number of calls work at the same time.  Each of them has a handle of its own, so
only the surroundings are shared.

* `calls_abort` — giving up a call leaves the others alone. -/

namespace Federation

/-- How far a call in a pool has come. -/
inductive Pool.Stage (σ α : Type) where
  /-- The work has not begun. -/
  | made (work : Work Unit σ α)
  /-- The work waits until an instant, or for something outside if there is none. -/
  | waiting (visit : Visit Unit σ α) (due : Option Nat)

/-- A call in a pool. -/
structure Pool.Call (σ α : Type) where
  id : Nat
  stage : Pool.Stage σ α

/-- Calls that work at the same time. -/
structure Pool (σ α : Type) where
  shared : σ
  /-- The calls that have not ended, in the order in which they were made. -/
  calls : List (Pool.Call σ α) := []
  ended : List (Ended α) := []

namespace Pool

variable {σ α : Type}

/-- Make a call. -/
def submit (id : Nat) (work : Work Unit σ α) (p : Pool σ α) : Pool σ α :=
  { p with calls := p.calls ++ [⟨id, .made work⟩] }

/-- The call goes on waiting, or ends if its wait is over. -/
def goOn (now id : Nat) (visit : Visit Unit σ α) (due : Option Nat) (p : Pool σ α) : Pool σ α :=
  if Timed.isDue due now then
    let (_, shared, ending) := visit.finish () p.shared
    { p with shared := shared, ended := p.ended ++ [⟨id, now, ending⟩] }
  else { p with calls := p.calls ++ [⟨id, .waiting visit due⟩] }

/-- Let one call do what it can at an instant. -/
def turn (now : Nat) (p : Pool σ α) (c : Call σ α) : Pool σ α :=
  match c.stage with
  | .made work =>
    let (_, shared, visit) := work () p.shared
    { p with shared := shared }.goOn now c.id visit (visit.pause.map (now + ·))
  | .waiting visit due => p.goOn now c.id visit due

/-- Let all calls do what they can at an instant, one after the other. -/
def settle (now : Nat) (p : Pool σ α) : Pool σ α :=
  p.calls.foldl (turn now) { p with calls := [] }

/-- Whether the work of a call has begun. -/
def Call.hasBegun (c : Call σ α) : Bool :=
  match c.stage with
  | .made _ => false
  | .waiting .. => true

/-- Let the calls end whose wait is over at an instant. -/
def ripen (now : Nat) (p : Pool σ α) : Pool σ α :=
  let step (p : Pool σ α) (c : Call σ α) : Pool σ α :=
    if c.hasBegun then p.turn now c else { p with calls := p.calls ++ [c] }
  p.calls.foldl step { p with calls := [] }

/-- The instant at which the wait of a call is over. -/
def Call.due? (c : Call σ α) : Option Nat :=
  match c.stage with
  | .made _ => none
  | .waiting _ due => due

/-- What giving up a call does to the surroundings. -/
def Call.leave (c : Call σ α) (shared : σ) : σ :=
  match c.stage with
  | .made _ => shared
  | .waiting visit _ => visit.leave shared

/-- Give up a call. -/
def abort (id : Nat) (p : Pool σ α) : Pool σ α :=
  { p with
    shared := (p.calls.filter fun c => c.id = id).foldl (fun s c => c.leave s) p.shared
    calls := p.calls.filter fun c => c.id ≠ id }

/-- Whether some call waits for something outside. -/
def isParked (p : Pool σ α) : Bool :=
  p.calls.any fun c =>
    match c.stage with
    | .made _ => false
    | .waiting _ due => due.isNone

/-- Let the calls that wait for something outside wait until an instant only. -/
def unpark (due : Nat) (p : Pool σ α) : Pool σ α :=
  let unparked (c : Call σ α) : Call σ α :=
    match c.stage with
    | .waiting visit none => { c with stage := .waiting visit (some due) }
    | _ => c
  { p with calls := p.calls.map unparked }

theorem calls_abort (id : Nat) (p : Pool σ α) :
    (p.abort id).calls = p.calls.filter fun c => c.id ≠ id := rfl

instance : Host (Pool σ α) (Work Unit σ α) α where
  settle := settle
  next? p := Timed.earliest (p.calls.map Call.due?)
  load p := p.calls.length
  submit := submit
  ripen := ripen
  due? p id := (p.calls.find? fun c => c.id = id).bind Call.due?
  abort := abort
  ended? p := Federation.ended? p.ended

end Pool

end Federation
