import Federation.Fault

/-! # The outcome of an action

An action that was started ends in one of three ways.  Being cancelled is an outcome of its own and
not a kind of failure.

* `toExcept_eq_cancelled_iff` — only a cancelled action yields the fault `cancelled`, provided that
  none fails with it. -/

namespace Federation

/-- What can be seen of an action's state without its result. -/
inductive Status where
  | idle
  | running
  | succeeded
  | failed
  | cancelled
  deriving DecidableEq, Repr

namespace Status

/-- Every status. -/
def all : List Status := [idle, running, succeeded, failed, cancelled]

/-- The name of a status in documents. -/
def name : Status → String
  | idle => "idle"
  | running => "running"
  | succeeded => "succeeded"
  | failed => "failed"
  | cancelled => "cancelled"

/-- The name of a status in diagnostics. -/
def caption : Status → String
  | idle => "Idle"
  | running => "Running"
  | succeeded => "Succeeded"
  | failed => "Failed"
  | cancelled => "Cancelled"

/-- Whether the action has ended. -/
def isTerminal : Status → Bool
  | idle | running => false
  | succeeded | failed | cancelled => true

end Status

/-- How an action ended. -/
inductive Outcome (ρ : Type) where
  | succeeded (r : ρ)
  | failed (f : Fault)
  | cancelled
  deriving DecidableEq, Repr

namespace Outcome

variable {ρ σ : Type}

/-- The status of an action that ended so. -/
def status : Outcome ρ → Status
  | succeeded _ => .succeeded
  | failed _ => .failed
  | cancelled => .cancelled

@[simp] theorem isTerminal_status (o : Outcome ρ) : o.status.isTerminal = true := by
  cases o <;> rfl

/-- The outcome as a result, in which a cancellation is a fault. -/
def toExcept : Outcome ρ → Except Fault ρ
  | succeeded r => .ok r
  | failed f => .error f
  | cancelled => .error .cancelled

/-- The outcome of work that returned a result: a fault `cancelled` is a cancellation. -/
def ofExcept : Except Fault ρ → Outcome ρ
  | .ok r => succeeded r
  | .error .cancelled => cancelled
  | .error f => failed f

/-- The outcome with its result transformed. -/
def map (f : ρ → σ) : Outcome ρ → Outcome σ
  | succeeded r => succeeded (f r)
  | failed e => failed e
  | cancelled => cancelled

theorem toExcept_ofExcept (r : Except Fault ρ) : (ofExcept r).toExcept = r := by
  unfold ofExcept
  split <;> rfl

theorem ofExcept_ne_failed_cancelled (r : Except Fault ρ) : ofExcept r ≠ failed .cancelled := by
  unfold ofExcept
  split
  · simp
  · simp
  · next f h =>
    intro e
    exact h (Outcome.failed.inj e)

theorem toExcept_eq_cancelled_iff {o : Outcome ρ} (h : o ≠ failed .cancelled) :
    o.toExcept = .error .cancelled ↔ o = cancelled := by
  cases o with
  | succeeded r => simp [toExcept]
  | failed f =>
    have : f ≠ .cancelled := fun e => h (e ▸ rfl)
    simp [toExcept, this]
  | cancelled => simp [toExcept]

end Outcome

end Federation
