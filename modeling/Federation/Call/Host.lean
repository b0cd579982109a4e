import Federation.Call.Work
import Federation.Timed

/-! # Hosts of calls

A `Host` takes calls and does their work in time.  The one who makes a call names it by a number, by
which it can look for the end of the call or give it up.

What happens at one instant happens in two steps: first the calls end whose wait is over, which is
`ripen`, and then what they held is handed on. -/

namespace Federation

/-- A machine that does the work of calls, which are made by requests of type `ω` and yield results
    of type `α`. -/
class Host (κ : Type) (ω α : outParam Type) extends Timed κ where
  /-- Make a call.  Its work begins when the host settles. -/
  submit : (id : Nat) → ω → κ → κ
  /-- Let the calls end whose wait is over at an instant.  No other call begins its work. -/
  ripen : (now : Nat) → κ → κ
  /-- The instant at which the wait of a call is over, if it waits for a certain time. -/
  due? : κ → (id : Nat) → Option Nat
  /-- Give up a call. -/
  abort : (id : Nat) → κ → κ
  /-- How a call has ended, if it has. -/
  ended? : κ → (id : Nat) → Option (Ended α)

end Federation
