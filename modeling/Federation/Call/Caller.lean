import Federation.Call.Host

/-! # Callers

A `Caller` makes calls to a host and has the clock.  It numbers its calls in the order in which it
makes them, so every call has a number of its own. -/

namespace Federation

/-- A host of calls, the clock, and the number of the next call. -/
structure Caller (κ : Type) where
  now : Nat := 0
  next : Nat := 0
  host : κ

namespace Caller

variable {κ ω α : Type} [Host κ ω α]

/-- Let everything happen that can happen now. -/
def settle (c : Caller κ) : Caller κ := { c with host := Timed.settle c.now c.host }

/-- Let some time pass. -/
def advance (ms : Nat) (c : Caller κ) : Caller κ :=
  { c with now := c.now + ms, host := Timed.advanceTo (c.now + ms) c.host }

/-- Make a call. -/
def make (request : ω) (c : Caller κ) : Caller κ :=
  { c with next := c.next + 1, host := Host.submit c.next request c.host }

/-- Give up those of some calls that have not ended. -/
def giveUp (ids : List Nat) (c : Caller κ) : Caller κ :=
  { c with host := ids.foldl (fun h id => Host.abort id h) c.host }.settle

/-- How a call has ended, if it has. -/
def ended? (c : Caller κ) (id : Nat) : Option (Ended α) := Host.ended? c.host id

/-- Wait until some calls have ended, for at most as long as given. -/
def await (patience : Nat) (ids : List Nat) (c : Caller κ) : Caller κ :=
  let limit := c.now + patience
  let r := Timed.runUntil (fun h => ids.all fun id => (Host.ended? h id).isSome) limit c.now c.host
  { c with now := r.2.getD limit, host := r.1 }

/-- Make calls at the same time and wait until they have ended, for at most as long as given; those
    that have not are given up. -/
def callAll (patience : Nat) (requests : List ω) (c : Caller κ) :
    Caller κ × List (Option (Ended α)) :=
  let ids := List.range' c.next requests.length
  let c := ((requests.foldl (fun c r => c.make r) c).settle).await patience ids
  (c.giveUp ids, ids.map c.ended?)

/-- Make a call and wait until it has ended, for at most as long as given. -/
def call (patience : Nat) (request : ω) (c : Caller κ) : Caller κ × Option (Ended α) :=
  let r := c.callAll patience [request]
  (r.1, r.2.head?.join)

end Caller

end Federation
