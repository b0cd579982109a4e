import Federation.Domain.Basic

/-! # Journals

A `Journal` is the plainest handle: it knows which attempt opened it and writes down the tags of the
calls that used it.  With journals, the order of calls in a domain can be read off what the calls
return. -/

namespace Federation

/-- A handle that writes down who used it. -/
structure Journal where
  /-- The attempt that opened the journal. -/
  number : Nat
  tags : List String := []
  deriving DecidableEq, Repr

namespace Journal

/-- The journal with one more tag. -/
def note (j : Journal) (tag : String) : Journal := { j with tags := j.tags ++ [tag] }

/-- The factory whose attempts fail as listed; an attempt that is not listed succeeds. -/
def factory (faults : List (Option Fault)) (n : Nat) : Except Fault Journal :=
  match faults[n - 1]? with
  | some (some f) => .error f
  | _ => .ok ⟨n, []⟩

/-- How a call is meant to end: with the journal as it is then, with a fault, or not at all. -/
inductive Plan where
  | read
  | fail (f : Fault)
  | crash

/-- The end of a call that has the journal before it. -/
def Plan.ending (j : Journal) : Plan → Ending Journal
  | read => .returned (.ok j)
  | fail f => .returned (.error f)
  | crash => .crashed

/-- Write the tag down, at once. -/
def entry (tag : String) (plan : Plan) : Work Journal Unit Journal := fun j s =>
  (j.note tag, s,
    { pause := some 0
      finish := fun j s => (j, s, plan.ending j)
      leave := id })

/-- Write down that the call begins, wait, and write the tag down. -/
def slowEntry (tag : String) (plan : Plan) (delay : Nat) : Work Journal Unit Journal := fun j s =>
  (j.note (tag ++ "..."), s,
    { pause := some delay
      finish := fun j s => (j.note tag, s, plan.ending (j.note tag))
      leave := id })

/-- Write the tag down and wait. -/
def heldEntry (tag : String) (plan : Plan) (delay : Option Nat) : Work Journal Unit Journal :=
  fun j s =>
    (j.note tag, s,
      { pause := delay
        finish := fun j s => (j, s, plan.ending j)
        leave := id })

end Journal

end Federation
