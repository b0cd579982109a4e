import Federation.Fault

/-! # Work on a handle

A call does some `Work` on a handle, such as a connection, in surroundings that it may share with
other calls, such as the server behind the connection.  Work begins at once; then it takes some
time, in which it does nothing but wait; then it ends.  Work that is given up while it waits leaves
its surroundings without ending. -/

namespace Federation

/-- How a piece of work ends. -/
inductive Ending (α : Type) where
  | returned (r : Except Fault α)
  /-- The work broke off without a result. -/
  | crashed

/-- Work that has begun. -/
structure Visit (η σ α : Type) where
  /-- How long it waits; forever if there is no number. -/
  pause : Option Nat
  /-- What happens after the wait. -/
  finish : η → σ → η × σ × Ending α
  /-- What happens to the surroundings if the work is given up. -/
  leave : σ → σ

/-- A piece of work: what it does to its handle and its surroundings when it begins, and how it
    goes on. -/
abbrev Work (η σ α : Type) : Type := η → σ → η × σ × Visit η σ α

/-- A call that has ended. -/
structure Ended (α : Type) where
  id : Nat
  /-- The instant at which it ended. -/
  instant : Nat
  ending : Ending α

/-- How a call has ended, if it has. -/
def ended? {α : Type} (es : List (Ended α)) (id : Nat) : Option (Ended α) :=
  es.find? fun e => e.id = id

end Federation
