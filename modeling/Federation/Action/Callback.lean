import Federation.Action.Outcome
import Federation.Event

/-! # Callbacks and notes

A `Callback` is told the outcome of an action, once.  It may in turn do something with the action:
these are its `Reaction`s, and one of them is to register another callback.

A callback acts on no other action than its own, and it does not break off.  So the actions of a set
or of a fan-out do not change while one of them tells its callbacks, and what is proved of
cancelling them one after the other says nothing of callbacks that cancel or start the next one.

A `Note` is what can be seen of an action from outside: an event told to the observer of the
federation, a callback that is told the outcome, or what a reaction was answered. -/

namespace Federation

/-- What a callback does with its action.  It always comes to its end, and it does nothing with
    other actions. -/
inductive Reaction (τ π : Type) where
  /-- Register another callback. -/
  | observe (tag : τ) (reactions : List (Reaction τ π))
  | cancel
  | status
  | result
  | start (p : π)
  | run (p : π)
  | startOrJoin (p : π)
  | wait

instance {τ π : Type} : Inhabited (Reaction τ π) := ⟨.cancel⟩

mutual
/-- How many callbacks a reaction registers, directly or through them. -/
def Reaction.weight {τ π : Type} : Reaction τ π → Nat
  | .observe _ rs => 1 + Reaction.weightOfList rs
  | .cancel | .status | .result | .start _ | .run _ | .startOrJoin _ | .wait => 0
/-- How many callbacks some reactions register. -/
def Reaction.weightOfList {τ π : Type} : List (Reaction τ π) → Nat
  | [] => 0
  | r :: rs => r.weight + Reaction.weightOfList rs
end

/-- Something that is told the outcome of an action. -/
structure Callback (τ π : Type) where
  tag : τ
  reactions : List (Reaction τ π) := []

/-- How many callbacks a callback stands for: itself, and those that it registers. -/
def Callback.weight {τ π : Type} (c : Callback τ π) : Nat :=
  1 + Reaction.weightOfList c.reactions

/-- How many callbacks some callbacks stand for. -/
def Callback.weightOfList {τ π : Type} : List (Callback τ π) → Nat
  | [] => 0
  | c :: cs => c.weight + weightOfList cs

theorem Callback.weightOfList_append {τ π : Type} (cs ds : List (Callback τ π)) :
    weightOfList (cs ++ ds) = weightOfList cs + weightOfList ds := by
  induction cs with
  | nil => simp [weightOfList]
  | cons c cs ih => simp [weightOfList, ih, Nat.add_assoc]

/-- What an attempt to start an action finds. -/
inductive Launch (ρ : Type) where
  /-- The action was idle and has been started. -/
  | started
  /-- The action had finished before. -/
  | alreadyFinished (o : Outcome ρ)
  deriving DecidableEq, Repr

/-- What someone waits for who has asked an action for its outcome. -/
inductive Reply (ρ : Type) where
  | known (o : Outcome ρ)
  /-- The outcome is the one that will be published. -/
  | awaited
  deriving DecidableEq, Repr

/-- What is known of the outcome after an attempt to start the action. -/
def Reply.ofLaunch {ρ : Type} : Except Fault (Launch ρ) → Reply ρ
  | .ok .started => awaited
  | .ok (.alreadyFinished o) => known o
  | .error f => known (.failed f)

/-- What a reaction is answered. -/
inductive Answer (ρ : Type) where
  | observed
  | cancelled (moved : Bool)
  | status (s : Status)
  | result (r : Except Fault (Outcome ρ))
  | started (r : Except Fault (Launch ρ))
  | replied (r : Reply ρ)

/-- What can be seen of an action. -/
inductive Note (τ ρ : Type) where
  | told (e : Event)
  | called (tag : τ) (o : Outcome ρ)
  | answered (a : Answer ρ)

/-- The event that a note tells of. -/
def Note.event? {τ ρ : Type} : Note τ ρ → Option Event
  | told e => some e
  | called .. | answered _ => none

end Federation
