import Federation.Action.Bench
import Federation.Action.Group

/-! # Workshops

A `Workshop` has a bench for each of several actions, which are numbered, and keeps them in a group.
An action that is dropped from the group stays on its bench, and the group does not change when an
action does. -/

namespace Federation

/-- Several actions on benches of their own, a group of them, and the clock. -/
structure Workshop (τ φ : Type) where
  now : Nat := 0
  benches : List (Bench τ) := []
  group : Group φ := .empty

namespace Workshop

variable {τ φ : Type}

/-- The bench of a number. -/
def bench? (w : Workshop τ φ) (id : Nat) : Option (Bench τ) := w.benches[id]?

/-- The status of an action. -/
def status (w : Workshop τ φ) (id : Nat) : Status := ((w.bench? id).map Bench.status).getD .idle

/-- The subject of an action. -/
def subject? (w : Workshop τ φ) (id : Nat) : Option Subject :=
  ((w.bench? id).bind Bench.action?).map Action.subject

/-- Put an action on a bench of its own. -/
def place (t : Task) (a : Action τ Int Int) (w : Workshop τ φ) : Workshop τ φ :=
  { w with benches := w.benches ++ [.ofAction t a] }

/-- Add an action that is idle to the workshop and to the group. -/
def add (t : Task) (a : Action τ Int Int) (form : φ) (w : Workshop τ φ) : Workshop τ φ :=
  { w.place t a with group := w.group.insert a.subject ⟨w.benches.length, form⟩ }

/-- Put an action into the group, once more. -/
def insertAgain (id : Nat) (form : φ) (w : Workshop τ φ) : Workshop τ φ :=
  match w.subject? id with
  | some s => { w with group := w.group.insert s ⟨id, form⟩ }
  | none => w

/-- Do something on the bench of an action. -/
def mapBench (id : Nat) (f : Bench τ → Bench τ) (w : Workshop τ φ) : Workshop τ φ :=
  { w with benches := w.benches.modify id f }

/-- Start an action. -/
def start (id : Nat) (p : Int) (w : Workshop τ φ) :
    Workshop τ φ × Option (Except Fault (Launch Int)) :=
  (w.mapBench id fun b => (b.start w.now p).1, (w.bench? id).bind fun b => (b.start w.now p).2)

/-- Cancel an action; tell whether it ran. -/
def cancel (id : Nat) (w : Workshop τ φ) : Workshop τ φ × Bool :=
  (w.mapBench id fun b => (b.cancel w.now).1, (w.bench? id).any fun b => (b.cancel w.now).2)

/-- Give a permit to an action. -/
def release (id : Nat) (w : Workshop τ φ) : Workshop τ φ :=
  w.mapBench id fun b => b.release w.now

/-- Register a callback. -/
def observe (id : Nat) (c : Callback τ Int) (w : Workshop τ φ) : Workshop τ φ :=
  w.mapBench id fun b => b.observe w.now c

/-- Cancel every action of the group that runs; tell how many there were. -/
def cancelAll (w : Workshop τ φ) : Workshop τ φ × Nat := w.group.cancelAll cancel w

/-- Drop every action from the group that has ended; tell how many there were. -/
def prune (w : Workshop τ φ) : Workshop τ φ × Nat :=
  let g := w.group.prune w.status
  ({ w with group := g }, w.group.size - g.size)

/-- Let everything happen that can happen now. -/
def settle (w : Workshop τ φ) : Workshop τ φ :=
  { w with benches := w.benches.map (Timed.settle w.now) }

/-- Let everything happen up to and including an instant. -/
def advanceTo (t : Nat) (w : Workshop τ φ) : Workshop τ φ :=
  { w with now := t, benches := Timed.advanceAll t w.benches }

/-- Wait until some actions have ended, for at most as long as given; tell whether they have. -/
def await (patience : Nat) (ids : List Nat) (w : Workshop τ φ) : Workshop τ φ × Bool :=
  let limit := w.now + patience
  let w := w.settle
  let t := Timed.meeting? (fun b : Bench τ => b.status.isTerminal) limit w.now
    (ids.filterMap w.bench?)
  (w.advanceTo (t.getD limit), t.isSome)

/-- Wait until every action of the group has ended that has been started, for at most as long as
    given; tell the status of each action of the group, if they have. -/
def awaitAll (patience : Nat) (w : Workshop τ φ) :
    Workshop τ φ × Option (List (Nat × Status)) :=
  let (v, ended) := w.await patience ((w.group.started w.status).map Group.Member.id)
  (v, if ended then some (w.group.members.map fun m => (m.id, v.status m.id)) else none)

/-- What was seen of the actions since it was last collected, each with its number. -/
def notes (w : Workshop τ φ) : List (Nat × Note τ Int) :=
  let stamped := w.benches.zipIdx.flatMap fun (b, id) =>
    b.roster.log.map fun (t, n) => (t, id, n)
  (Timed.chronicle stamped).map Prod.snd

/-- The workshop with what was seen collected. -/
def collected (w : Workshop τ φ) : Workshop τ φ :=
  { w with benches := w.benches.map Bench.collected }

end Workshop

end Federation
