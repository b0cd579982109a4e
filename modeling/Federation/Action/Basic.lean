import Federation.Action.Callback

/-! # Actions

An `Action` is a piece of work about one subject that can be started, cancelled and observed.  It is
idle, then it runs, then it has finished with an outcome, and that is final.  To try again, one
makes another action.

The state changes in three places only: `tryStart`, `tryCancel` and `tryFinish`.  Each of them looks
at the state and changes it in one step.  When an action finishes, its callbacks are told one by
one, in the order in which they were registered; those registered meanwhile queue up behind them.
Then the observer is told, and last of all the outcome is published to those who wait.

The functions here know nothing of the work itself.  It is done elsewhere, and `complete` is called
with its outcome.

* `status_tryStart`, `status_tryCancel`, `status_tryFinish` — how the state moves.
* `pending_react` — a reaction does not make the queue grow beyond its weight.
* `pending_reactAll_lt` — so every callback that is told brings the end of the queue closer.
* `deliver_nil`, `deliver_cons` — how the queue of callbacks is worked off. -/

namespace Federation

/-- How far an action has come. -/
inductive Stage (ρ : Type) where
  | idle
  | running
  | finished (o : Outcome ρ)
  deriving DecidableEq, Repr

/-- The status of an action that has come so far. -/
def Stage.status {ρ : Type} : Stage ρ → Status
  | idle => .idle
  | running => .running
  | finished o => o.status

/-- A piece of work about one subject, which happens at most once. -/
structure Action (τ π ρ : Type) where
  subject : Subject
  label : String := "action"
  /-- How many milliseconds, the unit of the clock, the work may take. -/
  deadline : Option Nat := none
  /-- Whether the observer of the federation is told. -/
  isFollowed : Bool := false
  stage : Stage ρ := .idle
  /-- The parameters with which the action was started. -/
  latest : Option π := none
  /-- The callbacks that have not been told. -/
  callbacks : List (Callback τ π) := []
  /-- Whether callbacks are being told. -/
  isNotifying : Bool := false
  startedAt : Option Nat := none
  finishedAt : Option Nat := none
  /-- The outcome, as those see it who wait. -/
  published : Option (Outcome ρ) := none

namespace Action

variable {τ π ρ : Type}

/-- The status of an action. -/
def status (a : Action τ π ρ) : Status := a.stage.status

/-- Whether an action runs. -/
def isRunning (a : Action τ π ρ) : Bool := a.status = .running

/-- The outcome of an action that has finished. -/
def result (a : Action τ π ρ) : Except Fault (Outcome ρ) :=
  match a.stage with
  | .finished o => .ok o
  | .idle | .running => .error .notFinished

/-- The action as diagnostics show it. -/
def inspect (a : Action τ π ρ) : String :=
  "Action \x7b id: ActionId(<id>), label: " ++ Text.quote a.label ++ ", subject: " ++
    a.subject.inspect ++ ", status: " ++ a.status.caption ++ " \x7d"

/-! ## Moves of the state -/

/-- Move from idle to running. -/
def tryStart (now : Nat) (p : π) (a : Action τ π ρ) :
    Action τ π ρ × Except Fault (Launch ρ) :=
  match a.stage with
  | .idle => ({ a with stage := .running, latest := some p, startedAt := some now }, .ok .started)
  | .running => (a, .error .alreadyInProgress)
  | .finished o => (a, .ok (.alreadyFinished o))

/-- What someone is told at once who asks to join the run with some parameters, if the action runs:
    only a run with equal parameters can be joined. -/
def join? [DecidableEq π] (p : π) (a : Action τ π ρ) : Option (Reply ρ) :=
  if a.isRunning then
    some (if a.latest = some p then .awaited else .known (.failed .alreadyInProgress))
  else none

/-- Move from running to finished; tell whether this happened. -/
def tryFinish (now : Nat) (o : Outcome ρ) (a : Action τ π ρ) : Action τ π ρ × Bool :=
  match a.stage with
  | .running =>
    ({ a with stage := .finished o, finishedAt := some now, isNotifying := true }, true)
  | .idle | .finished _ => (a, false)

/-- Move from running to cancelled; tell whether this happened. -/
def tryCancel (now : Nat) (a : Action τ π ρ) : Action τ π ρ × Bool := a.tryFinish now .cancelled

theorem status_tryStart (now : Nat) (p : π) (a : Action τ π ρ) :
    (a.tryStart now p).1.status = if a.status = .idle then .running else a.status := by
  unfold tryStart status
  cases h : a.stage with
  | idle => simp [Stage.status]
  | running => simp [h, Stage.status]
  | finished o => cases o <;> simp [h, Stage.status, Outcome.status]

theorem status_tryFinish (now : Nat) (o : Outcome ρ) (a : Action τ π ρ) :
    (a.tryFinish now o).1.status = if a.status = .running then o.status else a.status := by
  unfold tryFinish status
  cases h : a.stage with
  | idle => simp [h, Stage.status]
  | running => simp [Stage.status]
  | finished o' => cases o' <;> simp [h, Stage.status, Outcome.status]

theorem status_tryCancel (now : Nat) (a : Action τ π ρ) :
    (a.tryCancel now).1.status = if a.status = .running then .cancelled else a.status :=
  status_tryFinish now .cancelled a

/-- The events told to the observer of the federation, if it is told any. -/
def tell (e : Event) (a : Action τ π ρ) : List (Note τ ρ) :=
  if a.isFollowed then [.told e] else []

/-- Start the action, if it is idle. -/
def start (now : Nat) (p : π) (a : Action τ π ρ) :
    Action τ π ρ × List (Note τ ρ) × Except Fault (Launch ρ) :=
  match a.tryStart now p with
  | (a, .ok .started) => (a, a.tell (.started a.subject), .ok .started)
  | (a, r) => (a, [], r)

/-! ## Callbacks -/

/-- Put a callback into the queue. -/
def enqueue (c : Callback τ π) (a : Action τ π ρ) : Action τ π ρ :=
  { a with callbacks := a.callbacks ++ [c] }

/-- How many callbacks are still to be told, with those that they register. -/
def pending (a : Action τ π ρ) : Nat := Callback.weightOfList a.callbacks

theorem pending_tryStart (now : Nat) (p : π) (a : Action τ π ρ) :
    (a.tryStart now p).1.pending = a.pending := by
  unfold tryStart; split <;> rfl

theorem pending_tryCancel (now : Nat) (a : Action τ π ρ) :
    (a.tryCancel now).1.pending = a.pending := by
  unfold tryCancel tryFinish; split <;> rfl

theorem pending_enqueue (c : Callback τ π) (a : Action τ π ρ) :
    (a.enqueue c).pending = a.pending + c.weight := by
  simp [pending, enqueue, Callback.weightOfList_append, Callback.weightOfList]

variable [DecidableEq π]

mutual
/-- What a reaction does, and what can be seen of it.  A callback is registered as by `observe`.
    Since callbacks are told only when the action has finished, neither a start nor a cancellation
    moves it any more. -/
def react (now : Nat) (a : Action τ π ρ) : Reaction τ π → Action τ π ρ × List (Note τ ρ)
  | .observe tag rs =>
    match a.stage, a.isNotifying with
    | .finished o, false =>
      let r := reactAll now a rs
      (r.1, .called tag o :: r.2 ++ [.answered .observed])
    | _, _ => (a.enqueue ⟨tag, rs⟩, [.answered .observed])
  | .cancel =>
    let r := a.tryCancel now
    (r.1, [.answered (.cancelled r.2)])
  | .status => (a, [.answered (.status a.status)])
  | .result => (a, [.answered (.result a.result)])
  | .start p =>
    let r := a.tryStart now p
    (r.1, [.answered (.started r.2)])
  | .run p =>
    let r := a.tryStart now p
    (r.1, [.answered (.replied (.ofLaunch r.2))])
  | .startOrJoin p =>
    match a.join? p with
    | some reply => (a, [.answered (.replied reply)])
    | none =>
      let r := a.tryStart now p
      (r.1, [.answered (.replied (.ofLaunch r.2))])
  | .wait => (a, [.answered (.replied .awaited)])
/-- What some reactions do, one after the other. -/
def reactAll (now : Nat) (a : Action τ π ρ) : List (Reaction τ π) → Action τ π ρ × List (Note τ ρ)
  | [] => (a, [])
  | x :: xs =>
    let r := react now a x
    let s := reactAll now r.1 xs
    (s.1, r.2 ++ s.2)
end

/-- Register a callback.  It is told at once if the action has finished and no other callback is
    waiting to be told. -/
def observe (now : Nat) (c : Callback τ π) (a : Action τ π ρ) : Action τ π ρ × List (Note τ ρ) :=
  match a.stage, a.isNotifying with
  | .finished o, false =>
    let r := reactAll now a c.reactions
    (r.1, .called c.tag o :: r.2)
  | _, _ => (a.enqueue c, [])

mutual
theorem pending_react (now : Nat) (a : Action τ π ρ) (x : Reaction τ π) :
    (react now a x).1.pending ≤ a.pending + x.weight := by
  cases x with
  | observe tag rs =>
    unfold react
    split
    · have := pending_reactAll now a rs
      simp only [Reaction.weight]; omega
    · rw [pending_enqueue]; simp [Callback.weight, Reaction.weight]
  | cancel => simp [react, pending_tryCancel]
  | status => simp [react]
  | result => simp [react]
  | start p => simp [react, pending_tryStart]
  | run p => simp [react, pending_tryStart]
  | startOrJoin p =>
    unfold react
    split
    · simp
    · simp [pending_tryStart]
  | wait => simp [react]
theorem pending_reactAll (now : Nat) (a : Action τ π ρ) (xs : List (Reaction τ π)) :
    (reactAll now a xs).1.pending ≤ a.pending + Reaction.weightOfList xs := by
  cases xs with
  | nil => simp [reactAll]
  | cons x xs =>
    have h := pending_react now a x
    have k := pending_reactAll now (react now a x).1 xs
    simp only [reactAll, Reaction.weightOfList]; omega
end

/-- Once a callback is out of the queue, the queue weighs less, whatever the callback registers. -/
theorem pending_reactAll_lt (now : Nat) {a : Action τ π ρ} {c : Callback τ π}
    {rest : List (Callback τ π)} (h : a.callbacks = c :: rest) :
    (reactAll now { a with callbacks := rest } c.reactions).1.pending < a.pending := by
  have hweight := pending_reactAll now { a with callbacks := rest } c.reactions
  simp only [pending, h, Callback.weightOfList, Callback.weight] at hweight ⊢
  omega

/-- Tell the callbacks, until the queue is empty. -/
def deliver (now : Nat) (o : Outcome ρ) (a : Action τ π ρ) : Action τ π ρ × List (Note τ ρ) :=
  match _h : a.callbacks with
  | [] => ({ a with isNotifying := false }, [])
  | c :: rest =>
    -- The callback is out of the queue before it reacts, so those that it registers come last.
    let r := reactAll now { a with callbacks := rest } c.reactions
    let s := deliver now o r.1
    (s.1, .called c.tag o :: r.2 ++ s.2)
termination_by a.pending
decreasing_by exact pending_reactAll_lt now _h

theorem deliver_nil {now : Nat} {o : Outcome ρ} {a : Action τ π ρ} (h : a.callbacks = []) :
    a.deliver now o = ({ a with isNotifying := false }, []) := by
  rw [deliver]; split
  · rfl
  · simp_all

theorem deliver_cons {now : Nat} {o : Outcome ρ} {a : Action τ π ρ} {c : Callback τ π}
    {rest : List (Callback τ π)} (h : a.callbacks = c :: rest) :
    a.deliver now o =
      let r := reactAll now { a with callbacks := rest } c.reactions
      let s := r.1.deliver now o
      (s.1, .called c.tag o :: r.2 ++ s.2) := by
  rw [deliver]; split
  · simp_all
  · next c' rest' h' =>
    obtain ⟨rfl, rfl⟩ := List.cons.inj (h.symm.trans h')
    rfl

/-! ## Operations -/

/-- Tell everyone that an action has finished. -/
def notify (now : Nat) (o : Outcome ρ) (a : Action τ π ρ) : Action τ π ρ × List (Note τ ρ) :=
  let r := a.deliver now o
  ({ r.1 with published := some o }, r.2 ++ a.tell (.finished a.subject o.status))

/-- Finish with an outcome and tell everyone, if the action runs.  An outcome that comes too late is
    dropped. -/
def complete (now : Nat) (o : Outcome ρ) (a : Action τ π ρ) :
    Action τ π ρ × List (Note τ ρ) × Bool :=
  match a.tryFinish now o with
  | (a, true) =>
    let r := a.notify now o
    (r.1, r.2, true)
  | (a, false) => (a, [], false)

/-- Cancel the action, if it runs; tell whether it did. -/
def cancel (now : Nat) (a : Action τ π ρ) : Action τ π ρ × List (Note τ ρ) × Bool :=
  a.complete now .cancelled

/-- Why an action fails for which there is nobody to do the work. -/
def unattended : Fault := .internal "no async runtime available"

/-- Start the action where nobody is to do its work.  It fails at once. -/
def startUnattended (now : Nat) (p : π) (a : Action τ π ρ) :
    Action τ π ρ × List (Note τ ρ) × Except Fault (Launch ρ) :=
  match a.start now p with
  | (a, notes, .ok .started) =>
    let r := a.complete now (.failed unattended)
    (r.1, notes ++ r.2.1, .ok .started)
  | r => r

end Action

end Federation
