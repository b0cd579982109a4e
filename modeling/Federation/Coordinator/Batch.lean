import Federation.Coordinator.Basic
import Federation.Outcomes

/-! # Fan-outs

One operation is run on many providers at once.  A `Batch` has an entry for each target: an action
that was launched, or the fault because of which the provider is not called at all.  Each outcome
stays with its provider, and none delays or cancels another.

* `nodup_resolve` — a target that is listed twice is addressed once. -/

namespace Federation

/-- Which providers a fan-out addresses. -/
inductive Targets where
  /-- Every registered provider, in registration order. -/
  | all
  | only (ps : List ProviderId)
  deriving DecidableEq, Repr

namespace Targets

/-- The providers without repetitions, each at its first place. -/
def distinct (ps : List ProviderId) : List ProviderId :=
  ps.foldl (fun seen p => if seen.contains p then seen else seen ++ [p]) []

/-- The providers that are addressed, given those that are registered. -/
def resolve (registered : List ProviderId) : Targets → List ProviderId
  | all => registered
  | only ps => distinct ps

theorem nodup_distinct (ps : List ProviderId) : (distinct ps).Nodup := by
  have step : ∀ (ps seen : List ProviderId), seen.Nodup →
      (ps.foldl (fun seen p => if seen.contains p then seen else seen ++ [p]) seen).Nodup := by
    intro ps
    induction ps with
    | nil => intro seen h; exact h
    | cons p ps ih =>
      intro seen h
      refine ih _ ?_
      dsimp only
      split
      · exact h
      · next hp =>
        have hp : p ∉ seen := by simpa using hp
        rw [List.nodup_append]
        exact ⟨h, by simp, by rintro a ha b hb rfl; simp at hb; exact hp (hb ▸ ha)⟩
  exact step ps [] List.nodup_nil

theorem nodup_resolve {registered : List ProviderId} (h : registered.Nodup) (t : Targets) :
    (t.resolve registered).Nodup := by
  cases t with
  | all => exact h
  | only ps => exact nodup_distinct ps

end Targets

/-- What became of one target of a fan-out. -/
inductive Batch.Entry where
  /-- The action of the given number was launched at the provider's station. -/
  | launched (provider : ProviderId) (job : Nat)
  /-- The provider is not called. -/
  | resolved (provider : ProviderId) (f : Fault)
  deriving DecidableEq, Repr

/-- A fan-out. -/
structure Batch where
  operation : String
  entries : List Batch.Entry
  deriving DecidableEq, Repr

namespace Batch

/-- The target of an entry. -/
def Entry.provider : Entry → ProviderId
  | launched p _ => p
  | resolved p _ => p

/-- The action of an entry, if one was launched. -/
def Entry.job? : Entry → Option (ProviderId × Nat)
  | launched p job => some (p, job)
  | resolved .. => none

/-- The targets, in order. -/
def targets (b : Batch) : List ProviderId := b.entries.map Entry.provider

/-- The actions that were launched, in target order. -/
def jobs (b : Batch) : List (ProviderId × Nat) := b.entries.filterMap Entry.job?

/-- Whether a station has published the outcomes of its part of a fan-out. -/
def isDoneAt (b : Batch) (s : Station) : Bool :=
  b.jobs.all fun (p, job) => s.id ≠ p || s.roster.hasPublished job

end Batch

namespace Coordinator

/-- Launch an action at a target, for the user that the provider knows by the identifier that
    `localId` finds.  A target that is unknown, unable to perform the operation, or without such an
    identifier is not called; these are checked in this order. -/
def launch (o : Operation) (localId : Provider → Except Fault String) (target : ProviderId)
    (c : Coordinator) : Coordinator × Batch.Entry :=
  match c.station? target with
  | none => (c, .resolved target (.unknownProvider target))
  | some s =>
    if !s.capabilities.supports o then
      (c, .resolved target (.unsupportedOperation target o.name))
    else
      match localId s.provider with
      | .error f => (c, .resolved target f)
      | .ok id =>
        let (s, job) := s.launch c.now o id
        ((c.putStation target s).collect, .launched target job)

/-- Launch actions at several targets, each with its own way to find the user. -/
def launchAll (o : Operation) :
    List (ProviderId × (Provider → Except Fault String)) → Coordinator →
      Coordinator × List Batch.Entry
  | [], c => (c, [])
  | (target, localId) :: rest, c =>
    let (c, e) := c.launch o localId target
    let (c, es) := launchAll o rest c
    (c, e :: es)

/-- Start an operation on every target. -/
def start (o : Operation) (external : String) (targets : Targets) (c : Coordinator) :
    Coordinator × Batch :=
  let ps := targets.resolve c.ids
  let (c, es) := launchAll o (ps.map fun p => (p, Provider.localId external)) c
  (c, ⟨o.name, es⟩)

/-- The action of an entry. -/
def action? (c : Coordinator) (job : ProviderId × Nat) : Option ProviderAction :=
  (c.station? job.1).bind fun s => s.action? job.2

/-- The result of an entry, once it is known. -/
def result? (c : Coordinator) : Batch.Entry → Option (Except Fault Output)
  | .launched p job =>
    ((c.action? (p, job)).bind Action.published).map Outcome.toExcept
  | .resolved _ f => some (.error f)

/-- The results of a fan-out that are known. -/
def outcomes (c : Coordinator) (b : Batch) : Outcomes Output :=
  .ofList (b.entries.filterMap fun e => (c.result? e).map fun r => (e.provider, r))

/-- The numbers of a fan-out. -/
def summary {α : Type} (s : Outcomes α) : Summary :=
  ⟨s.size, s.successes.length, s.failures.length⟩

/-- Wait for every target of a fan-out, but not beyond `limit`. -/
def wait (limit : Nat) (b : Batch) (c : Coordinator) : Coordinator × Option (Outcomes Output) :=
  match c.await b.isDoneAt limit with
  | (c, true) =>
    let s := c.outcomes b
    (c.tell [.completed (summary s)], some s)
  | (c, false) => (c, none)

/-- Run an operation on every target and wait for all of them. -/
def execute (limit : Nat) (o : Operation) (external : String) (targets : Targets)
    (c : Coordinator) : Coordinator × Option (Outcomes Output) :=
  let (c, b) := c.start o external targets
  c.wait limit b

/-- Whether every launched action has ended. -/
def isFinished (c : Coordinator) (b : Batch) : Bool :=
  b.jobs.all fun job => (c.action? job).any fun a => a.status.isTerminal

/-- The number of launched actions that run. -/
def running (c : Coordinator) (b : Batch) : Nat :=
  b.jobs.countP fun job => (c.action? job).any Action.isRunning

/-- Cancel one action; tell whether it ran. -/
def cancelOne (job : ProviderId × Nat) (c : Coordinator) : Coordinator × Bool :=
  match c.station? job.1 with
  | none => (c, false)
  | some s =>
    let (s, moved) := s.cancel c.now job.2
    ((c.putStation job.1 s).collect, moved)

/-- Cancel several actions, one after the other; tell how many of them ran. -/
def cancelEach (jobs : List (ProviderId × Nat)) (c : Coordinator) : Coordinator × Nat :=
  jobs.foldl
    (fun (c, n) job =>
      let (c, moved) := c.cancelOne job
      (c, if moved then n + 1 else n))
    (c, 0)

/-- Cancel every action of a fan-out that still runs; tell how many there were.

    It is not laid down in which order the actions are visited.  Here it is the order of the
    targets; `cancelEach` takes any other one, with the same effect but for the order in which the
    observer is told of the ends. -/
def cancel (b : Batch) (c : Coordinator) : Coordinator × Nat := c.cancelEach b.jobs

end Coordinator

end Federation
