import Federation.Proofs.Action.Account
import Federation.Proofs.Lists

/-!
# What lasts of a job

Time changes a job only until it is closed, and it never changes what the job was asked for: neither
the subject, nor the parameters, nor the instant at which it was started.

## Key results

- `getElem?_settle_of_closed`, `getElem?_moves_of_closed`: a job that is closed stays as it is
- `Tracked.finished`: a job that is closed in the end has finished at some instant
- `callsMade_settle`, `callsMade_cancel`: what the jobs were asked for stays
- `subjects_start`, `subjects_observe`, `subjects_cancel`, `subjects_settle`: so do their subjects,
  whatever else is done
-/

namespace Federation

variable {τ π ρ κ ω : Type}

/-- What a job was asked for: its subject, its parameters, and the instant at which it was
    started. -/
def Job.call (j : Job τ π ρ) : Subject × Option π × Option Nat :=
  (j.action.subject, j.action.latest, j.action.startedAt)

/-- A start leaves the subject of an action as it is. -/
theorem Action.subject_start (now : Nat) (p : π) (a : Action τ π ρ) :
    (a.start now p).1.subject = a.subject := by
  unfold start tryStart
  cases a.stage <;> rfl

/-- A callback leaves the subject of an action as it is. -/
theorem Action.subject_observe [DecidableEq π] (now : Nat) (c : Callback τ π) (a : Action τ π ρ) :
    (a.observe now c).1.subject = a.subject := by
  by_cases h : ∃ o, a.stage = .finished o ∧ a.isNotifying = false
  · obtain ⟨o, hstage, hidle⟩ := h
    rw [(observe_finished now c hstage hidle).1]
  · -- The callback is told later, so it just joins the queue.
    unfold observe
    split
    · next o hstage hidle => exact absurd ⟨o, hstage, hidle⟩ h
    · rfl

namespace Roster

/-- What the jobs were asked for. -/
def callsMade (r : Roster τ π ρ κ) : List (Subject × Option π × Option Nat) := r.jobs.map Job.call

variable [Host κ ω ρ] [DecidableEq π] {now later i : Nat} {r r' : Roster τ π ρ κ} {j : Job τ π ρ}

/-- A job that is closed stays as it is when the roster settles. -/
theorem getElem?_settle_of_closed (hclosed : j.runner.isOpen = false)
    (hj : r.jobs[i]? = some j) : (r.settle now).jobs[i]? = some j := by
  refine settle_phases (P := fun r => r.jobs[i]? = some j) ?closing (fun _ h => h) ?goOn hj
  case closing =>
    -- Only runners that are active give verdicts.
    intro r vs hvs hr
    have hi : i ∉ vs.map Prod.fst := by
      intro hi
      obtain ⟨⟨x, k, o⟩, hv, rfl⟩ := List.mem_map.mp hi
      have hmem := hvs.subset hv
      obtain rfl := Option.some.inj (hr.symm.trans (mem_verdicts.mp hmem).1)
      exact nomatch hclosed.symm.trans (isOpen_of_isActive (isActive_of_mem_verdicts hmem))
    rw [getElem?_jobs_closeAll_of_not_mem now hi, hr]
  case goOn =>
    intro r hr
    rw [goOn_eq, getElem?_jobs_activated]
    show (r.jobs[i]?).map _ = _
    rw [hr, Option.map_some, activate_of_not_isOpen hclosed]

/-- A job that is closed stays as it is as time goes on. -/
theorem getElem?_moves_of_closed (hclosed : j.runner.isOpen = false) (hj : r.jobs[i]? = some j)
    (hm : Timed.Moves now r later r') : r'.jobs[i]? = some j := by
  induction hm with
  | refl => exact hj
  | step _ _ ih => exact ih (getElem?_settle_of_closed hclosed hj)

omit [Host κ ω ρ] in
/-- A completion leaves the call that a job has made as it is. -/
theorem call_complete (now : Nat) (o : Outcome ρ) (j : Job τ π ρ) (x : Runner) :
    Job.call { action := (j.action.complete now o).1, runner := x } = j.call := by
  by_cases h : j.action.stage = .running
  · simp only [Job.call, (Action.complete_running now o h).1]
  · simp only [Job.call, Action.complete_of_not_running now o h]

omit [Host κ ω ρ] in
/-- What the jobs were asked for stays when one is cancelled. -/
theorem callsMade_cancel (now i : Nat) (r : Roster τ π ρ κ) :
    (r.cancel now i).1.callsMade = r.callsMade := by
  unfold cancel
  split
  · rfl
  · next j hj => exact map_set_of_eq hj (call_complete now .cancelled j j.runner)

/-- What the jobs were asked for stays when the roster settles. -/
theorem callsMade_settle (now : Nat) (r : Roster τ π ρ κ) :
    (r.settle now).callsMade = r.callsMade := by
  refine settle_induction (P := fun s => s.callsMade = r.callsMade) ?close (fun _ h => h) ?goOn rfl
  case close =>
    intro s i j o hj hs
    rw [← hs]
    exact map_set_of_eq hj (call_complete now o j .closed)
  -- Runners that begin to watch are not part of what was asked for.
  case goOn =>
    intro s hs
    rw [← hs, goOn_eq]
    refine List.ext_getElem? fun x => ?_
    rw [callsMade, callsMade, List.getElem?_map, List.getElem?_map, getElem?_jobs_activated,
      Option.map_map]
    rfl

/-! ## Subjects -/

/-- The subjects of the actions. -/
def subjects (r : Roster τ π ρ κ) : List Subject := r.jobs.map fun j => j.action.subject

omit [Host κ ω ρ] [DecidableEq π] in
/-- The subjects of the jobs are those of the calls they made. -/
theorem subjects_eq_map_callsMade (r : Roster τ π ρ κ) :
    r.subjects = r.callsMade.map Prod.fst := by
  rw [subjects, callsMade, List.map_map]
  rfl

omit [Host κ ω ρ] in
/-- Registering a callback leaves the subjects as they are. -/
theorem subjects_observe (now i : Nat) (c : Callback τ π) (r : Roster τ π ρ κ) :
    (r.observe now i c).subjects = r.subjects := by
  unfold observe
  split
  · rfl
  · next j hj => exact map_set_of_eq hj (Action.subject_observe now c j.action)

omit [Host κ ω ρ] in
/-- A cancellation leaves the subjects as they are. -/
theorem subjects_cancel (now i : Nat) (r : Roster τ π ρ κ) :
    (r.cancel now i).1.subjects = r.subjects := by
  rw [subjects_eq_map_callsMade, callsMade_cancel, subjects_eq_map_callsMade]

omit [DecidableEq π] in
/-- A start leaves the subjects as they are. -/
theorem subjects_start (now i : Nat) (p : π) (request : ω) (r : Roster τ π ρ κ) :
    (r.start now i p request).1.subjects = r.subjects := by
  unfold start
  -- There may be no such job, and an action that is not idle is not started.
  split
  · rfl
  · next j hj =>
    have hsubject := Action.subject_start now p j.action
    split
    · next a notes ha =>
      rw [ha] at hsubject
      exact map_set_of_eq hj hsubject
    · rfl

/-- Settling leaves the subjects as they are. -/
theorem subjects_settle (now : Nat) (r : Roster τ π ρ κ) :
    (r.settle now).subjects = r.subjects := by
  rw [subjects_eq_map_callsMade, callsMade_settle, subjects_eq_map_callsMade]

/-! ## Jobs that are closed -/

omit [DecidableEq π] in
/-- A job that is closed in the end has finished at some instant. -/
theorem Tracked.finished {terms : Terms} (h : Tracked terms i now r) (hi : ¬r.IsOpen i) :
    ∃ j u, r.jobs[i]? = some j ∧ j.runner.isOpen = false ∧ j.action.finishedAt = some u := by
  cases h with
  | running j hj isOpen => exact absurd ⟨j, hj, isOpen⟩ hi
  | answered j e hj isOpen _ _ _ _ finishedAt => exact ⟨j, e.instant, hj, isOpen, finishedAt⟩
  | overdue j d hj isOpen _ _ _ finishedAt => exact ⟨j, _, hj, isOpen, finishedAt⟩

end Roster

end Federation
