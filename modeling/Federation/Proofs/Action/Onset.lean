import Federation.Proofs.Action.Cancellation

/-!
# Work that is cancelled before it begins

A start hands the work to the host, and only when the host has come to begin it does the runner
begin to watch.  So a cancellation that comes right after the start does not keep the work from
beginning: the host begins it, the runner finds the action cancelled, and only then is the call
given up.  Whatever the work does before its first wait is done.

## Key results

- `host_settle_cancelled`: what the host does when the action was cancelled before that
- `begins_cancelled`: what becomes of the work of an action that is started and cancelled at once
-/

namespace Federation

variable {σ α τ π ρ κ ω : Type}

namespace Pool

/-- What work leaves behind that begins and is given up then: it ends only if it does not wait. -/
def begun (work : Work Unit σ α) (shared : σ) : σ :=
  let (_, s, visit) := work () shared
  if visit.pause = some 0 then (visit.finish () s).2.1 else visit.leave s

variable {p : Pool σ α}

/-- A pool without calls has nothing to settle. -/
theorem settle_of_calls (h : p.calls = []) (now : Nat) : p.settle now = p := by
  cases p
  simp_all [Pool.settle]

/-- A call that has just come in waits for nothing yet. -/
theorem ripen_submit (h : p.calls = []) (now i : Nat) (work : Work Unit σ α) :
    (p.submit i work).ripen now = p.submit i work := by
  simp [Pool.ripen, Pool.submit, h, Call.hasBegun]

/-- The only call of a pool begins and is given up. -/
theorem abort_settle_submit (h : p.calls = []) (now i : Nat) (work : Work Unit σ α) :
    ((Pool.settle now (p.submit i work)).abort i).shared = begun work p.shared ∧
      ((Pool.settle now (p.submit i work)).abort i).calls = [] := by
  have hdue : ∀ pause : Option Nat,
      Timed.isDue (pause.map (now + ·)) now = decide (pause = some 0) := by
    intro pause
    cases pause with
    | none => rfl
    | some d => cases d <;> simp [Timed.isDue]
  simp only [Pool.settle, Pool.submit, h, List.nil_append, List.foldl_cons, List.foldl_nil,
    Pool.turn, Pool.goOn, hdue, begun]
  by_cases hp : (work () p.shared).2.2.pause = some 0
  · simp [hp, Pool.abort]
  · simp [hp, Pool.abort, Call.leave]

end Pool

namespace Roster

variable [DecidableEq π]

section Host

variable [Host κ ω ρ]

/-- If an action was cancelled before its runner begins to watch, the host does the work up to its
    first wait, and only then is the call given up. -/
theorem host_settle_cancelled {r : Roster τ π ρ κ} {a : Action τ π ρ} {due : Option Nat}
    (hj : r.jobs = [{ action := a, runner := .fresh due }]) (hs : a.isRunning = false)
    (now : Nat) :
    (r.settle now).host =
      Timed.settle now (Host.abort 0 (Timed.settle now (Host.ripen now r.host))) := by
  have hnone : ∀ s : Roster τ π ρ κ, s.jobs = r.jobs → s.verdicts now = [] := by
    intro s hs
    rw [verdicts_singleton (hs.trans hj)]
    rfl
  have hearly : r.earlyVerdicts now = [] := by rw [earlyVerdicts, hnone r rfl, List.filter_nil]
  let ripe : Roster τ π ρ κ := { r with host := Host.ripen now r.host }
  have hripe : ripe.verdicts now = [] := hnone ripe rfl
  -- Once the work has begun, the runner begins to watch, and finds that the action was cancelled.
  let begun := ripe.goOn now
  let j : Job τ π ρ :=
    { action := a, runner := .active due (Host.due? (Timed.settle now ripe.host) 0).isSome }
  have hwatch : begun.jobs = [j] := by simp [begun, Roster.goOn, ripe, hj, j, Runner.activate]
  have hverdict : begun.verdicts now = [(0, j, .cancelled)] := by
    rw [verdicts_singleton hwatch, Job.verdict?_of_not_running rfl hs]
    rfl
  have hcount : begun.openCount = 1 := by
    rw [openCount, hwatch]
    rfl
  have hturn : begun.turn now = some ((begun.close now 0 j .cancelled).goOn now) := by
    rw [turn, hverdict]
    rfl
  have hphases : r.settle now = Timed.exhaust (turn now) begun.openCount begun := by
    simp only [Roster.settle, hearly]
    change Timed.exhaust (turn now) ((ripe.closeAll now (ripe.verdicts now)).goOn now).openCount
      ((ripe.closeAll now (ripe.verdicts now)).goOn now) = _
    rw [hripe]
    rfl
  rw [hphases, hcount, Timed.exhaust, hturn]
  rfl

/-- To settle is the move of that name. -/
theorem act_settle (now : Nat) (r : Roster τ π ρ (Recorder κ ω)) :
    (r.act now .settle).1 = r.settle now := rfl

/-- An action that is started and cancelled at once has a runner that has not begun to watch. -/
theorem play_start_cancel (subject : Subject) (label : String) (deadline : Option Nat)
    (isFollowed : Bool) (host : κ) (p : π) (request : ω) (t₀ t₁ : Nat) :
    let x := play [(t₀, .start p request), (t₁, .cancel)]
      (solo (τ := τ) (ρ := ρ) subject label deadline isFollowed host)
    .cancelled true ∈ x.2 ∧ x.1.host.host = Host.submit 0 request host ∧
      ∃ a : Action τ π ρ, a.isRunning = false ∧
        x.1.jobs = [{ action := a, runner := .fresh (deadline.map (t₀ + ·)) }] := by
  let a : Action τ π ρ :=
    { subject := subject, label := label, deadline := deadline, isFollowed := isFollowed
      stage := .running, latest := some p, startedAt := some t₀ }
  obtain ⟨ha, -, hmoved⟩ := Action.complete_running t₁ .cancelled (a := a) rfl
  -- The cancellation completes the action and does not touch its runner.
  refine ⟨?_, rfl, (a.complete t₁ .cancelled).1, ?_, rfl⟩
  · have hanswers : (play [(t₀, .start p request), (t₁, .cancel)]
        (solo (τ := τ) (ρ := ρ) subject label deadline isFollowed host)).2 =
        [.started (.ok .started), .cancelled (a.complete t₁ .cancelled).2.2] := rfl
    rw [hanswers, hmoved]
    exact List.mem_cons_of_mem _ List.mem_cons_self
  · refine Bool.eq_false_iff.mpr ((Action.isRunning_iff _).not.mpr ?_)
    rw [ha]
    exact nofun

end Host

/-- In a pool without other calls, work that was cancelled before its runner began to watch begins,
    and is given up where it waits first. -/
theorem settle_cancelled {r : Roster τ π α (Recorder (Pool σ α) (Work Unit σ α))}
    {a : Action τ π α} {due : Option Nat} {host : Pool σ α} {work : Work Unit σ α}
    (hj : r.jobs = [{ action := a, runner := .fresh due }]) (hs : a.isRunning = false)
    (calls : host.calls = []) (hhost : r.host.host = host.submit 0 work) (now : Nat) :
    (r.settle now).host.host.shared = Pool.begun work host.shared ∧
      (r.settle now).host.host.calls = [] := by
  have hsettle : (r.settle now).host.host =
      (((r.host.host.ripen now).settle now).abort 0).settle now := by
    rw [host_settle_cancelled hj hs now]
    rfl
  obtain ⟨hshared, hcalls⟩ := Pool.abort_settle_submit calls now 0 work
  rw [hsettle, hhost, Pool.ripen_submit calls, Pool.settle_of_calls hcalls]
  exact ⟨hshared, hcalls⟩

/-- An action may be started and cancelled before the roster settles.  Its work begins all the same,
    whatever it is, and is given up where it waits first. -/
theorem begins_cancelled (subject : Subject) (label : String) (deadline : Option Nat)
    (isFollowed : Bool) (host : Pool σ α) (calls : host.calls = []) (p : π)
    (work : Work Unit σ α) (t₀ t₁ t₂ : Nat) :
    let x := play [(t₀, .start p work), (t₁, .cancel)]
      (solo (τ := τ) subject label deadline isFollowed host)
    let y := x.1.act t₂ .settle
    .cancelled true ∈ x.2 ∧ x.1.host.host.shared = host.shared ∧
      y.1.host.host.shared = Pool.begun work host.shared ∧ y.1.host.host.calls = [] := by
  intro x y
  obtain ⟨hcancelled, hhost, a, hs, hjobs⟩ :
      .cancelled true ∈ x.2 ∧ x.1.host.host = host.submit 0 work ∧
        ∃ a : Action τ π α, a.isRunning = false ∧
          x.1.jobs = [{ action := a, runner := .fresh (deadline.map (t₀ + ·)) }] :=
    play_start_cancel subject label deadline isFollowed host p work t₀ t₁
  have hy : y.1 = x.1.settle t₂ := act_settle t₂ x.1
  clear_value y x
  rw [hy]
  refine ⟨hcancelled, ?_, settle_cancelled hjobs hs calls hhost t₂⟩
  rw [hhost]
  rfl

/-- Work that does not wait is done in full although it was cancelled before it began. -/
example :
    let first := solo (τ := String) (π := Int) (.text "user") "work" none false
      ({ shared := {} } : Pool Bench.Tally Int)
    let x := play [(0, .start 7 (Task.work {} (.text "user") 7)), (0, .cancel)] first
    x.1.host.host.shared.runs = 0 ∧ (x.1.act 0 .settle).1.host.host.shared.runs = 1 := by
  decide +kernel

end Roster

end Federation
