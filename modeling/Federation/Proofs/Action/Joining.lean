import Federation.Proofs.Action.Deeds

/-!
# One run for all callers

Many may call for one action: with `start`, with `run`, or with `startOrJoin`.  The first of them
finds the action idle and launches its work, with the parameters of that call.  Nobody else
launches anything: whoever comes while the action runs is turned away or waits for the outcome of
that run, and whoever comes later is told the outcome that there is.

A caller who does not launch leaves no trace.  Not only the action but all of the roster is as it
was, with its host, its runner and what was seen.

## Key results

- `act_of_not_idle`: a call that does not find the action idle changes nothing
- `Launched.play`: what the first call has launched stays the only run
- `joining_spec`: who launches, who joins, who is turned away, and what each of them is told
-/

namespace Federation

variable {τ π ρ κ ω : Type}

namespace Move

/-- The parameters with which a move calls for a run. -/
def params? : Move τ π κ ω → Option π
  | start p _ | startUnattended p | run p _ | startOrJoin p _ => some p
  | cancel | observe _ | wait | result | status | settle | evolve _ => none

/-- The parameters and the work of a call that can have its work done. -/
def launch? : Move τ π κ ω → Option (π × ω)
  | start p request | run p request | startOrJoin p request => some (p, request)
  | startUnattended _ | cancel | observe _ | wait | result | status | settle | evolve _ => none

/-- What a call is answered that launches the work. -/
def launched : Move τ π κ ω → Answer ρ
  | start _ _ | startUnattended _ => .started (.ok .started)
  | run _ _ | startOrJoin _ _ | cancel | observe _ | wait | result | status | settle | evolve _ =>
    .replied .awaited

end Move

namespace Roster

variable [DecidableEq π] [Host κ ω ρ] {r : Roster τ π ρ (Recorder κ ω)} {a : Action τ π ρ}
  {now : Nat} {m : Move τ π κ ω} {p : π} {request : ω}

/-! ## The calls that do not launch -/

omit [DecidableEq π] in
/-- A start of an action that is not idle changes nothing. -/
theorem start_of_not_idle (h : Solo r a) (hs : a.stage ≠ .idle) (now : Nat) (p : π) (request : ω) :
    r.start now 0 p request = (r, some (found a.stage)) := by
  obtain ⟨j, hj, rfl⟩ := h.jobs
  cases hstage : j.action.stage with
  | idle => exact absurd hstage hs
  | running | finished o =>
    simp [Roster.start, hj, Action.start, Action.tryStart, hstage, found]

omit [DecidableEq π] in
/-- A run that does not find the action idle is told what it found. -/
theorem run_of_not_idle (h : Solo r a) (hs : a.stage ≠ .idle) (now : Nat) (p : π) (request : ω) :
    r.run now 0 p request = (r, .ofLaunch (found a.stage)) := by
  rw [Roster.run, start_of_not_idle h hs]

/-- Whoever asks to join a run joins it with equal parameters only. -/
theorem startOrJoin_running (h : Solo r a) (hs : a.stage = .running) (now : Nat) (p : π)
    (request : ω) :
    r.startOrJoin now 0 p request =
      (r, if a.latest = some p then .awaited else .known (.failed .alreadyInProgress)) := by
  have running : a.isRunning = true := (Action.isRunning_iff a).mpr hs
  simp only [Roster.startOrJoin, h.action?, Action.join?, running, if_true]

/-- A start or join that finds the action finished is told its outcome. -/
theorem startOrJoin_finished (h : Solo r a) {o : Outcome ρ} (hs : a.stage = .finished o)
    (now : Nat) (p : π) (request : ω) : r.startOrJoin now 0 p request = (r, .known o) := by
  have begun : a.stage ≠ .idle := by rw [hs]; exact nofun
  simp only [Roster.startOrJoin, h.action?, Action.join?_finished p hs, run_of_not_idle h begun, hs,
    found, Reply.ofLaunch]

/-- A call that does not find the action idle changes nothing at all. -/
theorem act_of_not_idle (h : Solo r a) (hs : a.stage ≠ .idle) (now : Nat)
    (call : m.params? = some p) : (r.act now m).1 = r := by
  -- Each kind of call turns back in its own way.
  cases m with
  | start p request => simp only [act, start_of_not_idle h hs]
  | run p request => simp only [act, run_of_not_idle h hs]
  | startOrJoin p request =>
    cases hstage : a.stage with
    | idle => exact absurd hstage hs
    | running => simp only [act, startOrJoin_running h hstage]
    | finished o => simp only [act, startOrJoin_finished h hstage]
  | startUnattended p =>
    obtain ⟨j, hj, rfl⟩ := h.jobs
    obtain ⟨same, quiet⟩ := Action.startUnattended_of_not_idle now p hs
    have jobs : r.jobs.set 0 j = r.jobs := by rw [hj]; rfl
    simp only [act, hj, List.getElem?_cons_zero, same, quiet, record, List.map_nil,
      List.append_nil]
    rw [← hj, jobs]
  | _ => cases call

/-! ## The call that launches -/

omit [DecidableEq π] in
/-- A start of an idle action hands its work to the host, and its runner is to wait for it. -/
theorem start_of_idle (h : Solo r a) (hs : a.stage = .idle) (now : Nat) (p : π) (request : ω) :
    (r.start now 0 p request).1.host = Host.submit 0 request r.host ∧
      (r.start now 0 p request).1.jobs =
        [{ action := { a with stage := .running, latest := some p, startedAt := some now }
           runner := .fresh (a.deadline.map (now + ·)) }] ∧
      (r.start now 0 p request).2 = some (.ok .started) := by
  obtain ⟨j, hj, rfl⟩ := h.jobs
  simp [Roster.start, hj, Action.start_idle now p hs, record]

/-- A call that finds the action idle starts it, with its own parameters. -/
theorem act_of_idle (h : Solo r a) (hs : a.stage = .idle) (now : Nat)
    (call : m.launch? = some (p, request)) :
    (r.act now m).1 = (r.start now 0 p request).1 ∧ (r.act now m).2 = [m.launched] := by
  obtain ⟨-, -, answer⟩ := start_of_idle h hs now p request
  have run : r.run now 0 p request = ((r.start now 0 p request).1, .awaited) := by
    have pair : r.start now 0 p request =
        ((r.start now 0 p request).1, some (.ok .started)) := Prod.ext rfl answer
    rw [Roster.run, pair]
    rfl
  -- The three kinds of calls start the action in the same way and differ in what they answer.
  cases m with
  | start p' request' =>
    obtain ⟨rfl, rfl⟩ := Prod.mk.inj (Option.some.inj call)
    exact ⟨rfl, by simp only [act, answer]; rfl⟩
  | run p' request' =>
    obtain ⟨rfl, rfl⟩ := Prod.mk.inj (Option.some.inj call)
    exact ⟨by simp only [act, run], by simp only [act, run]; rfl⟩
  | startOrJoin p' request' =>
    obtain ⟨rfl, rfl⟩ := Prod.mk.inj (Option.some.inj call)
    have idle : ¬a.isRunning = true := by simp [Action.isRunning_iff, hs]
    have join : a.join? p' = none := by simp [Action.join?, idle]
    have same : r.startOrJoin now 0 p' request' = r.run now 0 p' request' := by
      simp only [Roster.startOrJoin, h.action?, join]
    exact ⟨by simp only [act, same, run], by simp only [act, same, run]; rfl⟩
  | _ => cases call

/-! ## Moves that are no calls -/

/-- The work that was launched is known from the calls alone. -/
theorem made_of_no_call (now : Nat) (other : m.params? = none) :
    (r.act now m).1.host.made = r.host.made := by
  cases m with
  | settle =>
    exact host_settle_at (P := fun k : Recorder κ ω => k.made = r.host.made)
      (fun _ _ hk => hk) (fun _ hk => hk) (fun _ hk => hk) rfl
  | cancel => simp only [act, Roster.cancel]; split <;> rfl
  | observe c => simp only [act, Roster.observe]; split <;> rfl
  | wait | result | status | evolve f => rfl
  | _ => cases other

/-- What is not a call keeps the parameters of an action and the instant of its start, and that it
    was started. -/
theorem perform_of_no_call (rest : a.AtRest) (now : Nat) (r : Roster τ π ρ (Recorder κ ω))
    (other : m.params? = none) :
    let b := (a.perform now (r.deed now m)).1
    b.latest = a.latest ∧ b.startedAt = a.startedAt ∧ (b.stage = .idle ↔ a.stage = .idle) := by
  have complete : ∀ o, let b := (a.perform now (.complete o)).1
      b.latest = a.latest ∧ b.startedAt = a.startedAt ∧ (b.stage = .idle ↔ a.stage = .idle) := by
    intro o
    by_cases running : a.stage = .running
    · simp [Action.perform, (Action.complete_running now o running).1, running]
    · simp [Action.perform, Action.complete_of_not_running now o running]
  -- Only a cancellation and settling may complete the action; the others do not touch it.
  cases m with
  | cancel => exact complete .cancelled
  | settle =>
    rw [deed]
    split
    · exact complete _
    · exact ⟨rfl, rfl, .rfl⟩
  | observe c =>
    cases finished : a.stage.outcome? with
    | some o =>
      have ho := Stage.outcome?_eq_some_iff.mp finished
      rw [deed, Action.perform, (Action.observe_finished now c ho rest.isNotifying).1]
      exact ⟨rfl, rfl, .rfl⟩
    | none =>
      have hnot := Stage.ne_finished_of_outcome? finished
      rw [deed, Action.perform, Action.observe_of_not_finished now c hnot]
      exact ⟨rfl, rfl, .rfl⟩
  | wait | result | status | evolve f => exact ⟨rfl, rfl, .rfl⟩
  | _ => cases other

/-! ## Before and after -/

/-- Nobody has called yet. -/
structure Uncalled (r : Roster τ π ρ (Recorder κ ω)) (a : Action τ π ρ) : Prop where
  solo : Solo r a
  idle : a.stage = .idle
  made : r.host.made = []

/-- Someone called with some parameters and launched the only work. -/
structure Launched (t : Nat) (p : π) (request : ω) (r : Roster τ π ρ (Recorder κ ω))
    (a : Action τ π ρ) : Prop where
  solo : Solo r a
  begun : a.stage ≠ .idle
  latest : a.latest = some p
  startedAt : a.startedAt = some t
  made : r.host.made = [(0, request)]

/-- The first call launches the work. -/
theorem Uncalled.launch (h : Uncalled r a) (now : Nat) (call : m.launch? = some (p, request)) :
    Launched now p request (r.act now m).1
      { a with stage := .running, latest := some p, startedAt := some now } := by
  obtain ⟨host, jobs, -⟩ := start_of_idle h.solo h.idle now p request
  rw [(act_of_idle h.solo h.idle now call).1]
  refine ⟨⟨⟨_, jobs, rfl⟩, h.solo.atRest.isNotifying, ?_, nofun⟩, nofun, rfl, rfl, ?_⟩
  · rw [h.solo.atRest.published, h.idle]
    rfl
  · rw [host, Recorder.made_submit, h.made]
    rfl

/-- As long as nobody calls, the action is idle. -/
theorem Uncalled.play (h : Uncalled r a) (moves : List (Nat × Move τ π κ ω))
    (others : ∀ x ∈ moves, x.2.params? = none) : ∃ b, Uncalled (play moves r).1 b := by
  induction moves generalizing r a with
  | nil => exact ⟨a, h⟩
  | cons x moves ih =>
    obtain ⟨other, others⟩ := List.forall_mem_cons.mp others
    have act : Uncalled (r.act x.1 x.2).1 (a.perform x.1 (r.deed x.1 x.2)).1 :=
      ⟨(h.solo.act x.1 x.2).1, (perform_of_no_call h.solo.atRest x.1 r other).2.2.mpr h.idle,
        (made_of_no_call x.1 other).trans h.made⟩
    exact ih act others

/-- What the first call has launched stays the only run, whatever else is done. -/
theorem Launched.play {t : Nat} (h : Launched t p request r a)
    (moves : List (Nat × Move τ π κ ω)) : ∃ b, Launched t p request (play moves r).1 b := by
  induction moves generalizing r a with
  | nil => exact ⟨a, h⟩
  | cons x moves ih =>
    obtain ⟨now, m⟩ := x
    -- A call changes nothing any more, and what is not a call keeps the run.
    cases call : m.params? with
    | some p' =>
      have same := act_of_not_idle h.solo h.begun now call
      exact ih (r := (r.act now m).1) (same ▸ h)
    | none =>
      obtain ⟨latest, startedAt, idle⟩ := perform_of_no_call h.solo.atRest now r call
      refine ih (r := (r.act now m).1) ⟨(h.solo.act now m).1, idle.not.mpr h.begun, ?_, ?_, ?_⟩
      · exact latest.trans h.latest
      · exact startedAt.trans h.startedAt
      · exact (made_of_no_call now call).trans h.made

omit [DecidableEq π] [Host κ ω ρ] in
/-- What those are told who wait is the outcome of the action, as soon as it has one. -/
theorem read?_awaited_iff (h : Solo r a) (o : Outcome ρ) :
    r.read? 0 .awaited = some o ↔ r.result? = some (.ok o) := by
  rw [h.result?_eq_iff, ← Stage.outcome?_eq_some_iff, read?, h.action?, Option.bind_some,
    h.atRest.published]

/-- All that was seen of an action that has finished fits its outcome. -/
theorem agrees_of_mem_log_play (subject : Subject) (label : String) (deadline : Option Nat)
    (isFollowed : Bool) (host : κ) (moves : List (Nat × Move τ π κ ω)) {o : Outcome ρ}
    (finished : (play moves (solo subject label deadline isFollowed host)).1.result? =
      some (.ok o)) :
    ∀ e ∈ (play moves (solo (ρ := ρ) subject label deadline isFollowed host)).1.log,
      e.2.Agrees o := by
  have sound : Sound [] 0
      (solo (τ := τ) (π := π) (ρ := ρ) (ω := ω) subject label deadline isFollowed host) :=
    .idle _ rfl rfl ⟨rfl, rfl, nofun, nofun⟩ rfl rfl
  have result : ∀ {j : Job τ π ρ},
      (play moves (solo (ρ := ρ) subject label deadline isFollowed host)).1.jobs = [j] →
        j.action.stage = .finished o := by
    intro j hj
    rw [result?, action?, hj] at finished
    exact (Action.result_eq_ok_iff _ o).mp (Option.some.inj finished)
  -- An action that was idle is sound, and stays so; then it fits what was seen if it has finished.
  cases (sound.play moves).1 with
  | idle j job stage | running j job stage => cases stage.symm.trans (result job)
  | finished j o' job stage settled =>
    obtain rfl := Stage.finished.inj (stage.symm.trans (result job))
    exact settled.seen

/-- Somebody is the first to call for an action, with `start`, `run` or `startOrJoin`, after any
    moves that are no calls and before any moves at all.  That call finds the action idle and
    launches its work with its own parameters; this is the only run there ever is.  Whoever calls
    from then on leaves everything as it is.  While the action runs, `start` and `run` are turned
    away, and so is `startOrJoin` unless its parameters are those of the run: then it waits, and
    what it is told at any later instant is the outcome of that run, whatever it is.  Once the action
    has finished, everyone is told its outcome, also those who call from within a callback. -/
theorem joining_spec (subject : Subject) (label : String) (deadline : Option Nat)
    (isFollowed : Bool) (host : κ) (before later : List (Nat × Move τ π κ ω)) (t : Nat)
    {m : Move τ π κ ω} {p : π} {request : ω} (first : ∀ x ∈ before, x.2.params? = none)
    (call : m.launch? = some (p, request)) :
    let x := (play before (solo (ρ := ρ) subject label deadline isFollowed host)).1
    let y := x.act t m
    let z := (play later y.1).1
    x.status = .idle ∧ y.2 = [m.launched] ∧ z.host.made = [(0, request)] ∧
    (∃ a, z.action? 0 = some a ∧ a.latest = some p ∧ a.startedAt = some t ∧
      a.status ≠ .idle) ∧
    (∀ now m' p', m'.params? = some p' → (z.act now m').1 = z) ∧
    (z.status = .running → ∀ now p' request',
      (z.act now (.start p' request')).2 = [.started (.error .alreadyInProgress)] ∧
      (z.act now (.run p' request')).2 = [.replied (.known (.failed .alreadyInProgress))] ∧
      (z.act now (.startOrJoin p' request')).2 =
        [.replied (if p' = p then .awaited else .known (.failed .alreadyInProgress))] ∧
      ∀ after o, ((play after (z.act now (.startOrJoin p' request')).1).1.read? 0 .awaited = some o ↔
        (play after z).1.result? = some (.ok o))) ∧
    (∀ o, z.result? = some (.ok o) →
      (∀ now p' request',
        (z.act now (.start p' request')).2 = [.started (.ok (.alreadyFinished o))] ∧
        (z.act now (.run p' request')).2 = [.replied (.known o)] ∧
        (z.act now (.startOrJoin p' request')).2 = [.replied (.known o)]) ∧
      ∀ e ∈ z.log, e.2.Agrees o) := by
  intro x y z
  -- Before the first call the action is idle; the call launches it, and nothing later does.
  obtain ⟨a, uncalled⟩ : ∃ a, Uncalled x a :=
    Uncalled.play ⟨solo_solo .., rfl, rfl⟩ before first
  have answer := (act_of_idle uncalled.solo uncalled.idle t call).2
  obtain ⟨b, kept⟩ : ∃ b, Launched t p request z b := (uncalled.launch t call).play later
  have status : z.status = b.stage.status := kept.solo.status
  have stage : b.status ≠ .idle := by
    show b.stage.status ≠ .idle
    cases hs : b.stage with
    | idle => exact absurd hs kept.begun
    | running => exact nofun
    | finished o => cases o <;> exact nofun
  refine ⟨?before, answer, kept.made, ⟨b, kept.solo.action?, kept.latest, kept.startedAt, stage⟩,
    fun now m' p' => act_of_not_idle kept.solo kept.begun now, ?meanwhile, ?afterwards⟩
  case before => rw [uncalled.solo.status, Action.status, uncalled.idle]; rfl
  case meanwhile =>
    intro running now p' request'
    have running : b.stage = .running :=
      (Action.isRunning_iff b).mp (decide_eq_true (status.symm.trans running))
    have joined := startOrJoin_running kept.solo running now p' request'
    refine ⟨?_, ?_, ?_, ?_⟩
    · simp only [act, start_of_not_idle kept.solo kept.begun, running, found]
      rfl
    · simp only [act, run_of_not_idle kept.solo kept.begun, running, found, Reply.ofLaunch]
    · simp only [act, joined, kept.latest, Option.some.injEq, eq_comm]
    · intro after o
      have same : (z.act now (.startOrJoin p' request')).1 = z := by simp only [act, joined]
      obtain ⟨c, rest⟩ := kept.play after
      rw [same]
      exact read?_awaited_iff rest.solo o
  case afterwards =>
    intro o result
    have finished : b.stage = .finished o := (kept.solo.result?_eq_iff o).mp result
    refine ⟨fun now p' request' => ⟨?_, ?_, ?_⟩, ?_⟩
    · simp only [act, start_of_not_idle kept.solo kept.begun, finished, found]
      rfl
    · simp only [act, run_of_not_idle kept.solo kept.begun, finished, found, Reply.ofLaunch]
    · simp only [act, startOrJoin_finished kept.solo finished]
    -- What was seen goes back to the very beginning, so the two stretches are put together.
    · have all : z = (play (before ++ (t, m) :: later)
          (Roster.solo (ρ := ρ) subject label deadline isFollowed host)).1 := by
        rw [play_append]
        rfl
      rw [all] at result ⊢
      exact agrees_of_mem_log_play subject label deadline isFollowed host _ result

/-- While work with the parameters 7 takes five milliseconds, another caller with 7 joins it and a
    caller with 8 is turned away. -/
theorem joining_spec_joined :
    let work := Task.work { delay := 5 } (.text "user") 7
    let x := solo (τ := String) (π := Int) (ρ := Int) (.text "user") "work" none false
      ({ shared := {} } : Pool Bench.Tally Int)
    let y := (play [(0, .observe ⟨"seen", []⟩)] x).1
    let z := (play [(1, .settle)] (y.act 1 (.startOrJoin 7 work)).1).1
    z.status = .running ∧
      (z.act 2 (.startOrJoin 8 work)).2 = [.replied (.known (.failed .alreadyInProgress))] ∧
      (play [(6, .settle)] (z.act 3 (.startOrJoin 7 work)).1).1.read? 0 .awaited =
        some (.succeeded 13) := by
  intro work x y z
  have running : z.status = .running := by decide +kernel
  have ends : (play [(6, .settle)] z).1.result? = some (.ok (.succeeded 13)) := by decide +kernel
  obtain ⟨-, -, -, -, -, meanwhile, -⟩ := joining_spec (π := Int) (ρ := Int) (.text "user") "work"
    none false ({ shared := {} } : Pool Bench.Tally Int) [(0, .observe ⟨"seen", []⟩)] [(1, .settle)]
    1 (m := .startOrJoin 7 work) (by simp [Move.params?]) rfl
  have turned := (meanwhile running 2 8 work).2.2.1
  have joined := (meanwhile running 3 7 work).2.2.2 [(6, .settle)] (.succeeded 13)
  exact ⟨running, turned, joined.mpr ends⟩

end Roster

end Federation
