import Federation.Proofs.Action.Lifecycle
import Federation.Proofs.Action.Settling
import Mathlib.Data.List.Induction

/-!
# What moves come to

However an action is called and whatever its host does, three things can be done to the action
itself: it is started, it is completed, and callbacks are registered with it.  Every move comes to
one such deed, or to nothing.  When the roster settles, the deed is the verdict of the runner, and
the runner has found it at one of the places where it looked.

## Key results

- `AtRest.perform`: between two deeds nobody is being told anything
- `settle_cases`: what becomes of an action when its roster settles
- `act_deed`: every move comes to its deed
- `Solo.play_finished`: what has finished stays as it is
-/

namespace Federation

variable {τ π ρ κ ω : Type}

/-- The outcome of an action that has come so far, if it has one. -/
def Stage.outcome? : Stage ρ → Option (Outcome ρ)
  | .finished o => some o
  | .idle | .running => none

/-- The stage has an outcome exactly if the action has finished with it. -/
theorem Stage.outcome?_eq_some_iff {s : Stage ρ} {o : Outcome ρ} :
    s.outcome? = some o ↔ s = .finished o := by
  cases s <;> simp [outcome?]

/-- A stage without an outcome is not a finished one. -/
theorem Stage.ne_finished_of_outcome? {s : Stage ρ} (h : s.outcome? = none) (o : Outcome ρ) :
    s ≠ .finished o := by
  rintro rfl
  exact nomatch h

/-- The status is idle exactly at the stage of that name. -/
theorem Stage.status_eq_idle_iff {s : Stage ρ} : s.status = .idle ↔ s = .idle := by
  cases s with
  | idle | running => simp [Stage.status]
  | finished o => cases o <;> simp [Stage.status, Outcome.status]

/-- The status is terminal exactly if there is an outcome. -/
theorem Stage.isTerminal_status_iff {s : Stage ρ} :
    s.status.isTerminal = true ↔ s.outcome? ≠ none := by
  cases s with
  | idle | running => simp [Stage.status, Status.isTerminal, outcome?]
  | finished o => simp [Stage.status, outcome?]

/-- What can be done to an action itself. -/
inductive Deed (τ π ρ : Type) where
  | nothing
  | start (p : π)
  /-- It is started where nobody is to do its work. -/
  | startUnattended (p : π)
  | complete (o : Outcome ρ)
  | observe (c : Callback τ π)

namespace Action

variable {a : Action τ π ρ} {o : Outcome ρ}

/-! ## Between two deeds -/

/-- An action that is not telling anybody anything: those who were to be told have been told. -/
structure AtRest (a : Action τ π ρ) : Prop where
  isNotifying : a.isNotifying = false
  published : a.published = a.stage.outcome?
  callbacks : ∀ o, a.stage = .finished o → a.callbacks = []

/-- An idle action starts with the parameters it is given. -/
theorem start_idle (now : Nat) (p : π) (h : a.stage = .idle) :
    a.start now p =
      ({ a with stage := .running, latest := some p, startedAt := some now },
        a.tell (.started a.subject), .ok .started) := by
  simp only [start, tryStart, h]
  rfl

/-- An action that is not idle is not started. -/
theorem start_of_not_idle (now : Nat) (p : π) (h : a.stage ≠ .idle) :
    (a.start now p).1 = a ∧ (a.start now p).2.1 = [] := by
  cases hs : a.stage with
  | idle => exact absurd hs h
  | running | finished => simp [start, tryStart, hs]

variable [DecidableEq π]

/-- An idle action without anyone to do its work starts and fails at once. -/
theorem startUnattended_idle (now : Nat) (p : π) (h : a.stage = .idle) :
    (a.startUnattended now p).1 = ((a.start now p).1.complete now (.failed unattended)).1 ∧
      (a.startUnattended now p).2.1 =
        (a.start now p).2.1 ++ ((a.start now p).1.complete now (.failed unattended)).2.1 := by
  simp only [startUnattended, start_idle now p h, and_self]

/-- An action that is not idle is not started, whether or not anyone is to do its work. -/
theorem startUnattended_of_not_idle (now : Nat) (p : π) (h : a.stage ≠ .idle) :
    (a.startUnattended now p).1 = a ∧ (a.startUnattended now p).2.1 = [] := by
  cases hs : a.stage with
  | idle => exact absurd hs h
  | running | finished => simp [startUnattended, start, tryStart, hs]

/-- What a deed does to an action, and what can be seen of it. -/
def perform (now : Nat) (a : Action τ π ρ) : Deed τ π ρ → Action τ π ρ × List (Note τ ρ)
  | .nothing => (a, [])
  | .start p =>
    let r := a.start now p
    (r.1, r.2.1)
  | .startUnattended p =>
    let r := a.startUnattended now p
    (r.1, r.2.1)
  | .complete o =>
    let r := a.complete now o
    (r.1, r.2.1)
  | .observe c => a.observe now c

omit [DecidableEq π] in
/-- A start leaves an action at rest. -/
private theorem AtRest.start (h : a.AtRest) (now : Nat) (p : π) : (a.start now p).1.AtRest := by
  by_cases hs : a.stage = .idle
  · rw [start_idle now p hs]
    have hpublished : a.published = none := by rw [h.published, hs]; rfl
    exact ⟨h.isNotifying, hpublished, nofun⟩
  · rw [(start_of_not_idle now p hs).1]
    exact h

/-- A completion leaves an action at rest. -/
private theorem AtRest.complete (h : a.AtRest) (now : Nat) (o : Outcome ρ) :
    (a.complete now o).1.AtRest := by
  by_cases hs : a.stage = .running
  · rw [(complete_running now o hs).1]
    exact ⟨rfl, rfl, fun _ _ => rfl⟩
  · rw [complete_of_not_running now o hs]
    exact h

/-- Every deed leaves an action at rest. -/
theorem AtRest.perform (h : a.AtRest) (now : Nat) (d : Deed τ π ρ) :
    (a.perform now d).1.AtRest := by
  cases d with
  | nothing => exact h
  | start p => exact h.start now p
  | startUnattended p =>
    rw [Action.perform]
    by_cases hs : a.stage = .idle
    · rw [(startUnattended_idle now p hs).1]
      exact (h.start now p).complete now _
    · rw [(startUnattended_of_not_idle now p hs).1]
      exact h
  | complete o => exact h.complete now o
  | observe c =>
    -- A callback is called at once if the action has finished, and waits otherwise.
    cases hs : a.stage.outcome? with
    | some o =>
      have ho := Stage.outcome?_eq_some_iff.mp hs
      rw [Action.perform, (observe_finished now c ho h.isNotifying).1]
      exact h
    | none =>
      have hnot := Stage.ne_finished_of_outcome? hs
      rw [Action.perform, observe_of_not_finished now c hnot]
      exact ⟨h.isNotifying, h.published, fun o ho => absurd ho (hnot o)⟩

/-- Once an action has finished, no deed changes it, and only a callback that is registered is told
    something. -/
theorem AtRest.perform_finished (h : a.AtRest) (ho : a.stage = .finished o) (now : Nat)
    (d : Deed τ π ρ) :
    (a.perform now d).1 = a ∧ (∀ note ∈ (a.perform now d).2, note.Agrees o) ∧
      ((∀ c, d ≠ .observe c) → (a.perform now d).2 = []) := by
  have hidle : a.stage ≠ .idle := by rw [ho]; exact nofun
  -- Every deed but a registration does nothing at all.
  have quiet : ∀ {r : Action τ π ρ × List (Note τ ρ)}, r.1 = a → r.2 = [] →
      r.1 = a ∧ (∀ note ∈ r.2, note.Agrees o) ∧ ((∀ c, d ≠ .observe c) → r.2 = []) :=
    fun hsame hnotes => ⟨hsame, by rw [hnotes]; exact nofun, fun _ => hnotes⟩
  cases d with
  | nothing => exact quiet rfl rfl
  | start p =>
    obtain ⟨hsame, hnotes⟩ := start_of_not_idle now p hidle
    exact quiet hsame hnotes
  | startUnattended p =>
    obtain ⟨hsame, hnotes⟩ := startUnattended_of_not_idle now p hidle
    exact quiet hsame hnotes
  | complete o' =>
    rw [Action.perform, complete_of_not_running now o' (by rw [ho]; exact nofun)]
    exact quiet rfl rfl
  | observe c =>
    obtain ⟨hsame, htold⟩ := observe_finished now c ho h.isNotifying
    exact ⟨hsame, htold.agrees, fun hd => absurd rfl (hd c)⟩

end Action

/-- What is seen when a move is made with an action that has finished: what a callback is told that
    is registered. -/
def Move.echo [DecidableEq π] (now : Nat) (a : Action τ π ρ) :
    Move τ π κ ω → List (Note τ ρ)
  | .observe c => (a.observe now c).2
  | _ => []

/-! ## One instant -/

/-- The states through which a machine goes that makes moves until there is none. -/
def Timed.trail {κ : Type} (move : κ → Option κ) : (most : Nat) → κ → List κ
  | 0, k => [k]
  | most + 1, k =>
    match move k with
    | some k' => k :: trail move most k'
    | none => [k]

/-- What the moves along the trail preserve holds at its end. -/
theorem Timed.exhaust_of_trail {κ : Type} {P : κ → Prop} {move : κ → Option κ} {most : Nat} {k : κ}
    (step : ∀ s ∈ trail move most k, ∀ t, move s = some t → P s → P t) (h : P k) :
    P (exhaust move most k) := by
  induction most generalizing k with
  | zero => exact h
  | succ most ih =>
    unfold exhaust
    split
    · next k' hk =>
      -- The trail begins with `k` and goes on as the trail of what the first move makes of it.
      have htrail : trail move (most + 1) k = k :: trail move most k' := by
        rw [trail, hk]
      refine ih (fun s hs => step s (htrail ▸ List.mem_cons_of_mem _ hs)) ?_
      exact step k (htrail ▸ List.mem_cons_self) k' hk h
    · exact h

namespace Roster

variable [DecidableEq π] [Host κ ω ρ] {r s : Roster τ π ρ κ} {j k : Job τ π ρ} {a : Action τ π ρ}
  {now : Nat}

/-- The rosters at which the runners look at an instant, one after the other. -/
def looks (now : Nat) (r : Roster τ π ρ κ) : List (Roster τ π ρ κ) :=
  let s := r.ripened now
  let t := (s.closeAll now (s.verdicts now)).goOn now
  r :: s :: Timed.trail (turn now) t.openCount t

/-- How one roster has come about from another one in the course of an instant: nothing has been
    done to the only action, or its runner has found a verdict at one of some looks and completed
    it. -/
inductive Closing (looked : Roster τ π ρ κ → Prop) (now : Nat) (r : Roster τ π ρ κ)
    (a : Action τ π ρ) (s : Roster τ π ρ κ) : Prop
  | rest (k : Job τ π ρ) (jobs : s.jobs = [k]) (action : k.action = a) (log : s.log = r.log)
  | verdict (k : Job τ π ρ) (o : Outcome ρ) (v : Roster τ π ρ κ) (l : Job τ π ρ)
      (running : a.stage = .running) (look : looked v) (looking : v.jobs = [l])
      (same : l.action = a)
      (found : l.verdict? now ((Host.ended? v.host 0).map Ended.ending) = some o)
      (jobs : s.jobs = [k]) (action : k.action = (a.complete now o).1)
      (log : s.log = r.log ++ (a.complete now o).2.1.map fun x => (now, x))

/-- Only the action and what was seen of it matter. -/
private theorem Closing.congr {looked : Roster τ π ρ κ → Prop} {a : Action τ π ρ}
    {t : Roster τ π ρ κ} (h : Closing looked now r a s)
    (jobs : ∀ k, s.jobs = [k] → ∃ l, t.jobs = [l] ∧ l.action = k.action) (log : t.log = s.log) :
    Closing looked now r a t := by
  cases h with
  | rest k hk action hlog =>
    obtain ⟨l, hl, hla⟩ := jobs k hk
    exact .rest l hl (hla.trans action) (log.trans hlog)
  | verdict k o v l running look looking same found hk action hlog =>
    obtain ⟨k', hk', hka⟩ := jobs k hk
    exact .verdict k' o v l running look looking same found hk' (hka.trans action)
      (log.trans hlog)

omit [DecidableEq π] in
/-- A roster with one job has at most one verdict. -/
theorem verdicts_singleton (h : r.jobs = [j]) :
    r.verdicts now =
      (j.verdict? now ((Host.ended? r.host 0).map Ended.ending)).toList.map fun o => (0, j, o) := by
  cases hv : j.verdict? now ((Host.ended? r.host 0).map Ended.ending) <;>
    simp [verdicts, h, hv]

/-- When the runners give some of the verdicts that they have found, the only action is completed,
    or nothing is done to it. -/
private theorem Closing.closeAll {looked : Roster τ π ρ κ → Prop} {a : Action τ π ρ}
    {vs : List (Nat × Job τ π ρ × Outcome ρ)} (h : Closing looked now r a s) (look : looked s)
    (hvs : vs.Sublist (s.verdicts now)) :
    Closing looked now r a (s.closeAll now vs) := by
  obtain ⟨k, hk⟩ : ∃ k, s.jobs = [k] := by
    cases h with
    | rest k jobs | verdict k _ _ _ _ _ _ _ _ jobs => exact ⟨k, jobs⟩
  rw [verdicts_singleton hk] at hvs
  cases hv : k.verdict? now ((Host.ended? s.host 0).map Ended.ending) with
  | none =>
    rw [hv, Option.toList_none, List.map_nil, List.sublist_nil] at hvs
    rw [hvs]
    exact h
  | some o =>
    rw [hv, Option.toList_some, List.map_singleton, List.sublist_singleton] at hvs
    rcases hvs with rfl | rfl
    · exact h
    -- The runner closes the job; that matters only if the action runs.
    have hjobs : (s.closeAll now [(0, k, o)]).jobs =
        [{ action := (k.action.complete now o).1, runner := .closed }] := by
      simp [Roster.closeAll, Roster.close, record, hk]
    have hlog : (s.closeAll now [(0, k, o)]).log =
        s.log ++ (k.action.complete now o).2.1.map fun x => (now, x) := rfl
    cases h with
    | rest k' jobs action log =>
      obtain rfl := List.singleton_inj.mp (jobs.symm.trans hk)
      by_cases hrunning : a.stage = .running
      · rw [action] at hjobs hlog
        exact .verdict _ o s k' hrunning look hk action hv hjobs rfl (by rw [hlog, log])
      · rw [action, Action.complete_of_not_running now o hrunning] at hjobs hlog
        exact .rest _ hjobs rfl (by rw [hlog, log, List.map_nil, List.append_nil])
    | verdict k' o' v l running hlook looking same found jobs action log =>
      obtain rfl := List.singleton_inj.mp (jobs.symm.trans hk)
      have hfinished : k'.action.stage ≠ .running := by
        rw [action, (Action.complete_running now o' running).1]
        simp
      rw [Action.complete_of_not_running now o hfinished] at hjobs hlog
      exact .verdict _ o' v l running hlook looking same found hjobs action
        (by rw [hlog, log, List.map_nil, List.append_nil])

/-- When a roster settles, nothing is done to its only action, or its runner has found a verdict at
    one of its looks and completed it. -/
theorem settle_cases (h : r.jobs = [j]) (now : Nat) :
    Closing (· ∈ r.looks now) now r j.action (r.settle now) := by
  have goOn : ∀ s, Closing (· ∈ r.looks now) now r j.action s →
      Closing (· ∈ r.looks now) now r j.action (s.goOn now) := by
    intro s hs
    refine hs.congr (fun k hk => ?_) rfl
    let watched : Job τ π ρ :=
      { k with runner := k.runner.activate (Host.due? (Timed.settle now s.host) 0).isSome }
    exact ⟨watched, by simp [Roster.goOn, hk, watched], rfl⟩
  -- First come the early verdicts, then those at the end of the waits, then any number of turns.
  have hearly : Closing (· ∈ r.looks now) now r j.action (r.ripened now) := by
    have hfirst : Closing (· ∈ r.looks now) now r j.action
        (r.closeAll now (r.earlyVerdicts now)) :=
      Closing.closeAll (.rest j h rfl rfl) List.mem_cons_self List.filter_sublist
    exact hfirst.congr (fun k hk => ⟨k, hk, rfl⟩) rfl
  have hripe := goOn _ (hearly.closeAll (List.mem_cons_of_mem _ List.mem_cons_self)
    (List.Sublist.refl _))
  refine Timed.exhaust_of_trail (fun s hs t ht hclosing => ?_) hripe
  unfold turn at ht
  split at ht
  · cases ht
  · obtain rfl := Option.some.inj ht
    have hlook : s ∈ r.looks now := List.mem_cons_of_mem _ (List.mem_cons_of_mem _ hs)
    exact goOn _ (hclosing.closeAll hlook (List.Sublist.refl _))

/-! ## The deed of a move -/

/-- What a move does to the only action of a roster.  If the action runs when the roster settles and
    has finished then, its runner has completed it. -/
def deed (now : Nat) (m : Move τ π κ ω) (r : Roster τ π ρ (Recorder κ ω)) : Deed τ π ρ :=
  match m with
  | .start p _ | .run p _ | .startOrJoin p _ => .start p
  | .startUnattended p => .startUnattended p
  | .cancel => .complete .cancelled
  | .observe c => .observe c
  | .settle =>
    match r.stage?, (r.settle now).stage? with
    | some .running, some (.finished o) => .complete o
    | _, _ => .nothing
  | .wait | .result | .status | .evolve _ => .nothing

/-- Only the registration of a callback comes to one. -/
theorem eq_of_deed_eq_observe {r : Roster τ π ρ (Recorder κ ω)} {m : Move τ π κ ω}
    {c : Callback τ π} (h : r.deed now m = .observe c) : m = .observe c := by
  cases m with
  | observe c' => rw [Deed.observe.inj h]
  | settle =>
    simp only [deed] at h
    split at h <;> exact nomatch h
  | _ => exact nomatch h

/-- An action has been replaced by what a deed makes of it, and what could be seen was written
    down. -/
structure Does (now : Nat) (d : Deed τ π ρ) (a : Action τ π ρ) (r s : Roster τ π ρ κ) : Prop where
  jobs : ∃ k, s.jobs = [k] ∧ k.action = (a.perform now d).1
  log : s.log = r.log ++ (a.perform now d).2.map fun x => (now, x)

omit [Host κ ω ρ] in
/-- A deed that does not come to anything. -/
private theorem Does.rest {d : Deed τ π ρ} (h : r.jobs = [j])
    (hsame : (j.action.perform now d).1 = j.action) (hnotes : (j.action.perform now d).2 = []) :
    Does now d j.action r r :=
  ⟨⟨j, h, hsame.symm⟩, by rw [hnotes, List.map_nil, List.append_nil]⟩

/-- A start of the roster is a start of its only action. -/
private theorem does_start (h : r.jobs = [j]) (now : Nat) (p : π) (request : ω) :
    Does now (.start p) j.action r (r.start now 0 p request).1 := by
  -- Only an idle action is started; otherwise nothing happens, to the runner neither.
  by_cases hs : j.action.stage = .idle
  · let x := j.action.start now p
    let started : Job τ π ρ :=
      { action := x.1, runner := .fresh (x.1.deadline.map (now + ·)) }
    have hx := Action.start_idle now p hs
    refine ⟨⟨started, ?_, rfl⟩, ?_⟩
    · simp [Roster.start, h, hx, record, started, x]
    · simp [Roster.start, h, hx, record, Action.perform]
  · have hr : (r.start now 0 p request).1 = r := by
      cases hstage : j.action.stage with
      | idle => exact absurd hstage hs
      | running | finished => simp [Roster.start, h, Action.start, Action.tryStart, hstage]
    obtain ⟨hsame, hnotes⟩ := Action.start_of_not_idle now p hs
    exact hr.symm ▸ .rest h hsame hnotes

/-- A run of the roster is a start of its only action. -/
private theorem does_run (h : r.jobs = [j]) (now : Nat) (p : π) (request : ω) :
    Does now (.start p) j.action r (r.run now 0 p request).1 := by
  have hrun : (r.run now 0 p request).1 = (r.start now 0 p request).1 := by
    unfold Roster.run
    split <;> next hs => rw [hs]
  exact hrun ▸ does_start h now p request

/-- A start or join of the roster is a start of its only action. -/
private theorem does_startOrJoin (h : r.jobs = [j]) (now : Nat) (p : π) (request : ω) :
    Does now (.start p) j.action r (r.startOrJoin now 0 p request).1 := by
  have hj : r.action? 0 = some j.action := by simp [action?, h]
  simp only [Roster.startOrJoin, hj]
  cases hjoin : j.action.join? p with
  | none => exact does_run h now p request
  | some reply =>
    -- Only an action that runs can be joined, and a start does nothing to it.
    have hrunning : j.action.stage = .running := by
      refine (Action.isRunning_iff _).mp ?_
      by_contra hr
      simp [Action.join?, hr] at hjoin
    obtain ⟨hsame, hnotes⟩ := Action.start_of_not_idle now p (a := j.action)
      (by simp [hrunning])
    exact .rest h hsame hnotes

/-- When the roster settles, the runner may complete the action. -/
private theorem does_settle {r : Roster τ π ρ (Recorder κ ω)} (h : r.jobs = [j]) (now : Nat) :
    Does now (r.deed now .settle) j.action r (r.settle now) := by
  -- The deed of settling is read off the stages before and after it.
  cases settle_cases h now with
  | rest k jobs action log =>
    have hd : r.deed now .settle = .nothing := by
      unfold deed
      rw [stage?_eq h, stage?_eq jobs, action]
      cases j.action.stage <;> rfl
    rw [hd]
    exact ⟨⟨k, jobs, action⟩, by rw [log]; exact (List.append_nil _).symm⟩
  | verdict k o v l running look looking same found jobs action log =>
    have hd : r.deed now .settle = .complete o := by
      unfold deed
      rw [stage?_eq h, stage?_eq jobs, action, running, (Action.complete_running now o running).1]
    rw [hd]
    exact ⟨⟨k, jobs, action⟩, log⟩

/-- Every move comes to its deed, which makes of the action what it is after the move; what can be
    seen of the deed is what is written down. -/
theorem act_deed {r : Roster τ π ρ (Recorder κ ω)} (h : r.jobs = [j]) (now : Nat)
    (m : Move τ π κ ω) :
    Does now (r.deed now m) j.action r (r.act now m).1 := by
  have hj : r.jobs[0]? = some j := by rw [h]; rfl
  have hset : ∀ k, r.jobs.set 0 k = [k] := fun k => by rw [h]; rfl
  -- A start, a join and settling have their own lemmas; the others work on the action alone.
  cases m with
  | start p request => exact does_start h now p request
  | run p request => exact does_run h now p request
  | startOrJoin p request => exact does_startOrJoin h now p request
  | startUnattended p =>
    let k : Job τ π ρ := { j with action := (j.action.startUnattended now p).1 }
    refine ⟨⟨k, ?_, rfl⟩, ?_⟩
    · simp only [act, hj, hset, record, k]
    · simp only [act, hj, record]
      rfl
  | cancel =>
    let k : Job τ π ρ := { j with action := (j.action.complete now .cancelled).1 }
    refine ⟨⟨k, ?_, rfl⟩, ?_⟩
    · simp only [act, Roster.cancel, Action.cancel, hj, hset, record, k]
    · simp only [act, Roster.cancel, Action.cancel, hj, record]
      rfl
  | observe c =>
    let k : Job τ π ρ := { j with action := (j.action.observe now c).1 }
    refine ⟨⟨k, ?_, rfl⟩, ?_⟩
    · simp only [act, Roster.observe, hj, hset, record, k]
    · simp only [act, Roster.observe, hj, record]
      rfl
  | wait | result | status | evolve => exact ⟨⟨j, h, rfl⟩, (List.append_nil _).symm⟩
  | settle => exact does_settle h now

/-! ## Histories -/

/-- Moves are made one stretch after the other. -/
theorem play_append (xs ys : List (Nat × Move τ π κ ω)) (r : Roster τ π ρ (Recorder κ ω)) :
    play (xs ++ ys) r =
      ((play ys (play xs r).1).1, (play xs r).2 ++ (play ys (play xs r).1).2) := by
  induction xs generalizing r with
  | nil => rfl
  | cons x xs ih =>
    obtain ⟨now, m⟩ := x
    simp only [List.cons_append, play, ih, List.append_assoc]

/-- To play a single move is to make it. -/
theorem play_singleton (now : Nat) (m : Move τ π κ ω) (r : Roster τ π ρ (Recorder κ ω)) :
    play [(now, m)] r = r.act now m := by
  simp only [play, List.append_nil]

/-- A roster has one action, which is at rest. -/
structure Solo (r : Roster τ π ρ κ) (a : Action τ π ρ) : Prop where
  jobs : ∃ j, r.jobs = [j] ∧ j.action = a
  atRest : a.AtRest

omit [DecidableEq π] [Host κ ω ρ] in
/-- The status of the roster is that of its only action. -/
theorem status_eq (h : r.jobs = [j]) : r.status = j.action.status := by
  simp [Roster.status, action?, h]

omit [DecidableEq π] [Host κ ω ρ] in
/-- The only job has the only action. -/
theorem Solo.action_eq (h : Solo r a) (hj : r.jobs = [j]) : j.action = a := by
  obtain ⟨k, hk, rfl⟩ := h.jobs
  rw [List.singleton_inj.mp (hj.symm.trans hk)]

omit [DecidableEq π] [Host κ ω ρ] in
/-- The only action is the first one. -/
theorem Solo.action? (h : Solo r a) : r.action? 0 = some a := by
  obtain ⟨j, hj, rfl⟩ := h.jobs
  simp [Roster.action?, hj]

omit [DecidableEq π] [Host κ ω ρ] in
/-- The status of the roster is that of its only action. -/
theorem Solo.status (h : Solo r a) : r.status = a.status := by
  rw [Roster.status, h.action?, Option.map_some, Option.getD_some]

omit [DecidableEq π] [Host κ ω ρ] in
/-- The stage of the roster is that of its only action. -/
theorem Solo.stage? (h : Solo r a) : r.stage? = some a.stage := by
  rw [Roster.stage?, h.action?, Option.map_some]

omit [DecidableEq π] [Host κ ω ρ] in
/-- The result of the roster is the outcome of its only action. -/
theorem Solo.result?_eq_iff (h : Solo r a) (o : Outcome ρ) :
    r.result? = some (.ok o) ↔ a.stage = .finished o := by
  rw [Roster.result?, h.action?, Option.map_some, Option.some.injEq, Action.result_eq_ok_iff]

omit [DecidableEq π] [Host κ ω ρ] in
/-- A new roster has one action, at rest. -/
theorem solo_solo (subject : Subject) (label : String) (deadline : Option Nat)
    (isFollowed : Bool) (host : κ) :
    Solo (solo (τ := τ) (π := π) (ρ := ρ) (ω := ω) subject label deadline isFollowed host)
      { subject := subject, label := label, deadline := deadline, isFollowed := isFollowed } :=
  ⟨⟨_, rfl, rfl⟩, ⟨rfl, rfl, nofun⟩⟩

variable {r : Roster τ π ρ (Recorder κ ω)} {o : Outcome ρ}

/-- A move leaves one action, at rest, and writes down what its deed tells. -/
theorem Solo.act (h : Solo r a) (now : Nat) (m : Move τ π κ ω) :
    Solo (r.act now m).1 (a.perform now (r.deed now m)).1 ∧
      (r.act now m).1.log = r.log ++ (a.perform now (r.deed now m)).2.map fun x => (now, x) := by
  obtain ⟨j, hj, rfl⟩ := h.jobs
  obtain ⟨hjobs, hlog⟩ := act_deed hj now m
  exact ⟨⟨hjobs, h.atRest.perform now _⟩, hlog⟩

/-- Whatever is done with an action, it is there and at rest. -/
theorem Solo.play (h : Solo r a) (moves : List (Nat × Move τ π κ ω)) :
    ∃ b, Solo (r.play moves).1 b := by
  induction moves generalizing r a with
  | nil => exact ⟨a, h⟩
  | cons x moves ih => exact ih (h.act x.1 x.2).1

/-- A move with an action that has finished does not change it. -/
theorem Solo.act_finished (h : Solo r a) (ho : a.stage = .finished o) (now : Nat)
    (m : Move τ π κ ω) :
    Solo (r.act now m).1 a ∧
      (r.act now m).1.log = r.log ++ (m.echo now a).map fun x => (now, x) := by
  obtain ⟨hact, hlog⟩ := h.act now m
  obtain ⟨hsame, -, hquiet⟩ := h.atRest.perform_finished ho now (r.deed now m)
  -- All that is left to be heard is what an observer is told who comes too late.
  have hecho : (a.perform now (r.deed now m)).2 = m.echo now a := by
    cases m with
    | observe c => rfl
    | _ => exact hquiet fun c hc => nomatch eq_of_deed_eq_observe hc
  rw [hsame] at hact
  rw [hecho] at hlog
  exact ⟨hact, hlog⟩

/-- Whatever is done with an action that has finished, it stays as it is, and nothing is seen but
    what callbacks are told that are registered later. -/
theorem Solo.play_finished (h : Solo r a) (ho : a.stage = .finished o)
    (moves : List (Nat × Move τ π κ ω)) :
    Solo (r.play moves).1 a ∧
      (r.play moves).1.log =
        r.log ++ moves.flatMap fun m => (m.2.echo m.1 a).map fun x => (m.1, x) := by
  induction moves generalizing r with
  | nil => exact ⟨h, (List.append_nil _).symm⟩
  | cons x moves ih =>
    obtain ⟨hact, hlog⟩ := h.act_finished ho x.1 x.2
    obtain ⟨hplay, hrest⟩ := ih hact
    refine ⟨hplay, ?_⟩
    rw [List.flatMap_cons, ← List.append_assoc, ← hlog]
    exact hrest

end Roster

end Federation
