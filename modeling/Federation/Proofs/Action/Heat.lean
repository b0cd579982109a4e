import Federation.Proofs.Action.Joining
import Federation.Proofs.Action.Watch
import Federation.Proofs.Action.Cancellation
import Federation.Proofs.Call.Errand

/-!
# What decides how an action ends

Once an action has been started, three things may end it: its work, its deadline, and a
cancellation.  Here the work is an errand, so it may wait any number of times.  At every instant
either none of the three has come yet, or the first of them has decided.

## Key results

- `Wins.instant_eq`: one instant decides, the earliest
- `Heat.close`: what the runner finds is what has come first
- `Roster.Runs.settle`: so it is whenever the roster settles, and then nothing is left to be done
- `Roster.Runs.later`: time passes, and nothing has come yet
-/

namespace Federation

variable {τ π ρ κ ω σ : Type}

/-! ## The contenders -/

/-- How work that ends in some way makes the action end. -/
inductive Ending.Yields (label : String) : Ending ρ → Outcome ρ → Prop
  | value (v : ρ) : Yields label (.returned (.ok v)) (.succeeded v)
  | cancelled : Yields label (.returned (.error .cancelled)) .cancelled
  | fault (f : Fault) (h : f ≠ .cancelled) : Yields label (.returned (.error f)) (.failed f)
  | crash : Yields label .crashed
      (.failed (.internal s!"{label} panicked before producing a result"))

/-- An ending yields the outcome that the runner makes of it. -/
theorem Ending.yields_outcome (label : String) (e : Ending ρ) :
    Ending.Yields label e (Job.outcome label e) := by
  rcases e with (f | v) | _
  -- A call that reports its own cancellation counts as cancelled and not as failed.
  · by_cases h : f = .cancelled
    · subst h
      exact .cancelled
    · have failed : Outcome.ofExcept (.error f : Except Fault ρ) = .failed f := by
        unfold Outcome.ofExcept
        split <;> simp_all
      rw [Job.outcome, failed]
      exact .fault f h
  · exact .value v
  · exact .crash

/-- The work of an action began at an instant, and it was cancelled at others.  If nothing comes
    before, the action ends at this instant with this outcome. -/
inductive Contender (label : String) (deadline : Option Nat) (w : Errand σ ρ) (start : Nat)
    (cancels : List Nat) : Nat → Outcome ρ → Prop
  | work {u : Nat} {e : Ending ρ} {o : Outcome ρ} (ends : w.Ends start w.state u e)
      (yields : e.Yields label o) : Contender label deadline w start cancels u o
  | deadline {d : Nat} (limit : deadline = some d) :
      Contender label deadline w start cancels (start + d)
        (.failed (.timeout label (.ofMillis d)))
  | cancel {u : Nat} (mem : u ∈ cancels) : Contender label deadline w start cancels u .cancelled

/-- What decides comes first. -/
structure Wins (label : String) (deadline : Option Nat) (w : Errand σ ρ) (start : Nat)
    (cancels : List Nat) (u : Nat) (o : Outcome ρ) : Prop where
  comes : Contender label deadline w start cancels u o
  first : ∀ v p, Contender label deadline w start cancels v p → u ≤ v

variable {label : String} {deadline : Option Nat} {w : Errand σ ρ} {start now t : Nat}
  {cancels : List Nat} {u v : Nat} {o p : Outcome ρ}

/-- There is one instant that decides. -/
theorem Wins.instant_eq (h : Wins label deadline w start cancels u o)
    (h' : Wins label deadline w start cancels v p) : v = u :=
  Nat.le_antisymm (h'.first u o h.comes) (h.first v p h'.comes)

/-- One more cancellation is one more contender. -/
theorem contender_append_iff :
    Contender label deadline w start (cancels ++ [now]) v p ↔
      Contender label deadline w start cancels v p ∨ v = now ∧ p = .cancelled := by
  constructor
  · intro h
    cases h with
    | work ends yields => exact .inl (.work ends yields)
    | deadline limit => exact .inl (.deadline limit)
    | cancel mem =>
      -- The cancellation is one of the earlier ones or the new one.
      rcases List.mem_append.mp mem with mem | mem
      · exact .inl (.cancel mem)
      · exact .inr ⟨List.mem_singleton.mp mem, rfl⟩
  · rintro (h | ⟨rfl, rfl⟩)
    · cases h with
      | work ends yields => exact .work ends yields
      | deadline limit => exact .deadline limit
      | cancel mem => exact .cancel (List.mem_append_left _ mem)
    · exact .cancel (List.mem_append_right _ List.mem_cons_self)

/-- A later cancellation does not change what has decided. -/
theorem Wins.append (h : Wins label deadline w start cancels u o) (le : u ≤ now) :
    Wins label deadline w start (cancels ++ [now]) u o where
  comes := contender_append_iff.mpr (.inl h.comes)
  first v p comes := by
    rcases contender_append_iff.mp comes with comes | ⟨rfl, -⟩
    · exact h.first v p comes
    · exact le

/-! ## One job -/

/-- What is known of a job and its work at an instant, in the midst of things: nothing has come yet;
    the action was cancelled just now, and the runner is yet to find out; or something has
    decided. -/
inductive Heat (label : String) (deadline : Option Nat) (w : Errand σ ρ) (start : Nat)
    (cancels : List Nat) (now : Nat) (j : Job τ π ρ) (k : Errands σ ρ) : Prop
  | running (stage : j.action.stage = .running) (isOpen : j.runner.isOpen = true)
      (due : j.runner.due? = deadline.map (start + ·))
      (terms : j.action.label = label ∧ j.action.deadline = deadline) (none : cancels = [])
      (ahead : ∀ d, deadline = some d → now ≤ start + d) (way : Errands.Underway w start now k)
  | stopped (stage : j.action.stage = .finished .cancelled)
      (finishedAt : j.action.finishedAt = some now) (isOpen : j.runner.isOpen = true)
      (wins : Wins label deadline w start cancels now .cancelled)
      (way : Errands.Underway w start now k)
  | decided (u : Nat) (o : Outcome ρ) (stage : j.action.stage = .finished o)
      (finishedAt : j.action.finishedAt = some u) (closed : j.runner = .closed)
      (wins : Wins label deadline w start cancels u o) (le : u ≤ now) (calls : k.calls = [])
      (steps : ∀ i ∈ k.steps, i.2 ≤ u)

/-- The action runs, its work has not ended, and there is time left. -/
structure Job.Waits (now : Nat) (j : Job τ π ρ) (k : Errands σ ρ) : Prop where
  stage : j.action.stage = .running
  lasting : Host.ended? k 0 = none
  ahead : ∀ t, j.runner.due? = some t → now < t

variable {j : Job τ π ρ} {k : Errands σ ρ}

/-- As long as nothing has come, nothing was due to come. -/
private theorem le_of_contender (ahead : ∀ d, deadline = some d → now ≤ start + d)
    (way : Errands.Underway w start now k)
    (comes : Contender label deadline w start [] v p) : now ≤ v := by
  cases comes with
  | work ends => exact way.le_of_ends ends
  | deadline limit => exact ahead _ limit
  | cancel mem => exact absurd mem List.not_mem_nil

namespace Heat

/-- A heat goes on when the host ripens. -/
theorem ripen (h : Heat label deadline w start cancels now j k) :
    Heat label deadline w start cancels now j (Host.ripen now k) := by
  cases h with
  | running stage isOpen due terms none ahead way =>
    exact .running stage isOpen due terms none ahead way.ripen
  | stopped stage finishedAt isOpen wins way => exact .stopped stage finishedAt isOpen wins way.ripen
  | decided u o stage finishedAt closed wins le calls steps =>
    rw [Errands.ripen_of_calls calls]
    exact .decided u o stage finishedAt closed wins le calls steps

/-- The host goes on, and the runner begins to watch. -/
theorem goOn (h : Heat label deadline w start cancels now j k) (isPrompt : Bool) :
    Heat label deadline w start cancels now { j with runner := j.runner.activate isPrompt }
        (Timed.settle now k) ∧
      Errands.Rests now (Timed.settle now k) := by
  -- Only while the work is under way does the host have anything to do.
  cases h with
  | running stage isOpen due terms none ahead way =>
    refine ⟨.running stage ?_ ?_ terms none ahead way.settle.1, way.settle.2⟩
    · exact (Roster.isOpen_activate isPrompt _).trans isOpen
    · exact (Roster.due?_activate isPrompt _).trans due
  | stopped stage finishedAt isOpen wins way =>
    refine ⟨.stopped stage finishedAt ?_ wins way.settle.1, way.settle.2⟩
    exact (Roster.isOpen_activate isPrompt _).trans isOpen
  | decided u o stage finishedAt closed wins le calls steps =>
    have none : Errands.Rests now k := fun c mem => absurd (calls ▸ mem) List.not_mem_nil
    rw [Errands.settle_of_calls calls]
    exact ⟨.decided u o stage finishedAt (by rw [closed]; rfl) wins le calls steps, none⟩

variable [DecidableEq π]

/-- What the runner finds is what has come first, and then it gives the work up. -/
theorem close (h : Heat label deadline w start cancels now j k)
    (found : j.verdict? now ((Host.ended? k 0).map Ended.ending) = some o) :
    Heat label deadline w start cancels now
      { action := (j.action.complete now o).1, runner := .closed } (Host.abort 0 k) := by
  -- A decided job has no verdict left; a stopped one is only given up; so the running one matters.
  cases h with
  | decided u o' stage finishedAt closed => simp [Job.verdict?, closed, Runner.isActive] at found
  | stopped stage finishedAt isOpen wins way =>
    rw [Action.complete_of_not_running now o (by simp [stage])]
    exact .decided now .cancelled stage finishedAt rfl wins (Nat.le_refl now) way.abort way.steps_le
  | running stage isOpen due terms none ahead way =>
    subst none
    have finished := (Action.complete_running now o stage).1
    refine .decided now o (by rw [finished]) (by rw [finished]) rfl
      ⟨?_, fun v p => le_of_contender ahead way⟩ (Nat.le_refl now) way.abort way.steps_le
    -- It is the work that has ended, or the deadline that is passed.
    rcases Job.verdict?_cases stage found with ⟨e, ended, rfl⟩ | ⟨isDue, rfl⟩
    · obtain ⟨x, hx, rfl⟩ := Option.map_eq_some_iff.mp ended
      rw [terms.1]
      exact .work (way.ends_of_ended? hx) (Ending.yields_outcome _ _)
    · -- The deadline is not passed yet, so it is now.
      rw [due] at isDue
      obtain ⟨t, ht, le⟩ := Timed.isDue_iff.mp isDue
      obtain ⟨d, hd, rfl⟩ := Option.map_eq_some_iff.mp ht
      obtain rfl : start + d = now := Nat.le_antisymm le (ahead d hd)
      have overdue : Job.overdue j.action = .failed (.timeout label (.ofMillis d)) := by
        rw [Job.overdue, terms.1, terms.2, hd, Option.getD_some]
      rw [overdue]
      exact .deadline hd

omit [DecidableEq π] in
/-- Time passes, and neither the deadline nor the next step of the work is passed over. -/
theorem later (h : Heat label deadline w start cancels now j k)
    (waits : j.runner.isOpen = true → j.Waits now k) (rests : Errands.Rests now k) (le : now ≤ t)
    (runner : ∀ u, j.runner.due? = some u → t ≤ u) (host : ∀ u, Timed.next? k = some u → t ≤ u) :
    Heat label deadline w start cancels t j k := by
  cases h with
  | running stage isOpen due terms none ahead way =>
    -- The deadline is still ahead because nothing is due at the runner before `t`.
    refine .running stage isOpen due terms none (fun d limit => runner _ ?_)
      (way.later (waits isOpen).lasting rests le host)
    rw [due, limit]
    rfl
  | stopped stage finishedAt isOpen => cases stage.symm.trans (waits isOpen).stage
  | decided u o stage finishedAt closed wins le' calls steps =>
    exact .decided u o stage finishedAt closed wins (Nat.le_trans le' le) calls steps

omit [DecidableEq π] in
/-- What is done with an action changes neither its outcome nor what its runner looks at. -/
theorem revise {b : Action τ π ρ} (h : Heat label deadline w start cancels now j k)
    (stage : b.stage = j.action.stage) (finishedAt : b.finishedAt = j.action.finishedAt)
    (terms : b.label = j.action.label ∧ b.deadline = j.action.deadline) :
    Heat label deadline w start cancels now { j with action := b } k := by
  cases h with
  | running stage' isOpen due terms' none ahead way =>
    exact .running (stage.trans stage') isOpen due
      ⟨terms.1.trans terms'.1, terms.2.trans terms'.2⟩ none ahead way
  | stopped stage' finishedAt' isOpen wins way =>
    exact .stopped (stage.trans stage') (finishedAt.trans finishedAt') isOpen wins way
  | decided u o stage' finishedAt' closed wins le calls steps =>
    exact .decided u o (stage.trans stage') (finishedAt.trans finishedAt') closed wins le calls steps

/-- When the action is cancelled, that decides, unless something has decided before. -/
theorem cancel (h : Heat label deadline w start cancels now j k) :
    Heat label deadline w start (cancels ++ [now]) now
      { j with action := (j.action.complete now .cancelled).1 } k := by
  cases h with
  | running stage isOpen due terms none ahead way =>
    subst none
    have finished := (Action.complete_running now .cancelled stage).1
    refine .stopped (by rw [finished]) (by rw [finished]) isOpen ⟨?_, fun v p comes => ?_⟩ way
    · exact .cancel List.mem_cons_self
    -- Nothing has come before now, so the cancellation is first.
    · rcases contender_append_iff.mp comes with comes | ⟨rfl, -⟩
      · exact le_of_contender ahead way comes
      · exact Nat.le_refl v
  | stopped stage finishedAt isOpen wins way =>
    rw [Action.complete_of_not_running now .cancelled (by simp [stage])]
    exact .stopped stage finishedAt isOpen (wins.append (Nat.le_refl now)) way
  | decided u o stage finishedAt closed wins le calls steps =>
    rw [Action.complete_of_not_running now .cancelled (by simp [stage])]
    exact .decided u o stage finishedAt closed (wins.append le) le calls steps

/-- A callback changes nothing that the runner looks at. -/
theorem observe (h : Heat label deadline w start cancels now j k) (rest : j.action.AtRest)
    (c : Callback τ π) :
    Heat label deadline w start cancels now
      { j with action := (j.action.observe now c).1 } k := by
  cases stage : j.action.stage.outcome? with
  | none =>
    rw [Action.observe_of_not_finished now c (Stage.ne_finished_of_outcome? stage)]
    exact h.revise rfl rfl ⟨rfl, rfl⟩
  | some o =>
    have finished := Stage.outcome?_eq_some_iff.mp stage
    rw [(Action.observe_finished now c finished rest.isNotifying).1]
    exact h.revise rfl rfl ⟨rfl, rfl⟩

omit [DecidableEq π] in
/-- An action in a heat has been started. -/
theorem stage_ne_idle (h : Heat label deadline w start cancels now j k) :
    j.action.stage ≠ .idle := by
  cases h with
  | running stage | stopped stage | decided _ _ stage => simp [stage]

omit [DecidableEq π] in
/-- When a job waits, either nothing has come, or something has decided. -/
theorem of_waits (h : Heat label deadline w start cancels now j k)
    (waits : j.runner.isOpen = true → j.Waits now k) (rests : Errands.Rests now k) :
    (j.action.stage = .running ∧
      ∀ v p, Contender label deadline w start cancels v p → now < v) ∨
    ∃ u o, j.action.stage = .finished o ∧ j.action.finishedAt = some u ∧ u ≤ now ∧
      Wins label deadline w start cancels u o ∧ ∀ i ∈ k.steps, i.2 ≤ u := by
  cases h with
  | running stage isOpen due terms none ahead way =>
    subst none
    refine .inl ⟨stage, fun v p comes => ?_⟩
    have waits := waits isOpen
    -- None of the contenders has come yet: the work still waits, and so does the deadline.
    cases comes with
    | work ends => exact way.lt_of_ends waits.lasting rests ends
    | deadline limit => exact waits.ahead _ (by rw [due, limit]; rfl)
    | cancel mem => exact absurd mem List.not_mem_nil
  | stopped stage finishedAt isOpen => cases stage.symm.trans (waits isOpen).stage
  | decided u o stage finishedAt closed wins le calls steps =>
    exact .inr ⟨u, o, stage, finishedAt, le, wins, steps⟩

end Heat

/-! ## A roster -/

namespace Roster

/-- A roster whose only action is an errand. -/
abbrev Track (τ π ρ σ : Type) : Type := Roster τ π ρ (Recorder (Errands σ ρ) (Errand σ ρ))

/-- The only action of a roster is in the race. -/
def Runs (label : String) (deadline : Option Nat) (w : Errand σ ρ) (start : Nat)
    (cancels : List Nat) (now : Nat) (r : Track τ π ρ σ) : Prop :=
  ∃ j, r.jobs = [j] ∧ Heat label deadline w start cancels now j r.host.host

/-- The host has gone on: the runner watches over the work, if it is open at all, and the work waits
    for longer. -/
structure Calm (now : Nat) (r : Track τ π ρ σ) : Prop where
  active : ∀ j ∈ r.jobs, j.runner.isOpen = true → j.runner.isActive = true
  rests : Errands.Rests now r.host.host

/-- Everything has happened at an instant. -/
structure Rested (now : Nat) (r : Track τ π ρ σ) : Prop extends Calm now r where
  silent : r.verdicts now = []

variable [DecidableEq π] {r : Track τ π ρ σ}

/-- The runner gives its verdict, and the work is given up. -/
private theorem close_eq (jobs : r.jobs = [j]) (now : Nat) (o : Outcome ρ) :
    (r.closeAll now [(0, j, o)]).jobs =
        [{ action := (j.action.complete now o).1, runner := .closed }] ∧
      (r.closeAll now [(0, j, o)]).host.host = Host.abort 0 r.host.host := by
  constructor
  · simp [Roster.closeAll, Roster.close, record, jobs]
  · rfl

/-- The run goes on when some of the verdicts found are carried out. -/
theorem Runs.closeAll {vs : List (Nat × Job τ π ρ × Outcome ρ)}
    (h : Runs label deadline w start cancels now r) (hvs : vs.Sublist (r.verdicts now)) :
    Runs label deadline w start cancels now (r.closeAll now vs) := by
  obtain ⟨j, jobs, heat⟩ := h
  -- There is at most one verdict; if none is given, nothing happens.
  rw [verdicts_singleton jobs] at hvs
  cases found : j.verdict? now ((Host.ended? r.host 0).map Ended.ending) with
  | none =>
    rw [found, Option.toList_none, List.map_nil, List.sublist_nil] at hvs
    exact hvs ▸ ⟨j, jobs, heat⟩
  | some o =>
    rw [found, Option.toList_some, List.map_singleton, List.sublist_singleton] at hvs
    rcases hvs with rfl | rfl
    · exact ⟨j, jobs, heat⟩
    · obtain ⟨jobs', host⟩ := close_eq jobs now o
      exact ⟨_, jobs', host ▸ heat.close found⟩

omit [DecidableEq π] in
/-- The run goes on when the host does, and then nothing is left to do at the instant. -/
theorem Runs.goOn (h : Runs label deadline w start cancels now r) :
    Runs label deadline w start cancels now (r.goOn now) ∧ Calm now (r.goOn now) := by
  obtain ⟨j, jobs, heat⟩ := h
  let isPrompt := (Host.due? (Timed.settle now r.host) 0).isSome
  have jobs' : (r.goOn now).jobs = [{ j with runner := j.runner.activate isPrompt }] := by
    rw [Roster.goOn, jobs]
    rfl
  obtain ⟨heat', rests⟩ := heat.goOn isPrompt
  refine ⟨⟨_, jobs', heat'⟩, fun i mem isOpen => ?_, rests⟩
  rw [jobs'] at mem
  obtain rfl := List.mem_singleton.mp mem
  cases runner : j.runner <;> simp_all [Runner.activate, Runner.isOpen, Runner.isActive]

/-- When the roster settles, whatever comes at that instant decides, and then nothing is left to be
    done. -/
theorem Runs.settle (h : Runs label deadline w start cancels now r) :
    Runs label deadline w start cancels now (r.settle now) ∧ Rested now (r.settle now) := by
  have ripened : Runs label deadline w start cancels now (r.ripened now) := by
    obtain ⟨j, jobs, heat⟩ := h.closeAll (List.filter_sublist (p := fun v => v.2.1.runner.overtakes))
    exact ⟨j, jobs, heat.ripen⟩
  have lower : ∀ s : Track τ π ρ σ, Runs label deadline w start cancels now s →
      s.verdicts now ≠ [] →
      ((s.closeAll now (s.verdicts now)).goOn now).openCount < s.openCount := by
    -- The verdict closes the only runner that there is.
    rintro s ⟨j, jobs, -⟩ given
    rw [verdicts_singleton jobs] at given ⊢
    cases found : j.verdict? now ((Host.ended? s.host 0).map Ended.ending) with
    | none => rw [found] at given; exact absurd rfl given
    | some o =>
      have closed := (close_eq jobs now o).1
      have active : j.runner.isActive = true :=
        isActive_of_mem_verdicts (mem_verdicts.mpr ⟨by rw [jobs]; rfl, found⟩)
      have before : s.openCount = 1 := by
        rw [openCount, jobs, List.countP_singleton, if_pos (isOpen_of_isActive active)]
      have after : ((s.closeAll now [(0, j, o)]).goOn now).openCount = 0 := by
        rw [openCount, Roster.goOn, closed]
        rfl
      show ((s.closeAll now [(0, j, o)]).goOn now).openCount < s.openCount
      omega
  obtain ⟨runs, calm, silent⟩ := settle_rests (Q := Calm now)
    (fun s hs => hs.closeAll (List.Sublist.refl _)) (fun s hs => hs.goOn) lower ripened
  exact ⟨runs, calm, silent⟩

omit [DecidableEq π] in
/-- A runner that is open when everything has happened waits for the work and has time left. -/
theorem Rested.waits (h : Rested now r) (jobs : r.jobs = [j]) (isOpen : j.runner.isOpen = true) :
    j.Waits now r.host.host := by
  have active := h.active j (by rw [jobs]; exact List.mem_cons_self) isOpen
  obtain ⟨stage, lasting, ahead⟩ :=
    waits_of_verdicts_eq_nil h.silent (i := 0) (by rw [jobs]; rfl) active
  exact ⟨stage, lasting, ahead⟩

/-- When everything has happened at an instant, what is due next is due later. -/
theorem Rested.lt_next (h : Rested now r) (jobs : r.jobs = [j])
    (next : Timed.next? r = some u) : now < u := by
  rcases Timed.earlier_eq_some next with host | runner
  · exact h.rests.lt_next host
  · obtain ⟨k, mem, due⟩ := List.mem_map.mp (Timed.mem_of_earliest runner)
    rw [jobs] at mem
    obtain rfl := List.mem_singleton.mp mem
    exact (h.waits jobs (isOpen_of_due? due)).ahead u due

/-- Time passes until something is due, and nothing has come yet. -/
theorem Runs.later (h : Runs label deadline w start cancels now r) (rested : Rested now r)
    (le : now ≤ t) (next : ∀ u, Timed.next? r = some u → t ≤ u) :
    Runs label deadline w start cancels t r := by
  obtain ⟨j, jobs, heat⟩ := h
  refine ⟨j, jobs, heat.later (rested.waits jobs) rested.rests le (fun u due => ?_) fun u due => ?_⟩
  -- What is due at the runner or in the host is due at the roster, so it is not before `t`.
  · have mem : some u ∈ r.jobs.map fun j => j.runner.due? := by simp [jobs, due]
    obtain ⟨v, earliest, le⟩ := Timed.earliest_le mem
    obtain ⟨v', first, le'⟩ := Timed.earlier_le (a := Timed.next? r.host) (.inr earliest)
    have := next v' first
    omega
  · obtain ⟨v, first, le'⟩ := Timed.earlier_le
      (b := Timed.earliest (r.jobs.map fun j => j.runner.due?)) (.inl due)
    exact Nat.le_trans (next v first) le'

/-- The run goes on when the action is cancelled. -/
theorem Runs.cancel (h : Runs label deadline w start cancels now r) :
    Runs label deadline w start (cancels ++ [now]) now (r.cancel now 0).1 := by
  obtain ⟨j, jobs, heat⟩ := h
  refine ⟨{ j with action := (j.action.complete now .cancelled).1 }, ?_, ?_⟩
  · simp [Roster.cancel, Action.cancel, record, jobs]
  · simpa [Roster.cancel, record, jobs] using heat.cancel

/-- A callback that is registered does not concern the run. -/
theorem Runs.observe {a : Action τ π ρ} (h : Runs label deadline w start cancels now r)
    (solo : Solo r a) (c : Callback τ π) :
    Runs label deadline w start cancels now (r.observe now 0 c) := by
  obtain ⟨j, jobs, heat⟩ := h
  obtain rfl := solo.action_eq jobs
  refine ⟨{ j with action := (j.action.observe now c).1 }, ?_, ?_⟩
  · simp [Roster.observe, record, jobs]
  · simpa [Roster.observe, record, jobs] using heat.observe solo.atRest c

omit [DecidableEq π] in
/-- An action with a run has been started. -/
theorem Runs.stage_ne_idle {a : Action τ π ρ} (h : Runs label deadline w start cancels now r)
    (solo : Solo r a) : a.stage ≠ .idle := by
  obtain ⟨j, jobs, heat⟩ := h
  exact solo.action_eq jobs ▸ heat.stage_ne_idle

end Roster

end Federation
