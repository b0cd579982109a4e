import Federation.Proofs.Action.Watch

/-!
# What becomes of a job

A job that was started and that nobody cancels ends in one of two ways.  If its call ends before the
deadline, or at it, the action has the outcome of the call.  If the deadline comes first, the action
fails with a timeout, and the call never ends.

## Key results

- `Tracked.settle`: what becomes of a job at an instant
- `Tracked.moves`: what becomes of it as time goes on
- `Ready.launch`: a job that is launched is on its way
- `Ready.cancel`: a job may be cancelled at any time
- `Tracked.launch`, `Tracked.cancel`: nothing becomes of a job because of other jobs
- `Tracked.answer`: what a job amounts to in the end
-/

namespace Federation

variable {τ π ρ κ ω : Type}

/-- On what terms a job was started: the label of its action, its deadline, and the instant. -/
structure Terms where
  label : String
  deadline : Option Nat
  start : Nat

namespace Roster

open LawfulHost (IsSound Live Rests)

variable [Host κ ω ρ]

/-- What becomes of a job that was started on some terms and that nobody cancels. -/
inductive Tracked (c : Terms) (i now : Nat) (r : Roster τ π ρ κ) : Prop
  /-- The job is open. -/
  | running (j : Job τ π ρ) (job : r.jobs[i]? = some j) (isOpen : j.runner.isOpen = true)
      (due : j.runner.due? = c.deadline.map (c.start + ·)) (stage : j.action.stage = .running)
      (label : j.action.label = c.label) (deadline : j.action.deadline = c.deadline)
      (published : j.action.published = none) (since : c.start ≤ now)
  /-- The call ended in time. -/
  | answered (j : Job τ π ρ) (e : Ended ρ) (job : r.jobs[i]? = some j)
      (isOpen : j.runner.isOpen = false) (ended : Host.ended? r.host i = some e)
      (since : c.start ≤ e.instant) (inTime : ∀ d, c.deadline = some d → e.instant ≤ c.start + d)
      (published : j.action.published = some (Job.outcome c.label e.ending))
      (finishedAt : j.action.finishedAt = some e.instant)
  /-- The deadline came first. -/
  | overdue (j : Job τ π ρ) (d : Nat) (job : r.jobs[i]? = some j)
      (isOpen : j.runner.isOpen = false) (ended : Host.ended? r.host i = none)
      (deadline : c.deadline = some d)
      (published : j.action.published = some (.failed (.timeout c.label (.ofMillis d))))
      (finishedAt : j.action.finishedAt = some (c.start + d)) (passed : c.start + d ≤ now)

variable {c : Terms} {i now : Nat} {r r' : Roster τ π ρ κ}

/-- What becomes of a job stays true as time goes on. -/
theorem Tracked.mono {later : Nat} (h : Tracked c i now r) (hle : now ≤ later) :
    Tracked c i later r := by
  cases h with
  | running j job isOpen due stage label deadline published since =>
    exact .running j job isOpen due stage label deadline published (Nat.le_trans since hle)
  | answered j e job isOpen ended since inTime published finishedAt =>
    exact .answered j e job isOpen ended since inTime published finishedAt
  | overdue j d job isOpen ended deadline published finishedAt passed =>
    exact .overdue j d job isOpen ended deadline published finishedAt (Nat.le_trans passed hle)

/-- A tracked job is one of the roster. -/
theorem Tracked.lt_length (h : Tracked c i now r) : i < r.jobs.length := by
  cases h with
  | running _ hj | answered _ _ hj | overdue _ _ hj => exact (List.getElem?_eq_some_iff.mp hj).1

/-- Nothing becomes of a job whose action stays as it is. -/
theorem Tracked.congr (h : Tracked c i now r)
    (job : ∀ j, r.jobs[i]? = some j → ∃ x : Runner, r'.jobs[i]? = some { j with runner := x } ∧
      x.isOpen = j.runner.isOpen ∧ x.due? = j.runner.due?)
    (ended : ¬r.IsOpen i → Host.ended? r'.host i = Host.ended? r.host i) :
    Tracked c i now r' := by
  have hclosed : ∀ j : Job τ π ρ, r.jobs[i]? = some j → j.runner.isOpen = false → ¬r.IsOpen i := by
    rintro j hj hc ⟨k, hk, hopen⟩
    obtain rfl := Option.some.inj (hj.symm.trans hk)
    exact Bool.false_ne_true (hc.symm.trans hopen)
  -- The job is at the same point; only its runner may look different.
  cases h with
  | running j hj isOpen due stage label deadline published since =>
    obtain ⟨x, hx, hopen, hdue⟩ := job j hj
    exact .running _ hx (hopen.trans isOpen) (hdue.trans due) stage label deadline published since
  | answered j e hj isOpen hended since inTime published finishedAt =>
    obtain ⟨x, hx, hopen, -⟩ := job j hj
    exact .answered _ e hx (hopen.trans isOpen) ((ended (hclosed j hj isOpen)).trans hended) since
      inTime published finishedAt
  | overdue j d hj isOpen hended deadline published finishedAt passed =>
    obtain ⟨x, hx, hopen, -⟩ := job j hj
    exact .overdue _ d hx (hopen.trans isOpen) ((ended (hclosed j hj isOpen)).trans hended)
      deadline published finishedAt passed

/-! ## At an instant -/

variable [LawfulHost κ]

/-- A job stays tracked while the host does something. -/
theorem Tracked.runs {k : κ} (h : Tracked c i now r) (hr : Watched r)
    (hruns : Host.Runs Live now r.host k) : Tracked c i now { r with host := k } :=
  h.congr (fun j hj => ⟨j.runner, hj, rfl, rfl⟩) fun hi =>
    hruns.ended?_eq i (.inr fun hl => hi (hr.isOpen i hl))

omit [LawfulHost κ] in
/-- A job stays tracked when runners begin to watch. -/
theorem Tracked.activate (h : Tracked c i now r) (isPrompt : Nat → Bool) :
    Tracked c i now (r.activated isPrompt) := by
  refine h.congr (fun j hj => ?_) fun _ => rfl
  refine ⟨j.runner.activate (isPrompt i), ?_, isOpen_activate _ _, due?_activate _ _⟩
  rw [getElem?_jobs_activated, hj, Option.map_some]

variable [DecidableEq π]

/-- A job stays tracked when runners give their verdicts. -/
theorem Tracked.closeAll {vs : List (Nat × Job τ π ρ × Outcome ρ)} (h : Tracked c i now r)
    (hr : Mid now r) (hvs : List.Sublist vs (r.verdicts now)) :
    Tracked c i now (r.closeAll now vs) := by
  have hdistinct : (vs.map Prod.fst).Nodup := (nodup_verdicts now r).sublist (hvs.map _)
  obtain ⟨-, -, hended, -, -⟩ := LawfulHost.abortAll (vs.map Prod.fst) hr.sound
  simp only [← host_closeAll now vs r] at hended
  by_cases hi : i ∈ vs.map Prod.fst
  · obtain ⟨⟨x, j, o⟩, hv, rfl⟩ := List.mem_map.mp hi
    have hmem := hvs.subset hv
    obtain ⟨hj, hverdict⟩ := mem_verdicts.mp hmem
    have hactive := isActive_of_mem_verdicts hmem
    have hjob := getElem?_jobs_closeAll_of_mem now hdistinct hv (List.getElem?_eq_some_iff.mp hj).1
    cases h with
    | answered k _ hk isOpen | overdue k _ hk isOpen =>
      obtain rfl := Option.some.inj (hj.symm.trans hk)
      exact nomatch isOpen.symm.trans (isOpen_of_isActive hactive)
    | running k hk isOpen due stage label deadline _ since =>
      obtain rfl := Option.some.inj (hj.symm.trans hk)
      obtain ⟨ha, -, -⟩ := Action.complete_running now o stage
      rw [ha] at hjob
      have hrun : j.action.isRunning = true := (Action.isRunning_iff _).mpr stage
      have hahead : ∀ d, c.deadline = some d → now ≤ c.start + d := fun d hd =>
        hr.ahead j (List.mem_of_getElem? hj) _ (by rw [due, hd, Option.map_some])
      -- The runner has decided because the call has ended, or else because of the deadline.
      cases he : Host.ended? r.host x with
      | some e =>
        rw [he, Option.map_some, Job.verdict?_of_ended hactive hrun, Option.some.injEq] at hverdict
        -- The call was in progress before this instant, so it has ended now.
        obtain rfl : e.instant = now := by
          rcases hr.called x ⟨j, hj, isOpen⟩ with hl | ⟨e', he', hnow⟩
          · exact nomatch he.symm.trans (LawfulHost.ended?_of_live hr.sound hl)
          · exact Option.some.inj (he.symm.trans he') ▸ hnow
        refine .answered _ e hjob rfl ((hended x).trans he) since hahead ?_ rfl
        rw [← label, hverdict]
      | none =>
        have hdue : Timed.isDue j.runner.due? now = true ∧ Job.overdue j.action = o := by
          simpa [Job.verdict?, hactive, hrun, he] using hverdict
        obtain ⟨t, ht, hle⟩ := Timed.isDue_iff.mp hdue.1
        rw [due, Option.map_eq_some_iff] at ht
        obtain ⟨d, hd, rfl⟩ := ht
        have hnow : now = c.start + d := Nat.le_antisymm (hahead d hd) hle
        refine .overdue _ d hjob rfl ((hended x).trans he) hd ?_ (by rw [hnow])
          (Nat.le_of_eq hnow.symm)
        rw [← hdue.2, Job.overdue, label, deadline, hd]
        rfl
  · refine h.congr (fun j hj => ⟨j.runner, ?_, rfl, rfl⟩) fun _ => hended i
    rw [getElem?_jobs_closeAll_of_not_mem now hi]
    exact hj

/-- What becomes of a job when the roster settles. -/
theorem Tracked.settle (h : Tracked c i now r) (hr : Ready now r) :
    Tracked c i now (r.settle now) :=
  hr.settle_induction (fun _ _ hs hvs ht => ht.closeAll hs hvs)
    (fun _ _ hs hruns ht => ht.runs hs.toWatched hruns) (fun _ f ht => ht.activate f) h

/-- What becomes of a job as time goes on. -/
theorem Tracked.moves {u : Nat} (h : Tracked c i now r) (hr : Settled now r)
    (hm : Timed.Moves now r u r') : Tracked c i u r' := by
  induction hm with
  | refl => exact h
  | step next _ ih =>
    obtain ⟨hlt, hsettled, -⟩ := steady.next hr next
    refine ih (Tracked.settle (h.mono (Nat.le_of_lt hlt)) (hr.ready_of_eq next)) hsettled

/-! ## Calls of the user -/

omit [LawfulHost κ] [DecidableEq π] in
/-- A new action that is started is a job at the end of the roster, with a call of its own. -/
theorem launch_eq {a : Action τ π ρ} (now : Nat) (p : π) (request : ω) (r : Roster τ π ρ κ)
    (ha : a.stage = .idle) :
    ((r.add a).start now r.jobs.length p request).1 =
      { host := Host.submit r.jobs.length request r.host
        jobs := r.jobs ++
          [{ action := { a with stage := .running, latest := some p, startedAt := some now }
             runner := .fresh (a.deadline.map (now + ·)) }]
        log := r.log ++ (a.tell (.started a.subject)).map fun n => (now, n) } := by
  have hjob : (r.add a).jobs[r.jobs.length]? = some { action := a } := by
    simp [add]
  unfold Roster.start
  rw [hjob]
  let b : Action τ π ρ := { a with stage := .running, latest := some p, startedAt := some now }
  have hstart : a.start now p = (b, b.tell (.started b.subject), .ok .started) := by
    simp only [Action.start, Action.tryStart, ha, b]
  -- The new job stands behind the old ones, so setting it replaces the last one.
  simp only [hstart, record, add, List.set_append_right _ _ (Nat.le_refl _), Nat.sub_self,
    List.set_cons_zero]
  rfl

omit [LawfulHost κ] [DecidableEq π] [Host κ ω ρ] in
/-- A job of an enlarged list is an old one or the new one. -/
theorem getElem?_concat_cases {js : List (Job τ π ρ)} {k j : Job τ π ρ} {x : Nat}
    (h : (js ++ [k])[x]? = some j) : js[x]? = some j ∨ (x = js.length ∧ j = k) := by
  by_cases hx : x < js.length
  · rw [List.getElem?_append_left hx] at h
    exact .inl h
  · have hlt := (List.getElem?_eq_some_iff.mp h).1
    rw [List.length_append, List.length_singleton] at hlt
    obtain rfl : x = js.length := by omega
    rw [List.getElem?_concat_length, Option.some.injEq] at h
    exact .inr ⟨rfl, h.symm⟩

omit [DecidableEq π] in
/-- No call has had the number of the next job. -/
theorem Ready.unused (h : Ready now r) :
    ¬Live r.host r.jobs.length ∧ Host.ended? r.host r.jobs.length = none := by
  refine ⟨fun hl => ?_, h.unborn _ fun j hj => ?_⟩
  · obtain ⟨j, hj, -⟩ := h.isOpen _ hl
    exact absurd (List.getElem?_eq_some_iff.mp hj).1 (Nat.lt_irrefl _)
  · exact absurd (List.getElem?_eq_some_iff.mp hj).1 (Nat.lt_irrefl _)

omit [DecidableEq π] in
/-- The call of a new job has a number of its own. -/
theorem Ready.submit {request : ω} (h : Ready now r)
    (hfinite : LawfulHost.IsFinite κ request) :
    IsSound (Host.submit r.jobs.length request r.host) ∧
      (∀ x, Live (Host.submit r.jobs.length request r.host) x ↔
        Live r.host x ∨ x = r.jobs.length) ∧
      ∀ x, Host.ended? (Host.submit r.jobs.length request r.host) x = Host.ended? r.host x := by
  obtain ⟨hnew, hunborn⟩ := h.unused
  exact LawfulHost.submit h.sound hfinite hnew hunborn

omit [DecidableEq π] in
/-- A roster stays ready when an action is launched, and the job is on its way. -/
theorem Ready.launch {a : Action τ π ρ} {request : ω} (h : Ready now r) (ha : a.stage = .idle)
    (hpub : a.published = none) (hfinite : LawfulHost.IsFinite κ request) (p : π) :
    Ready now ((r.add a).start now r.jobs.length p request).1 ∧
      Tracked ⟨a.label, a.deadline, now⟩ r.jobs.length now
        ((r.add a).start now r.jobs.length p request).1 := by
  have hs := launch_eq now p request r ha
  rw [hs]
  obtain ⟨hsound, hlive, hended⟩ := h.submit hfinite
  have hold : ∀ {x : Nat} {j : Job τ π ρ} (k : Job τ π ρ), r.jobs[x]? = some j →
      (r.jobs ++ [k])[x]? = some j := fun k hj => by
    rw [List.getElem?_append_left (List.getElem?_eq_some_iff.mp hj).1]
    exact hj
  -- Each part holds of the old jobs as before, and of the new one by its start.
  refine ⟨⟨⟨hsound, ?isOpen, ?unborn, ?isWatched⟩, ?ahead, ?live⟩, ?tracked⟩
  case isOpen =>
    intro x hx
    rcases (hlive x).mp hx with hx | rfl
    · obtain ⟨j, hj, hopen⟩ := h.isOpen x hx
      exact ⟨j, hold _ hj, hopen⟩
    · exact ⟨_, List.getElem?_concat_length, rfl⟩
  case unborn =>
    intro x hx
    exact (hended x).trans (h.unborn x fun j hj => hx j (hold _ hj))
  case isWatched =>
    intro j hj
    rcases List.mem_append.mp hj with hj | hj
    · exact h.isWatched j hj
    · rw [List.mem_singleton] at hj
      subst hj
      exact .inl rfl
  case ahead =>
    intro j hj t ht
    rcases List.mem_append.mp hj with hj | hj
    · exact h.ahead j hj t ht
    · rw [List.mem_singleton] at hj
      subst hj
      obtain ⟨d, -, rfl⟩ := Option.map_eq_some_iff.mp ht
      exact Nat.le_add_right now d
  case live =>
    rintro x ⟨j, hj, hopen⟩
    rw [hlive]
    rcases getElem?_concat_cases hj with hj | ⟨rfl, -⟩
    · exact .inl (h.live x ⟨j, hj, hopen⟩)
    · exact .inr rfl
  case tracked =>
    exact .running _ List.getElem?_concat_length rfl rfl rfl rfl rfl hpub (Nat.le_refl now)

omit [LawfulHost κ] [Host κ ω ρ] in
/-- Cancelling a job leaves the runners as they are, and all other actions. -/
theorem getElem?_jobs_cancel (now x : Nat) (r : Roster τ π ρ κ) (i : Nat) :
    (r.cancel now x).1.jobs[i]? =
      r.jobs[i]?.map fun j =>
        if i = x then { j with action := (j.action.complete now .cancelled).1 } else j := by
  unfold Roster.cancel
  split
  · next hx =>
    by_cases hi : i = x
    · subst hi
      rw [hx, Option.map_none]
    · simp [hi]
  -- The job is there, and it is this one or another.
  · next j hj =>
    show (r.jobs.set x _)[i]? = _
    by_cases hi : i = x
    · subst hi
      rw [List.getElem?_set_self (List.getElem?_eq_some_iff.mp hj).1, hj, Option.map_some, if_pos rfl]
      rfl
    · rw [List.getElem?_set_ne (Ne.symm hi)]
      simp [hi]

omit [LawfulHost κ] [Host κ ω ρ] in
/-- Cancelling an action tells whether it ran. -/
theorem cancel_snd (now i : Nat) (r : Roster τ π ρ κ) :
    (r.cancel now i).2 = (r.action? i).any Action.isRunning := by
  unfold Roster.cancel action?
  cases hj : r.jobs[i]? with
  | none => rfl
  | some j =>
    rw [Option.map_some, Option.any_some]
    show (j.action.complete now .cancelled).2.2 = j.action.isRunning
    by_cases running : j.action.stage = .running
    · rw [(Action.complete_running now .cancelled running).2.2]
      exact ((Action.isRunning_iff _).mpr running).symm
    · rw [Action.complete_of_not_running now .cancelled running]
      exact (Bool.eq_false_iff.mpr fun h => running ((Action.isRunning_iff _).mp h)).symm

omit [LawfulHost κ] [Host κ ω ρ] in
/-- Nothing happens if an action is to be cancelled that does not run. -/
theorem cancel_of_not_running {i : Nat} {r : Roster τ π ρ κ}
    (h : ∀ a, r.action? i = some a → a.stage ≠ .running) (now : Nat) :
    r.cancel now i = (r, false) := by
  unfold Roster.cancel
  split
  · rfl
  · next j hj =>
    have hstage : j.action.stage ≠ .running := h j.action (by rw [action?, hj, Option.map_some])
    obtain ⟨hi, rfl⟩ := List.getElem?_eq_some_iff.mp hj
    have hsame : r.jobs.set i r.jobs[i] = r.jobs := List.set_getElem_self hi
    rw [Action.cancel, Action.complete_of_not_running now .cancelled hstage]
    simp only [Roster.record, List.map_nil, List.append_nil, hsame]

omit [LawfulHost κ] [Host κ ω ρ] in
/-- A cancellation leaves the host as it is. -/
theorem host_cancel (now x : Nat) (r : Roster τ π ρ κ) : (r.cancel now x).1.host = r.host := by
  unfold Roster.cancel
  split <;> rfl

/-- A roster stays ready when an action is cancelled. -/
theorem Ready.cancel (h : Ready now r) (x : Nat) : Ready now (r.cancel now x).1 := by
  -- The runners of all jobs stay as they are.
  have hset : ∀ (y : Nat) (j' : Job τ π ρ), (r.cancel now x).1.jobs[y]? = some j' →
      ∃ j : Job τ π ρ, r.jobs[y]? = some j ∧ j'.runner = j.runner := by
    intro y j' hj'
    rw [getElem?_jobs_cancel, Option.map_eq_some_iff] at hj'
    obtain ⟨j, hj, rfl⟩ := hj'
    refine ⟨j, hj, ?_⟩
    split <;> rfl
  have hset' : ∀ (y : Nat) (j : Job τ π ρ), r.jobs[y]? = some j →
      ∃ j' : Job τ π ρ, (r.cancel now x).1.jobs[y]? = some j' ∧ j'.runner = j.runner := by
    intro y j hj
    rw [getElem?_jobs_cancel, hj]
    refine ⟨_, rfl, ?_⟩
    split <;> rfl
  refine ⟨⟨?sound, ?isOpen, ?unborn, ?isWatched⟩, ?ahead, ?live⟩
  case sound =>
    rw [host_cancel]
    exact h.sound
  case isOpen =>
    intro y hy
    rw [host_cancel] at hy
    obtain ⟨j₀, hj₀, hopen⟩ := h.isOpen y hy
    obtain ⟨j', hj', hrunner⟩ := hset' y j₀ hj₀
    exact ⟨j', hj', hrunner ▸ hopen⟩
  case unborn =>
    intro y hy
    rw [host_cancel]
    refine h.unborn y fun j₀ hj₀ => ?_
    obtain ⟨j', hj', hrunner⟩ := hset' y j₀ hj₀
    exact hrunner ▸ hy j' hj'
  case isWatched =>
    intro j' hj'
    obtain ⟨y, hy⟩ := List.getElem?_of_mem hj'
    rw [getElem?_jobs_cancel, Option.map_eq_some_iff] at hy
    obtain ⟨j, hj, rfl⟩ := hy
    have hwatched := h.isWatched j (List.mem_of_getElem? hj)
    split
    · exact isWatched_complete .cancelled hwatched
    · exact hwatched
  case ahead =>
    intro j' hj' t ht
    obtain ⟨y, hy⟩ := List.getElem?_of_mem hj'
    obtain ⟨j₀, hj₀, hrunner⟩ := hset y j' hy
    exact h.ahead j₀ (List.mem_of_getElem? hj₀) t (hrunner ▸ ht)
  case live =>
    rintro y ⟨j', hj', hopen⟩
    obtain ⟨j₀, hj₀, hrunner⟩ := hset y j' hj'
    rw [host_cancel]
    exact h.live y ⟨j₀, hj₀, hrunner ▸ hopen⟩

omit [DecidableEq π] in
/-- Nothing becomes of a job when another action is launched. -/
theorem Tracked.launch {a : Action τ π ρ} {request : ω} (h : Tracked c i now r) (hr : Ready now r)
    (ha : a.stage = .idle) (hfinite : LawfulHost.IsFinite κ request) (p : π) :
    Tracked c i now ((r.add a).start now r.jobs.length p request).1 := by
  have hs := launch_eq now p request r ha
  rw [hs]
  obtain ⟨-, -, hended⟩ := hr.submit hfinite
  refine h.congr (fun j hj => ⟨j.runner, ?_, rfl, rfl⟩) fun _ => hended i
  rw [List.getElem?_append_left (List.getElem?_eq_some_iff.mp hj).1]
  exact hj

omit [LawfulHost κ] in
/-- Nothing becomes of a job when another one is cancelled. -/
theorem Tracked.cancel {x : Nat} (h : Tracked c i now r) (hx : x ≠ i) :
    Tracked c i now (r.cancel now x).1 := by
  refine h.congr (fun j hj => ⟨j.runner, ?_, rfl, rfl⟩) fun _ => by rw [host_cancel]
  rw [getElem?_jobs_cancel, hj, Option.map_some, if_neg (Ne.symm hx)]

/-! ## Outcomes -/

omit [LawfulHost κ] [DecidableEq π] in
/-- What becomes of a job does not depend on the log. -/
theorem Tracked.withLog (h : Tracked c i now r) (log : List (Nat × Note τ ρ)) :
    Tracked c i now { r with log := log } :=
  h.congr (fun j hj => ⟨j.runner, hj, rfl, rfl⟩) fun _ => rfl

omit [LawfulHost κ] [DecidableEq π] in
/-- The outcome of a job is known exactly when the job is closed. -/
theorem Tracked.hasPublished_iff (h : Tracked c i now r) :
    r.hasPublished i = true ↔ ¬r.IsOpen i := by
  have hopen : ∀ j : Job τ π ρ, r.jobs[i]? = some j → (r.IsOpen i ↔ j.runner.isOpen = true) := by
    intro j hj
    constructor
    · rintro ⟨k, hk, hopen⟩
      obtain rfl := Option.some.inj (hj.symm.trans hk)
      exact hopen
    · exact fun hopen => ⟨j, hj, hopen⟩
  have hpub : ∀ j : Job τ π ρ, r.jobs[i]? = some j →
      r.hasPublished i = j.action.published.isSome := by
    intro j hj
    rw [hasPublished, action?, hj, Option.map_some, Option.any_some]
  -- A job is open and silent, or closed and has published.
  cases h with
  | running j hj isOpen _ _ _ _ published =>
    rw [hpub j hj, hopen j hj, published, isOpen]
    simp
  | answered j _ hj isOpen _ _ _ published =>
    rw [hpub j hj, hopen j hj, published, isOpen]
    simp
  | overdue j _ hj isOpen _ _ published =>
    rw [hpub j hj, hopen j hj, published, isOpen]
    simp

/-- What a job amounts to that was started on some terms and has ended at some instant, given how
    its call has ended. -/
inductive Amounts (c : Terms) (now : Nat) (ended : Option (Ended ρ)) : Except Fault ρ → Prop
  | returned (e : Ended ρ) (r : Except Fault ρ) (call : ended = some e)
      (since : c.start ≤ e.instant) (inTime : ∀ d, c.deadline = some d → e.instant ≤ c.start + d)
      (ending : e.ending = .returned r) : Amounts c now ended r
  | crashed (e : Ended ρ) (call : ended = some e)
      (since : c.start ≤ e.instant) (inTime : ∀ d, c.deadline = some d → e.instant ≤ c.start + d)
      (ending : e.ending = .crashed) :
      Amounts c now ended (.error (.internal s!"{c.label} panicked before producing a result"))
  | overdue (d : Nat) (call : ended = none) (deadline : c.deadline = some d)
      (passed : c.start + d ≤ now) :
      Amounts c now ended (.error (.timeout c.label (.ofMillis d)))

omit [LawfulHost κ] [DecidableEq π] in
/-- A job that is not open any more has an answer, which amounts to what became of its call. -/
theorem Tracked.answer (h : Tracked c i now r) (hi : ¬r.IsOpen i) :
    ∃ x, ((r.action? i).bind Action.published).map Outcome.toExcept = some x ∧
      Amounts c now (Host.ended? r.host i) x := by
  -- Open jobs are excluded; the others were answered in time or overdue.
  cases h with
  | running j hj isOpen => exact absurd ⟨j, hj, isOpen⟩ hi
  | answered j e hj _ ended since inTime published =>
    refine ⟨(Job.outcome c.label e.ending).toExcept, ?_, ?_⟩
    · rw [action?, hj, Option.map_some, Option.bind_some, published, Option.map_some]
    · rw [ended]
      cases hending : e.ending with
      | returned x =>
        rw [Job.outcome, Outcome.toExcept_ofExcept]
        exact .returned e x rfl since inTime hending
      | crashed => exact .crashed e rfl since inTime hending
  | overdue j d hj _ ended deadline published _ passed =>
    refine ⟨.error (.timeout c.label (.ofMillis d)), ?_, ?_⟩
    · rw [action?, hj, Option.map_some, Option.bind_some, published]
      rfl
    · rw [ended]
      exact .overdue d rfl deadline passed

end Roster

end Federation
