import Federation.Proofs.Action.Verdict

/-!
# Jobs whose outcomes can be relied upon

A job may be cancelled at any time, but if this is done when the roster has settled, its call is
given up before it can end.  So the outcome of a job and the end of its call agree: an action that
has succeeded has the answer of its call, and if it has not, the call has not answered.

## Key results

- `Concluded.settle`, `Concluded.moves`, `Concluded.launch`, `Concluded.cancel`: an outcome stays
- `Poised.settle`: a job that is cancelled when the roster has settled is given up
- `Accounted.settle`, `Accounted.moves`: what becomes of a job, cancelled or not
- `Accounted.concluded`: in the end its outcome agrees with its call
-/

namespace Federation.Roster

open LawfulHost (IsSound Live Rests)

variable {τ π ρ κ ω : Type} [Host κ ω ρ]

/-- A job has ended with an outcome, and this is all that becomes of its call. -/
structure Concluded (o : Outcome ρ) (ended : Option (Ended ρ)) (i : Nat) (r : Roster τ π ρ κ) :
    Prop where
  job : ∃ j : Job τ π ρ, r.jobs[i]? = some j ∧ j.runner.isOpen = false ∧ j.action.published = some o
  ended : Host.ended? r.host i = ended

variable {o : Outcome ρ} {ended : Option (Ended ρ)} {i now : Nat} {r r' : Roster τ π ρ κ}

/-- What has become of a job is read off the job and its call. -/
theorem Concluded.congr (h : Concluded o ended i r) (job : r'.jobs[i]? = r.jobs[i]?)
    (same : Host.ended? r'.host i = Host.ended? r.host i) : Concluded o ended i r' := by
  obtain ⟨j, hj, hclosed, hpub⟩ := h.job
  exact ⟨⟨j, job.trans hj, hclosed, hpub⟩, same.trans h.ended⟩

/-- A job whose end is published is not open. -/
theorem Concluded.not_isOpen (h : Concluded o ended i r) : ¬r.IsOpen i := by
  obtain ⟨j, hj, hclosed, -⟩ := h.job
  rintro ⟨k, hk, hopen⟩
  obtain rfl := Option.some.inj (hj.symm.trans hk)
  exact Bool.false_ne_true (hclosed.symm.trans hopen)

/-- The outcome of a concluded job is published. -/
theorem Concluded.published (h : Concluded o ended i r) :
    (r.action? i).bind Action.published = some o := by
  obtain ⟨j, hj, -, hpub⟩ := h.job
  rw [action?, hj, Option.map_some, Option.bind_some, hpub]

/-- A concluded job is one of the roster. -/
theorem Concluded.lt_length (h : Concluded o ended i r) : i < r.jobs.length := by
  obtain ⟨j, hj, -⟩ := h.job
  exact (List.getElem?_eq_some_iff.mp hj).1

/-- Only a runner that is open becomes active. -/
theorem activate_of_not_isOpen {x : Runner} (h : x.isOpen = false) (isPrompt : Bool) :
    x.activate isPrompt = x := by
  cases x with
  | absent | closed => rfl
  | fresh | active => exact nomatch h

/-- A concluded job is not concerned when runners become active. -/
theorem Concluded.activate (h : Concluded o ended i r) (isPrompt : Nat → Bool) :
    Concluded o ended i (r.activated isPrompt) := by
  obtain ⟨j, hj, hclosed, -⟩ := h.job
  refine h.congr ?_ rfl
  rw [getElem?_jobs_activated, hj, Option.map_some, activate_of_not_isOpen hclosed]

/-! ## Outcomes stay -/

variable [LawfulHost κ]

/-- A concluded job stays so while the host goes on, since its call is not live any more. -/
theorem Concluded.runs {k : κ} (h : Concluded o ended i r) (hr : Watched r)
    (hruns : Host.Runs Live now r.host k) : Concluded o ended i { r with host := k } :=
  h.congr rfl (hruns.ended?_eq i (.inr fun hl => h.not_isOpen (hr.isOpen i hl)))

variable [DecidableEq π] {vs : List (Nat × Job τ π ρ × Outcome ρ)}

omit [LawfulHost κ] [DecidableEq π] in
/-- A runner that has closed its job has no verdict. -/
theorem Concluded.not_mem_verdicts (h : Concluded o ended i r)
    (hvs : List.Sublist vs (r.verdicts now)) : i ∉ vs.map Prod.fst := by
  intro hi
  obtain ⟨⟨x, j, p⟩, hv, rfl⟩ := List.mem_map.mp hi
  have hmem := hvs.subset hv
  have hopen := isOpen_of_isActive (isActive_of_mem_verdicts hmem)
  exact h.not_isOpen ⟨j, (mem_verdicts.mp hmem).1, hopen⟩

/-- A concluded job stays so when others are closed, since it has no verdict any more. -/
theorem Concluded.closeAll (h : Concluded o ended i r) (hr : Mid now r)
    (hvs : List.Sublist vs (r.verdicts now)) : Concluded o ended i (r.closeAll now vs) := by
  obtain ⟨-, -, hended, -, -⟩ := LawfulHost.abortAll (vs.map Prod.fst) hr.sound
  simp only [← host_closeAll now vs r] at hended
  exact h.congr (getElem?_jobs_closeAll_of_not_mem now (h.not_mem_verdicts hvs)) (hended i)

/-- A concluded job stays so when the roster settles. -/
theorem Concluded.settle (h : Concluded o ended i r) (hr : Ready now r) :
    Concluded o ended i (r.settle now) :=
  hr.settle_induction (fun _ _ hs hvs hc => hc.closeAll hs hvs)
    (fun _ _ hs hruns hc => hc.runs hs.toWatched hruns) (fun _ f hc => hc.activate f) h

/-- A concluded job stays so in the course of time. -/
theorem Concluded.moves {u : Nat} (h : Concluded o ended i r) (hr : Settled now r)
    (hm : Timed.Moves now r u r') : Concluded o ended i r' := by
  induction hm with
  | refl => exact h
  | step next _ ih =>
    have hready := hr.ready_of_eq next
    exact ih (h.settle hready) (hready.settle.1)

omit [DecidableEq π] in
/-- A concluded job stays so when a new one is started. -/
theorem Concluded.launch {a : Action τ π ρ} {request : ω} (h : Concluded o ended i r)
    (hr : Ready now r) (ha : a.stage = .idle) (hfinite : LawfulHost.IsFinite κ request) (p : π) :
    Concluded o ended i ((r.add a).start now r.jobs.length p request).1 := by
  have hs := launch_eq now p request r ha
  rw [hs]
  obtain ⟨-, -, hended⟩ := hr.submit hfinite
  obtain ⟨j, hj, -⟩ := h.job
  refine h.congr ?_ (hended i)
  exact List.getElem?_append_left (List.getElem?_eq_some_iff.mp hj).1

/-! ## Cancellations -/

omit [Host κ ω ρ] [LawfulHost κ] [DecidableEq π] in
/-- The action of a job that is closed does not run. -/
theorem not_running_of_closed {j : Job τ π ρ} (h : j.IsWatched)
    (hclosed : j.runner.isOpen = false) :
    j.action.stage ≠ .running := by
  unfold Job.IsWatched at h
  cases hr : j.runner with
  -- A job without a runner has not been started.
  | absent =>
    rw [hr] at h
    exact fun hrun => nomatch h.symm.trans hrun
  | fresh | active =>
    rw [hr] at hclosed
    exact nomatch hclosed
  | closed =>
    rw [hr] at h
    obtain ⟨p, hp, -⟩ := h
    exact fun hrun => nomatch hp.symm.trans hrun

omit [LawfulHost κ] [Host κ ω ρ] in
/-- A cancellation comes too late for a job that does not run. -/
theorem getElem?_jobs_cancel_of_not_running {j : Job τ π ρ} (hj : r.jobs[i]? = some j)
    (h : j.action.stage ≠ .running) (x : Nat) : (r.cancel now x).1.jobs[i]? = r.jobs[i]? := by
  rw [getElem?_jobs_cancel, hj, Option.map_some, Action.complete_of_not_running now _ h]
  split <;> rfl

/-- A concluded job stays so when anything is cancelled. -/
theorem Concluded.cancel (h : Concluded o ended i r) (hr : Watched r) (x : Nat) :
    Concluded o ended i (r.cancel now x).1 := by
  obtain ⟨j, hj, hclosed, -⟩ := h.job
  have hstage := not_running_of_closed (hr.isWatched j (List.mem_of_getElem? hj)) hclosed
  exact h.congr (getElem?_jobs_cancel_of_not_running hj hstage x) (by rw [host_cancel])

/-! ## Jobs that may be cancelled -/

/-- What becomes of a job that nobody cancels, or that is cancelled before its call can end. -/
def Accounted (i now : Nat) (r : Roster τ π ρ κ) : Prop :=
  (∃ c, Tracked c i now r) ∨ Concluded .cancelled none i r

/-- A job has been cancelled, but its runner has not seen it yet. -/
structure Revoked (i : Nat) (r : Roster τ π ρ κ) : Prop where
  job : ∃ j : Job τ π ρ, r.jobs[i]? = some j ∧ j.runner.isActive = true ∧
    j.action.stage = .finished .cancelled ∧ j.action.published = some .cancelled

/-- A job can be cancelled, or has just been: its runner watches, and the wait of its call is not
    over. -/
structure Poised (i now : Nat) (r : Roster τ π ρ κ) : Prop where
  job : Accounted i now r ∨ Revoked i r
  active : ∀ j, r.jobs[i]? = some j → j.runner.isOpen = true → j.runner.isActive = true
  ahead : ∀ t, Host.due? r.host i = some t → now < t

omit [LawfulHost κ] [DecidableEq π] in
/-- What has become of a job does not depend on the log. -/
theorem Accounted.withLog (h : Accounted i now r) (log : List (Nat × Note τ ρ)) :
    Accounted i now { r with log := log } := by
  rcases h with ⟨c, ht⟩ | hc
  · exact .inl ⟨c, ht.withLog log⟩
  · exact .inr (hc.congr rfl rfl)

omit [LawfulHost κ] [DecidableEq π] in
/-- The surroundings of the calls are changed from outside. -/
theorem Accounted.alter {k : κ} (h : Accounted i now r)
    (same : Host.ended? k i = Host.ended? r.host i) : Accounted i now { r with host := k } := by
  rcases h with ⟨c, ht⟩ | hc
  · exact .inl ⟨c, ht.congr (fun j hj => ⟨j.runner, hj, rfl, rfl⟩) fun _ => same⟩
  · exact .inr (hc.congr rfl same)

omit [LawfulHost κ] [DecidableEq π] in
/-- A job that is accounted for stays so as time goes on. -/
theorem Accounted.mono {later : Nat} (h : Accounted i now r) (hle : now ≤ later) :
    Accounted i later r := by
  rcases h with ⟨c, ht⟩ | hc
  · exact .inl ⟨c, ht.mono hle⟩
  · exact .inr hc

omit [LawfulHost κ] [DecidableEq π] in
/-- A job that is accounted for is one of the roster. -/
theorem Accounted.lt_length (h : Accounted i now r) : i < r.jobs.length := by
  rcases h with ⟨c, ht⟩ | hc
  · exact ht.lt_length
  · exact hc.lt_length

/-- A job stays accounted for when the roster settles. -/
theorem Accounted.settle (h : Accounted i now r) (hr : Ready now r) :
    Accounted i now (r.settle now) := by
  rcases h with ⟨c, ht⟩ | hc
  · exact .inl ⟨c, ht.settle hr⟩
  · exact .inr (hc.settle hr)

/-- A job stays accounted for in the course of time. -/
theorem Accounted.moves {u : Nat} (h : Accounted i now r) (hr : Settled now r)
    (hm : Timed.Moves now r u r') : Accounted i u r' := by
  rcases h with ⟨c, ht⟩ | hc
  · exact .inl ⟨c, ht.moves hr hm⟩
  · exact .inr (hc.moves hr hm)

omit [DecidableEq π] in
/-- A job stays accounted for when a new one is started. -/
theorem Accounted.launch {a : Action τ π ρ} {request : ω} (h : Accounted i now r)
    (hr : Ready now r) (ha : a.stage = .idle) (hfinite : LawfulHost.IsFinite κ request) (p : π) :
    Accounted i now ((r.add a).start now r.jobs.length p request).1 := by
  rcases h with ⟨c, ht⟩ | hc
  · exact .inl ⟨c, ht.launch hr ha hfinite p⟩
  · exact .inr (hc.launch hr ha hfinite p)

omit [DecidableEq π] in
/-- When a roster has settled, its jobs can be cancelled. -/
theorem Accounted.poised (h : Accounted i now r) (hr : Settled now r) : Poised i now r where
  job := .inl h
  active j hj hopen := (hr.active j (List.mem_of_getElem? hj) hopen).1
  ahead _ ht := LawfulHost.ahead hr.sound hr.rests ht

omit [LawfulHost κ] [DecidableEq π] in
/-- Whether a job can be cancelled does not depend on the log. -/
theorem Poised.withLog (h : Poised i now r) (log : List (Nat × Note τ ρ)) :
    Poised i now { r with log := log } :=
  ⟨h.job.imp (·.withLog log) fun hrev => ⟨hrev.job⟩, h.active, h.ahead⟩

/-- However many jobs are cancelled, they can be. -/
theorem Poised.cancel (h : Poised i now r) (hr : Watched r) (x : Nat) :
    Poised i now (r.cancel now x).1 := by
  refine ⟨?job, ?active, ?ahead⟩
  case active =>
    intro j' hj' hopen
    rw [getElem?_jobs_cancel, Option.map_eq_some_iff] at hj'
    obtain ⟨j, hj, rfl⟩ := hj'
    split at hopen <;> split <;> exact h.active j hj hopen
  case ahead =>
    rw [host_cancel]
    exact h.ahead
  case job =>
    -- Unless the job runs, it stays as it is.
    have same : ∀ j : Job τ π ρ, r.jobs[i]? = some j → j.action.stage ≠ .running →
        (r.cancel now x).1.jobs[i]? = r.jobs[i]? := fun j hj hstage =>
      getElem?_jobs_cancel_of_not_running hj hstage x
    have closed : ∀ {c : Terms} (j : Job τ π ρ), Tracked c i now r → r.jobs[i]? = some j →
        j.runner.isOpen = false → Tracked c i now (r.cancel now x).1 := by
      intro c j ht hj hclosed
      have hstage := not_running_of_closed (hr.isWatched j (List.mem_of_getElem? hj)) hclosed
      refine ht.congr (fun k hk => ⟨k.runner, (same j hj hstage).trans hk, rfl, rfl⟩) fun _ => ?_
      rw [host_cancel]
    rcases h.job with (⟨c, ht⟩ | hc) | hrev
    · by_cases hx : x = i
      case neg => exact .inl (.inl ⟨c, ht.cancel hx⟩)
      subst hx
      have hcases := ht
      cases hcases with
      -- The job has ended already, so it cannot be cancelled any more.
      | answered j _ hj isOpen | overdue j _ hj isOpen =>
        exact .inl (.inl ⟨c, closed j ht hj isOpen⟩)
      | running j hj isOpen due stage =>
        obtain ⟨ha, -, -⟩ := Action.complete_running now .cancelled stage
        let k : Job τ π ρ := { j with action := (j.action.complete now .cancelled).1 }
        have hk : (r.cancel now x).1.jobs[x]? = some k := by
          rw [getElem?_jobs_cancel, hj, Option.map_some, if_pos rfl]
        refine .inr ⟨k, hk, h.active j hj isOpen, ?_, ?_⟩
        · simp only [k, ha]
        · simp only [k, ha]
    · exact .inl (.inr (hc.cancel hr x))
    · obtain ⟨j, hj, hactive, hstage, hpub⟩ := hrev.job
      refine .inr ⟨j, (same j hj ?_).trans hj, hactive, hstage, hpub⟩
      rw [hstage]
      exact nofun

omit [LawfulHost κ] [DecidableEq π] in
/-- The runner of a job that has been cancelled gives it its verdict at once. -/
theorem Revoked.has_verdict (h : Revoked i r) : i ∈ (r.verdicts now).map Prod.fst := by
  obtain ⟨j, hj, hactive, hstage, -⟩ := h.job
  have hrun : j.action.isRunning = false := by
    refine Bool.eq_false_iff.mpr fun hrun => ?_
    exact nomatch hstage.symm.trans ((Action.isRunning_iff _).mp hrun)
  have hmem : (i, j, .cancelled) ∈ r.verdicts now :=
    mem_verdicts.mpr ⟨hj, Job.verdict?_of_not_running hactive hrun⟩
  exact List.mem_map_of_mem (f := Prod.fst) hmem

/-- If the runner of a job that has been cancelled gives it its verdict, the call is given up. -/
theorem Revoked.closed (h : Revoked i r) (hr : Mid now r) (hlive : Live r.host i)
    (hvs : List.Sublist vs (r.verdicts now)) (hi : i ∈ vs.map Prod.fst) :
    Concluded .cancelled none i (r.closeAll now vs) := by
  have hdistinct : (vs.map Prod.fst).Nodup := (nodup_verdicts now r).sublist (hvs.map _)
  obtain ⟨-, -, hended, -, -⟩ := LawfulHost.abortAll (vs.map Prod.fst) hr.sound
  simp only [← host_closeAll now vs r] at hended
  obtain ⟨j, hj, -, hstage, hpub⟩ := h.job
  obtain ⟨⟨x, k, o⟩, hv, rfl⟩ := List.mem_map.mp hi
  -- The verdict is about the job that was cancelled, since a number belongs to one job.
  have hk := (mem_verdicts.mp (hvs.subset hv)).1
  obtain rfl : j = k := Option.some.inj (hj.symm.trans hk)
  have hjob := getElem?_jobs_closeAll_of_mem now hdistinct hv (List.getElem?_eq_some_iff.mp hj).1
  refine ⟨⟨_, hjob, rfl, ?_⟩, (hended x).trans (LawfulHost.ended?_of_live hr.sound hlive)⟩
  rw [Action.complete_of_not_running now o (by rw [hstage]; exact nofun)]
  exact hpub

/-- A job that has been cancelled is given up when the roster settles, if it is not too late. -/
theorem Revoked.settle (h : Revoked i r) (hr : Ready now r)
    (hahead : ∀ t, Host.due? r.host i = some t → now < t) :
    Concluded .cancelled none i (r.settle now) := by
  obtain ⟨j, hj, hactive, -⟩ := h.job
  have hlive := hr.live i ⟨j, hj, isOpen_of_isActive hactive⟩
  have hsub : List.Sublist (r.earlyVerdicts now) (r.verdicts now) := List.filter_sublist
  obtain ⟨hmid, -⟩ := hr.mid.closeAll hsub
  have hripened : Mid now (r.ripened now) := hmid.ripen.1
  have hruns := (LawfulHost.ripen now hmid.sound).2.1
  have hall := List.Sublist.refl ((r.ripened now).verdicts now)
  have hclosed : Concluded .cancelled none i
      ((r.ripened now).closeAll now ((r.ripened now).verdicts now)) := by
    by_cases hi : i ∈ (r.earlyVerdicts now).map Prod.fst
    -- The call is given up before the host goes on, and stays so.
    · have hearly := h.closed hr.mid hlive hsub hi
      have hripe : Concluded .cancelled none i (r.ripened now) := hearly.runs hmid.toWatched hruns
      exact hripe.closeAll hripened hall
    -- The call is not due, so ripening does not let it end before its runner gives the verdict.
    · obtain ⟨-, hlives, -, hdues, -⟩ :=
        LawfulHost.abortAll ((r.earlyVerdicts now).map Prod.fst) hr.sound
      simp only [← host_closeAll now (r.earlyVerdicts now) r] at hlives hdues
      have hstill : Live (r.ripened now).host i :=
        LawfulHost.ripen_live hmid.sound ((hlives i).mpr ⟨hlive, hi⟩) fun t ht =>
          hahead t ((hdues i hi).symm.trans ht)
      have hrev : Revoked i (r.ripened now) := by
        obtain ⟨k, hk, hrest⟩ := h.job
        exact ⟨k, (getElem?_jobs_closeAll_of_not_mem now hi).trans hk, hrest⟩
      exact hrev.closed hripened hstill hall hrev.has_verdict
  refine (settle_of_closed (P := fun s => Mid now s ∧ Concluded .cancelled none i s)
    (Q := fun _ => True) ?closing ?goOn ⟨(hripened.closeAll hall).1, hclosed⟩).1.2
  case closing =>
    rintro s ⟨hs, hc⟩
    have hvs := List.Sublist.refl (s.verdicts now)
    exact ⟨(hs.closeAll hvs).1, hc.closeAll hs hvs⟩
  case goOn =>
    rintro s ⟨hs, hc⟩
    refine ⟨⟨hs.goOn.1, ?_⟩, trivial⟩
    rw [goOn_eq]
    exact (hc.runs hs.toWatched (LawfulHost.settle now hs.sound).2.1).activate _

/-- What becomes of a job when the roster settles, whether it was cancelled before or not. -/
theorem Poised.settle (h : Poised i now r) (hr : Ready now r) :
    Accounted i now (r.settle now) := by
  rcases h.job with hacc | hrev
  · exact hacc.settle hr
  · exact .inr (hrev.settle hr h.ahead)

/-! ## In the end -/

omit [LawfulHost κ] [DecidableEq π] in
/-- A job that is accounted for has published its outcome exactly if it is not open. -/
theorem Accounted.hasPublished_iff (h : Accounted i now r) :
    r.hasPublished i = true ↔ ¬r.IsOpen i := by
  rcases h with ⟨c, ht⟩ | hc
  · exact ht.hasPublished_iff
  · refine iff_of_true ?_ hc.not_isOpen
    obtain ⟨j, hj, -, hpub⟩ := hc.job
    rw [hasPublished, action?, hj, Option.map_some, Option.any_some, hpub]
    rfl

omit [LawfulHost κ] [DecidableEq π] [Host κ ω ρ] in
/-- A call makes a job succeed exactly if it returns an answer. -/
theorem succeeded_iff_answered {label : String} {e : Ended ρ} {x : ρ} :
    Job.outcome label e.ending = .succeeded x ↔ Answered (some e) x := by
  constructor
  · intro h
    refine ⟨e, rfl, ?_⟩
    -- A call that crashed makes its job fail, so it has returned something.
    cases hending : e.ending with
    | crashed =>
      rw [hending] at h
      exact nomatch h
    | returned y =>
      rw [hending] at h
      have hy := congrArg Outcome.toExcept h
      rw [Job.outcome, Outcome.toExcept_ofExcept] at hy
      rw [hy]
      rfl
  · rintro ⟨e', he, hending⟩
    obtain rfl := Option.some.inj he
    rw [hending]
    rfl

omit [LawfulHost κ] [DecidableEq π] in
/-- A job that is closed has succeeded exactly if its call has answered. -/
theorem Accounted.concluded (h : Accounted i now r) (hi : ¬r.IsOpen i) :
    ∃ o ended, Concluded o ended i r ∧ ∀ x, o = .succeeded x ↔ Answered ended x := by
  rcases h with ⟨c, ht⟩ | hc
  -- The job is closed, so its call has returned or has been given up at the deadline.
  · cases ht with
    | running j hj isOpen => exact absurd ⟨j, hj, isOpen⟩ hi
    | answered j e hj isOpen ended _ _ published =>
      exact ⟨_, some e, ⟨⟨j, hj, isOpen, published⟩, ended⟩, fun _ => succeeded_iff_answered⟩
    | overdue j d hj isOpen ended _ published =>
      exact ⟨_, none, ⟨⟨j, hj, isOpen, published⟩, ended⟩, fun x =>
        iff_of_false nofun (not_answered_none x)⟩
  · exact ⟨_, none, hc, fun x => iff_of_false nofun (not_answered_none x)⟩

end Federation.Roster
