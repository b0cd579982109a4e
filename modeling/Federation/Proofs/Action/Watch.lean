import Federation.Proofs.Action.Delivery
import Federation.Proofs.Action.Settling
import Federation.Proofs.Call.Lawful

/-!
# How runners watch over calls

As long as a job is open, its call is in progress; as soon as the call ends, at the deadline, or when
the action is cancelled, the runner closes the job and gives the call up.  So if the host can be
relied upon, every job that is open when the roster has settled runs, waits for its call, and has
time left.

## Key results

- `Ready.settle`: what holds when a roster has settled
- `Ready.settle_induction`: what its jobs have kept then
- `steady`: a roster that moves on from instant to instant comes to an end
-/

namespace Federation

variable {τ π ρ κ ω : Type}

/-- What the action and the runner of a job know of each other. -/
def Job.IsWatched (j : Job τ π ρ) : Prop :=
  match j.runner with
  | .absent => j.action.stage = .idle
  | .fresh _ | .active .. =>
    j.action.stage = .running ∨
      ∃ o, j.action.stage = .finished o ∧ j.action.published = some o
  | .closed => ∃ o, j.action.stage = .finished o ∧ j.action.published = some o

namespace Roster

open LawfulHost (IsSound Live Rests)

/-- Whether a job is open. -/
def IsOpen (r : Roster τ π ρ κ) (i : Nat) : Prop :=
  ∃ j, r.jobs[i]? = some j ∧ j.runner.isOpen = true

/-- Whether the job of a number has not been started, if there is one. -/
def IsUnborn (r : Roster τ π ρ κ) (i : Nat) : Prop :=
  ∀ j, r.jobs[i]? = some j → j.runner = .absent

/-- A job that has not begun is not open. -/
theorem not_isOpen_of_isUnborn {r : Roster τ π ρ κ} {i : Nat} (h : r.IsUnborn i) :
    ¬r.IsOpen i := by
  rintro ⟨j, hj, hopen⟩
  rw [h j hj] at hopen
  exact Bool.false_ne_true hopen

variable [Host κ ω ρ] [LawfulHost κ]

/-- What holds at any time: calls are in progress for open jobs only. -/
structure Watched (r : Roster τ π ρ κ) : Prop where
  sound : IsSound r.host
  isOpen : ∀ i, Live r.host i → r.IsOpen i
  unborn : ∀ i, r.IsUnborn i → Host.ended? r.host i = none
  isWatched : ∀ j ∈ r.jobs, j.IsWatched

/-- What holds in the midst of an instant: a call of an open job may just have ended. -/
structure Mid (now : Nat) (r : Roster τ π ρ κ) : Prop extends Watched r where
  ahead : ∀ j ∈ r.jobs, ∀ t, j.runner.due? = some t → now ≤ t
  called : ∀ i, r.IsOpen i →
    Live r.host i ∨ ∃ e, Host.ended? r.host i = some e ∧ e.instant = now

/-- What holds before anything has happened at an instant: no deadline has passed. -/
structure Ready (now : Nat) (r : Roster τ π ρ κ) : Prop extends Watched r where
  ahead : ∀ j ∈ r.jobs, ∀ t, j.runner.due? = some t → now ≤ t
  live : ∀ i, r.IsOpen i → Live r.host i

/-- What holds after everything has happened at an instant. -/
structure Settled (now : Nat) (r : Roster τ π ρ κ) : Prop extends Watched r where
  ahead : ∀ j ∈ r.jobs, ∀ t, j.runner.due? = some t → now < t
  live : ∀ i, r.IsOpen i → Live r.host i
  active : ∀ j ∈ r.jobs, j.runner.isOpen = true →
    j.runner.isActive = true ∧ j.action.stage = .running
  rests : Rests now r.host

/-- What only becomes less as things happen at an instant. -/
structure Later (r r' : Roster τ π ρ κ) : Prop where
  length : r'.jobs.length = r.jobs.length
  isOpen : ∀ (i : Nat) (j' : Job τ π ρ), r'.jobs[i]? = some j' → j'.runner.isOpen = true →
    ∃ j : Job τ π ρ, r.jobs[i]? = some j ∧ j.runner.isOpen = true ∧
      j'.runner.due? = j.runner.due?
  live : ∀ i, Live r'.host i → Live r.host i
  load : Timed.load r'.host ≤ Timed.load r.host

/-- As long as nothing happens, nothing is later. -/
theorem Later.refl (r : Roster τ π ρ κ) : Later r r :=
  ⟨rfl, fun _ j hj hopen => ⟨j, hj, hopen, rfl⟩, fun _ => id, Nat.le_refl _⟩

/-- What comes after something later is later still. -/
theorem Later.trans {r s t : Roster τ π ρ κ} (h : Later r s) (k : Later s t) : Later r t where
  length := k.length.trans h.length
  isOpen := by
    intro i j'' hj'' hopen''
    obtain ⟨j', hj', hopen', hdue'⟩ := k.isOpen i j'' hj'' hopen''
    obtain ⟨j, hj, hopen, hdue⟩ := h.isOpen i j' hj' hopen'
    exact ⟨j, hj, hopen, hdue'.trans hdue⟩
  live i hi := h.live i (k.live i hi)
  load := Nat.le_trans k.load h.load

/-- A job that is open later was open before. -/
theorem Later.isOpen_of {r r' : Roster τ π ρ κ} (h : Later r r') {i : Nat} (hi : r'.IsOpen i) :
    r.IsOpen i := by
  obtain ⟨j', hj', hopen'⟩ := hi
  obtain ⟨j, hj, hopen, -⟩ := h.isOpen i j' hj' hopen'
  exact ⟨j, hj, hopen⟩

variable {now : Nat} {r : Roster τ π ρ κ}

/-- A roster that is ready may be in the middle of its settling. -/
theorem Ready.mid (h : Ready now r) : Mid now r :=
  { h.toWatched with ahead := h.ahead, called := fun i hi => .inl (h.live i hi) }

/-- Time passes until something is due. -/
theorem Settled.ready {t : Nat} (h : Settled now r)
    (ht : ∀ j ∈ r.jobs, ∀ u, j.runner.due? = some u → t ≤ u) : Ready t r :=
  { h.toWatched with ahead := ht, live := h.live }

/-! ## The host goes on -/

/-- The host does something at an instant, and the roster has the same jobs. -/
theorem Mid.runs {k : κ} (h : Mid now r) (hsound : IsSound k)
    (hruns : Host.Runs Live now r.host k) :
    Mid now { r with host := k } ∧ Later r { r with host := k } := by
  have hlater : Later r { r with host := k } :=
    ⟨rfl, fun _ j hj hopen => ⟨j, hj, hopen, rfl⟩, hruns.live_of_live, hruns.load_le⟩
  refine ⟨⟨⟨hsound, ?isOpen, ?unborn, h.isWatched⟩, h.ahead, ?called⟩, hlater⟩
  case isOpen => exact fun i hi => h.isOpen i (hruns.live_of_live i hi)
  case unborn =>
    intro i hi
    have hdead : ¬Live r.host i := fun hl => not_isOpen_of_isUnborn hi (h.isOpen i hl)
    exact (hruns.ended?_eq i (.inr hdead)).trans (h.unborn i hi)
  -- A call that is not live any more has just ended, or had ended before.
  case called =>
    intro i hi
    rcases h.called i hi with hl | ⟨e, he, hnow⟩
    · by_cases hl' : Live k i
      · exact .inl hl'
      · exact .inr (hruns.ended i hl hl')
    · have hdead : ¬Live r.host i := fun hl =>
        nomatch he.symm.trans (LawfulHost.ended?_of_live h.sound hl)
      exact .inr ⟨e, (hruns.ended?_eq i (.inr hdead)).trans he, hnow⟩

/-- The host ripens in the middle of settling. -/
theorem Mid.ripen (h : Mid now r) :
    Mid now { r with host := Host.ripen now r.host } ∧
      Later r { r with host := Host.ripen now r.host } := by
  obtain ⟨hsound, hruns, -⟩ := LawfulHost.ripen now h.sound
  exact h.runs hsound hruns

/-- The runners of a roster that begin to watch. -/
def activated (isPrompt : Nat → Bool) (r : Roster τ π ρ κ) : Roster τ π ρ κ :=
  { r with
    jobs := r.jobs.zipIdx.map fun (j, i) =>
      { j with runner := j.runner.activate (isPrompt i) } }

omit [Host κ ω ρ] [LawfulHost κ] in
/-- Runners begin to watch, and the jobs keep their places. -/
theorem getElem?_jobs_activated (isPrompt : Nat → Bool) (r : Roster τ π ρ κ) (i : Nat) :
    (r.activated isPrompt).jobs[i]? =
      r.jobs[i]?.map fun j => { j with runner := j.runner.activate (isPrompt i) } := by
  simp [activated, List.getElem?_map, List.getElem?_zipIdx, Function.comp_def]

/-- A runner that begins to watch is open as before. -/
theorem isOpen_activate (b : Bool) (x : Runner) : (x.activate b).isOpen = x.isOpen := by
  cases x <;> rfl

/-- A runner that begins to watch keeps its deadline. -/
theorem due?_activate (b : Bool) (x : Runner) : (x.activate b).due? = x.due? := by
  cases x <;> rfl

omit [Host κ ω ρ] [LawfulHost κ] in
/-- The same jobs are open when runners begin to watch. -/
theorem isOpen_activated (isPrompt : Nat → Bool) (r : Roster τ π ρ κ) (i : Nat) :
    (r.activated isPrompt).IsOpen i ↔ r.IsOpen i := by
  unfold IsOpen
  rw [getElem?_jobs_activated]
  cases r.jobs[i]? <;> simp [isOpen_activate]

/-- Runners begin to watch in the middle of settling. -/
theorem Mid.activate (h : Mid now r) (isPrompt : Nat → Bool) :
    Mid now (r.activated isPrompt) ∧ Later r (r.activated isPrompt) := by
  -- Each job is an old one, of which only the runner may have changed.
  have hjobs : ∀ j' ∈ (r.activated isPrompt).jobs, ∃ j ∈ r.jobs, ∃ b,
      j' = { j with runner := j.runner.activate b } := by
    intro j' hj'
    obtain ⟨i, hi⟩ := List.getElem?_of_mem hj'
    rw [getElem?_jobs_activated, Option.map_eq_some_iff] at hi
    obtain ⟨j, hj, rfl⟩ := hi
    exact ⟨j, List.mem_of_getElem? hj, _, rfl⟩
  have hlater : Later r (r.activated isPrompt) := by
    refine ⟨by simp [activated], fun i j' hj' hopen' => ?_, fun _ => id, Nat.le_refl _⟩
    rw [getElem?_jobs_activated, Option.map_eq_some_iff] at hj'
    obtain ⟨j, hj, rfl⟩ := hj'
    exact ⟨j, hj, (isOpen_activate _ _).symm.trans hopen', due?_activate _ _⟩
  refine ⟨⟨⟨h.sound, ?isOpen, ?unborn, ?isWatched⟩, ?ahead, ?called⟩, hlater⟩
  case isOpen => exact fun i hi => (isOpen_activated isPrompt r i).mpr (h.isOpen i hi)
  case unborn =>
    intro i hi
    refine h.unborn i fun j hj => ?_
    have hi' := hi { j with runner := j.runner.activate (isPrompt i) }
      (by rw [getElem?_jobs_activated, hj, Option.map_some])
    cases hrunner : j.runner <;> simp_all [Runner.activate]
  case isWatched =>
    intro j' hj'
    obtain ⟨j, hj, b, rfl⟩ := hjobs j' hj'
    have hw := h.isWatched j hj
    unfold Job.IsWatched at hw ⊢
    cases hrunner : j.runner <;> simp_all [Runner.activate]
  case ahead =>
    intro j' hj' t ht
    obtain ⟨j, hj, b, rfl⟩ := hjobs j' hj'
    exact h.ahead j hj t ((due?_activate b _).symm.trans ht)
  case called => exact fun i hi => h.called i ((isOpen_activated isPrompt r i).mp hi)

omit [LawfulHost κ] in
/-- To go on is to settle the host and to let runners begin to watch. -/
theorem goOn_eq (now : Nat) (r : Roster τ π ρ κ) :
    r.goOn now = { r with host := Timed.settle now r.host }.activated
      fun i => (Host.due? (Timed.settle now r.host) i).isSome := rfl

/-- The host goes on in the middle of settling. -/
theorem Mid.goOn (h : Mid now r) : Mid now (r.goOn now) ∧ Later r (r.goOn now) := by
  obtain ⟨hsound, hruns, -⟩ := LawfulHost.settle now h.sound
  obtain ⟨hmid, hlater⟩ := h.runs hsound hruns
  rw [goOn_eq]
  obtain ⟨hmid', hlater'⟩ :=
    hmid.activate fun i => (Host.due? (Timed.settle now r.host) i).isSome
  exact ⟨hmid', hlater.trans hlater'⟩

/-! ## Runners give their verdicts -/

variable [DecidableEq π] {vs : List (Nat × Job τ π ρ × Outcome ρ)}

omit [Host κ ω ρ] [LawfulHost κ] in
/-- An action that runs, or has told everyone its outcome, has done so when it is completed. -/
theorem published_complete {a : Action τ π ρ} (o : Outcome ρ)
    (h : a.stage = .running ∨ ∃ o, a.stage = .finished o ∧ a.published = some o) :
    ∃ p, (a.complete now o).1.stage = .finished p ∧ (a.complete now o).1.published = some p := by
  rcases h with hrunning | ⟨p, hp, hpub⟩
  · obtain ⟨ha, -, -⟩ := Action.complete_running now o hrunning
    rw [ha]
    exact ⟨o, rfl, rfl⟩
  · rw [Action.complete_of_not_running now o (by rw [hp]; exact nofun)]
    exact ⟨p, hp, hpub⟩

omit [Host κ ω ρ] [LawfulHost κ] in
/-- A job stays watched when its action is completed. -/
theorem isWatched_complete {j : Job τ π ρ} (o : Outcome ρ) (h : j.IsWatched) :
    Job.IsWatched { j with action := (j.action.complete now o).1 } := by
  unfold Job.IsWatched at h ⊢
  cases hr : j.runner with
  | absent =>
    simp only [hr] at h ⊢
    rw [Action.complete_of_not_running now o (by rw [h]; exact nofun)]
    exact h
  | fresh due | active due isPrompt =>
    simp only [hr] at h ⊢
    exact .inr (published_complete o h)
  | closed =>
    simp only [hr] at h ⊢
    exact published_complete o (.inr h)

omit [Host κ ω ρ] [LawfulHost κ] in
/-- A job that its runner closes has told everyone an outcome. -/
theorem isWatched_close {j : Job τ π ρ} (o : Outcome ρ) (hactive : j.runner.isActive = true)
    (h : j.IsWatched) :
    Job.IsWatched
      { action := (j.action.complete now o).1, runner := .closed : Job τ π ρ } := by
  unfold Job.IsWatched at h ⊢
  cases hr : j.runner with
  | active due isPrompt =>
    rw [hr] at h
    exact published_complete o h
  | absent | fresh | closed =>
    rw [hr] at hactive
    exact nomatch hactive

omit [LawfulHost κ] [DecidableEq π] in
/-- Only active runners have verdicts. -/
theorem isActive_of_mem_verdicts {i : Nat} {j : Job τ π ρ} {o : Outcome ρ}
    (h : (i, j, o) ∈ r.verdicts now) : j.runner.isActive = true := by
  have hv := (mem_verdicts.mp h).2
  unfold Job.verdict? at hv
  cases ha : j.runner.isActive with
  | true => rfl
  | false => simp [ha] at hv

/-- Runners give verdicts in the middle of settling. -/
theorem Mid.closeAll (h : Mid now r) (hvs : List.Sublist vs (r.verdicts now)) :
    Mid now (r.closeAll now vs) ∧ Later r (r.closeAll now vs) := by
  have hdistinct : (vs.map Prod.fst).Nodup := (nodup_verdicts now r).sublist (hvs.map _)
  have hverdict : ∀ i j o, (i, j, o) ∈ vs →
      r.jobs[i]? = some j ∧ j.runner.isActive = true := fun i j o hv =>
    ⟨(mem_verdicts.mp (hvs.subset hv)).1, isActive_of_mem_verdicts (hvs.subset hv)⟩
  -- Each job has either been closed or stays as it is.
  have hcases : ∀ i j', (r.closeAll now vs).jobs[i]? = some j' →
      (i ∈ vs.map Prod.fst ∧ j'.runner = .closed ∧ j'.IsWatched) ∨
        (i ∉ vs.map Prod.fst ∧ r.jobs[i]? = some j') := by
    intro i j' hj'
    by_cases hi : i ∈ vs.map Prod.fst
    · obtain ⟨⟨x, j, o⟩, hv, rfl⟩ := List.mem_map.mp hi
      obtain ⟨hj, hactive⟩ := hverdict x j o hv
      have hlt : x < r.jobs.length := (List.getElem?_eq_some_iff.mp hj).1
      rw [getElem?_jobs_closeAll_of_mem now hdistinct hv hlt, Option.some.injEq] at hj'
      subst hj'
      exact .inl ⟨hi, rfl, isWatched_close o hactive (h.isWatched j (List.mem_of_getElem? hj))⟩
    · rw [getElem?_jobs_closeAll_of_not_mem now hi] at hj'
      exact .inr ⟨hi, hj'⟩
  have hopen : ∀ i, (r.closeAll now vs).IsOpen i → i ∉ vs.map Prod.fst ∧ r.IsOpen i := by
    rintro i ⟨j', hj', ho⟩
    rcases hcases i j' hj' with ⟨-, hc, -⟩ | ⟨hi, hj⟩
    · rw [hc] at ho
      exact absurd ho Bool.false_ne_true
    · exact ⟨hi, j', hj, ho⟩
  -- The host has given up the calls of the jobs that were closed, and nothing else.
  obtain ⟨hsound, hlive, hended, -, hload⟩ :=
    LawfulHost.abortAll (vs.map Prod.fst) h.sound
  simp only [← host_closeAll now vs r] at hsound hlive hended hload
  have hlater : Later r (r.closeAll now vs) := by
    refine ⟨length_jobs_closeAll now vs r, fun i j' hj' ho => ?_,
      fun i hi => ((hlive i).mp hi).1, hload⟩
    rcases hcases i j' hj' with ⟨-, hc, -⟩ | ⟨-, hj⟩
    · rw [hc] at ho
      exact absurd ho Bool.false_ne_true
    · exact ⟨j', hj, ho, rfl⟩
  refine ⟨⟨⟨hsound, ?isOpen, ?unborn, ?isWatched⟩, ?ahead, ?called⟩, hlater⟩
  case isOpen =>
    intro i hi
    obtain ⟨hl, hv⟩ := (hlive i).mp hi
    obtain ⟨j, hj, ho⟩ := h.isOpen i hl
    exact ⟨j, (getElem?_jobs_closeAll_of_not_mem now hv).trans hj, ho⟩
  case unborn =>
    intro i hi
    refine (hended i).trans (h.unborn i fun j hj => ?_)
    -- A job that is closed now had been started, so it was not unborn.
    by_cases hv : i ∈ vs.map Prod.fst
    · obtain ⟨⟨x, k, o⟩, hmem, rfl⟩ := List.mem_map.mp hv
      have hlt : x < r.jobs.length := (List.getElem?_eq_some_iff.mp hj).1
      exact nomatch hi _ (getElem?_jobs_closeAll_of_mem now hdistinct hmem hlt)
    · exact hi j ((getElem?_jobs_closeAll_of_not_mem now hv).trans hj)
  case isWatched =>
    intro j' hj'
    obtain ⟨i, hi⟩ := List.getElem?_of_mem hj'
    rcases hcases i j' hi with ⟨-, -, hw⟩ | ⟨-, hj⟩
    · exact hw
    · exact h.isWatched j' (List.mem_of_getElem? hj)
  case ahead =>
    intro j' hj' t ht
    obtain ⟨i, hi⟩ := List.getElem?_of_mem hj'
    rcases hcases i j' hi with ⟨-, hc, -⟩ | ⟨-, hj⟩
    · rw [hc] at ht
      exact nomatch ht
    · exact h.ahead j' (List.mem_of_getElem? hj) t ht
  case called =>
    intro i hi
    obtain ⟨hv, ho⟩ := hopen i hi
    rcases h.called i ho with hl | ⟨e, he, hnow⟩
    · exact .inl ((hlive i).mpr ⟨hl, hv⟩)
    · exact .inr ⟨e, (hended i).trans he, hnow⟩

/-! ## The number of open jobs -/

/-- Elements that stop counting make the count no larger. -/
private theorem countP_le {β : Type} {p : β → Bool} {l l' : List β}
    (h : List.Forall₂ (fun x' x => p x' = true → p x = true) l' l) :
    l'.countP p ≤ l.countP p := by
  induction h with
  | nil => exact Nat.le_refl _
  | @cons x' x l' l hx _ ih =>
    rw [List.countP_cons, List.countP_cons]
    by_cases hx' : p x' = true
    · rw [if_pos hx', if_pos (hx hx')]
      omega
    · rw [if_neg hx']
      omega

/-- An element that stops counting makes the count smaller, if no others begin to count. -/
private theorem countP_lt {β : Type} {p : β → Bool} {l l' : List β}
    (h : List.Forall₂ (fun x' x => p x' = true → p x = true) l' l) {i : Nat} {x x' : β}
    (hx : l[i]? = some x) (hx' : l'[i]? = some x') (hp : p x = true) (hp' : ¬p x' = true) :
    l'.countP p < l.countP p := by
  induction h generalizing i with
  | nil => simp at hx
  | @cons y' y l' l hy hrest ih =>
    rw [List.countP_cons, List.countP_cons]
    -- The smaller count is at the place given, and all other places count no more.
    cases i with
    | zero =>
      obtain rfl : y = x := by simpa using hx
      obtain rfl : y' = x' := by simpa using hx'
      have hle := countP_le hrest
      rw [if_pos hp, if_neg hp']
      omega
    | succ i =>
      have hlt := ih (by simpa using hx) (by simpa using hx')
      by_cases hy' : p y' = true
      · rw [if_pos hy', if_pos (hy hy')]
        omega
      · rw [if_neg hy']
        omega

omit [DecidableEq π] in
/-- If some job has been closed, there are fewer open ones. -/
theorem Later.openCount_lt {r' : Roster τ π ρ κ} (h : Later r r') {i : Nat} (hi : r.IsOpen i)
    (hi' : ¬r'.IsOpen i) : r'.openCount < r.openCount := by
  obtain ⟨j, hj, hopen⟩ := hi
  have hlt : i < r'.jobs.length := h.length ▸ (List.getElem?_eq_some_iff.mp hj).1
  have hj' : r'.jobs[i]? = some r'.jobs[i] := List.getElem?_eq_getElem hlt
  refine countP_lt (List.forall₂_iff_get.mpr ⟨h.length, fun x hx' hx hp => ?_⟩) hj hj' hopen
    fun hp => hi' ⟨_, hj', hp⟩
  obtain ⟨k, hk, hopen'⟩ := h.isOpen_of ⟨_, List.getElem?_eq_getElem hx', hp⟩
  rw [List.getElem?_eq_getElem hx, Option.some.injEq] at hk
  rw [List.get_eq_getElem, hk]
  exact hopen'

/-! ## Settling -/

/-- A runner that watches is open. -/
theorem isOpen_of_isActive {x : Runner} (h : x.isActive = true) : x.isOpen = true := by
  cases x with
  | active => rfl
  | absent | fresh | closed => exact nomatch h

/-- A call whose wait is over has been given up or has ended when the roster has ripened. -/
theorem Mid.not_live_ripened (h : Mid now r) {i t : Nat} (hdue : Host.due? r.host i = some t)
    (ht : t ≤ now) : ¬Live (r.ripened now).host i := by
  obtain ⟨hsound, hlive, -, hdues, -⟩ :=
    LawfulHost.abortAll ((r.earlyVerdicts now).map Prod.fst) h.sound
  simp only [← host_closeAll now (r.earlyVerdicts now) r] at hsound hlive hdues
  obtain ⟨-, hruns, hripe⟩ := LawfulHost.ripen now hsound
  -- Either its runner decided before the host ripened, or the host let it end.
  by_cases hi : i ∈ (r.earlyVerdicts now).map Prod.fst
  · exact fun hl => ((hlive i).mp (hruns.live_of_live i hl)).2 hi
  · exact hripe i t ((hdues i hi).trans hdue) ht

omit [LawfulHost κ] [DecidableEq π] in
/-- A job that is open although its runner has no verdict runs, waits for its call, and has time
    left. -/
theorem waits_of_verdicts_eq_nil {i : Nat} {j : Job τ π ρ} (h : r.verdicts now = [])
    (hj : r.jobs[i]? = some j) (hactive : j.runner.isActive = true) :
    j.action.stage = .running ∧ Host.ended? r.host i = none ∧
      ∀ t, j.runner.due? = some t → now < t := by
  have hv : j.verdict? now ((Host.ended? r.host i).map Ended.ending) = none := by
    by_contra hsome
    obtain ⟨o, ho⟩ := Option.ne_none_iff_exists'.mp hsome
    have hmem := mem_verdicts.mpr ⟨hj, ho⟩
    rw [h] at hmem
    exact absurd hmem List.not_mem_nil
  -- Whatever the job lacked would be a verdict.
  cases hrun : j.action.isRunning with
  | false =>
    rw [Job.verdict?_of_not_running hactive hrun] at hv
    exact nomatch hv
  | true =>
    cases he : Host.ended? r.host i with
    | some e =>
      rw [he, Option.map_some, Job.verdict?_of_ended hactive hrun] at hv
      exact nomatch hv
    | none =>
      refine ⟨(Action.isRunning_iff j.action).mp hrun, rfl, fun t ht => ?_⟩
      by_contra hle
      have hdue : Timed.isDue j.runner.due? now = true :=
        Timed.isDue_iff.mpr ⟨t, ht, Nat.le_of_not_lt hle⟩
      simp [Job.verdict?, hactive, hrun, he, hdue] at hv

/-- When a roster has settled that was ready, all that is open runs and has time left.  No call is
    left whose wait was over. -/
theorem Ready.settle (h : Ready now r) :
    Settled now (r.settle now) ∧ Later r (r.settle now) ∧
      ∀ i t, Host.due? r.host i = some t → t ≤ now → ¬(r.settle now).IsOpen i := by
  -- First what is due happens, and then the turns are taken one after the other.
  have hripened : Mid now (r.ripened now) ∧ Later r (r.ripened now) := by
    have hearly : List.Sublist (r.earlyVerdicts now) (r.verdicts now) := List.filter_sublist
    obtain ⟨hm, hl⟩ := h.mid.closeAll hearly
    obtain ⟨hm', hl'⟩ := hm.ripen
    exact ⟨hm', hl.trans hl'⟩
  have hlast : (Mid now (r.settle now) ∧ Later (r.ripened now) (r.settle now)) ∧
      (Rests now (r.settle now).host ∧
        ∀ j ∈ (r.settle now).jobs, j.runner.isOpen = true → j.runner.isActive = true) ∧
      (r.settle now).verdicts now = [] := by
    refine settle_rests
      (P := fun s => Mid now s ∧ Later (r.ripened now) s)
      (Q := fun s => Rests now s.host ∧
        ∀ j ∈ s.jobs, j.runner.isOpen = true → j.runner.isActive = true)
      ?closing ?goOn ?lower ⟨hripened.1, .refl _⟩
    case closing =>
      rintro s ⟨hs, hl⟩
      obtain ⟨hs', hl'⟩ := hs.closeAll (List.Sublist.refl _)
      exact ⟨hs', hl.trans hl'⟩
    case goOn =>
      rintro s ⟨hs, hl⟩
      obtain ⟨hs', hl'⟩ := hs.goOn
      refine ⟨⟨hs', hl.trans hl'⟩, (LawfulHost.settle now hs.sound).2.2, ?_⟩
      intro j' hj' hopen
      obtain ⟨⟨j, i⟩, -, rfl⟩ := List.mem_map.mp hj'
      cases hrunner : j.runner <;> simp_all [Runner.activate, Runner.isOpen, Runner.isActive]
    case lower =>
      rintro s ⟨hs, -⟩ hne
      obtain ⟨⟨i, j, o⟩, hv⟩ := List.exists_mem_of_ne_nil _ hne
      obtain ⟨hs', hl'⟩ := hs.closeAll (List.Sublist.refl _)
      have hj := (mem_verdicts.mp hv).1
      refine (hl'.trans hs'.goOn.2).openCount_lt (i := i)
        ⟨j, hj, isOpen_of_isActive (isActive_of_mem_verdicts hv)⟩ fun ho => ?_
      -- The runner that gave its verdict has closed the job.
      obtain ⟨k, hk, hopen⟩ := hs'.goOn.2.isOpen_of ho
      rw [getElem?_jobs_closeAll_of_mem now (nodup_verdicts now s) hv
        (List.getElem?_eq_some_iff.mp hj).1, Option.some.injEq] at hk
      subst hk
      exact Bool.false_ne_true hopen
  obtain ⟨⟨hmid, hlater⟩, ⟨hrests, hactive⟩, hnone⟩ := hlast
  -- No verdict is left, so whoever is open waits.
  have hwaits : ∀ i j, (r.settle now).jobs[i]? = some j → j.runner.isOpen = true →
      j.action.stage = .running ∧ Host.ended? (r.settle now).host i = none ∧
        ∀ t, j.runner.due? = some t → now < t := fun i j hj hopen =>
    waits_of_verdicts_eq_nil hnone hj (hactive j (List.mem_of_getElem? hj) hopen)
  have hlive : ∀ i, (r.settle now).IsOpen i → Live (r.settle now).host i := by
    rintro i ⟨j, hj, hopen⟩
    -- Its call has not ended, so it is in progress.
    rcases hmid.called i ⟨j, hj, hopen⟩ with hl | ⟨e, he, -⟩
    · exact hl
    · exact nomatch he.symm.trans (hwaits i j hj hopen).2.1
  refine ⟨⟨hmid.toWatched, ?ahead, hlive, ?runs, hrests⟩, hripened.2.trans hlater, ?done⟩
  case ahead =>
    intro j hj t ht
    obtain ⟨i, hi⟩ := List.getElem?_of_mem hj
    have hopen : j.runner.isOpen = true := by
      cases hr : j.runner <;> rw [hr] at ht
      · exact nomatch ht
      · rfl
      · rfl
      · exact nomatch ht
    exact (hwaits i j hi hopen).2.2 t ht
  case runs =>
    intro j hj hopen
    obtain ⟨i, hi⟩ := List.getElem?_of_mem hj
    exact ⟨hactive j hj hopen, (hwaits i j hi hopen).1⟩
  case done =>
    intro i t hdue ht hopen
    exact h.mid.not_live_ripened hdue ht (hlater.live i (hlive i hopen))

/-- What the jobs of a roster that is ready keep as runners give their verdicts, as the host goes on
    and as runners begin to watch, they keep when the roster settles. -/
theorem Ready.settle_induction {P : Roster τ π ρ κ → Prop} (h : Ready now r)
    (closing : ∀ s vs, Mid now s → List.Sublist vs (s.verdicts now) → P s →
      P (s.closeAll now vs))
    (runs : ∀ s k, Mid now s → Host.Runs Live now s.host k → P s → P { s with host := k })
    (activate : ∀ s isPrompt, P s → P (s.activated isPrompt)) (hr : P r) :
    P (r.settle now) := by
  refine (settle_phases (P := fun s => Mid now s ∧ P s) ?closing ?ripen ?goOn ⟨h.mid, hr⟩).2
  -- Settling goes in phases, and in each the roster is in the middle of it.
  case closing =>
    rintro s vs hvs ⟨hs, hp⟩
    exact ⟨(hs.closeAll hvs).1, closing s vs hs hvs hp⟩
  case ripen =>
    rintro s ⟨hs, hp⟩
    exact ⟨hs.ripen.1, runs s _ hs (LawfulHost.ripen now hs.sound).2.1 hp⟩
  case goOn =>
    rintro s ⟨hs, hp⟩
    refine ⟨hs.goOn.1, ?_⟩
    rw [goOn_eq]
    exact activate _ _ (runs s _ hs (LawfulHost.settle now hs.sound).2.1 hp)

/-! ## From instant to instant -/

omit [LawfulHost κ] [DecidableEq π] in
/-- A runner with a deadline is open. -/
theorem isOpen_of_due? {x : Runner} {t : Nat} (h : x.due? = some t) : x.isOpen = true := by
  cases x with
  | fresh | active => rfl
  | absent | closed => exact nomatch h

/-- As long as a job is open, something is due. -/
theorem Settled.next? (h : Settled now r) {i : Nat} (hi : r.IsOpen i) :
    ∃ t, Timed.next? r = some t := by
  obtain ⟨t, ht, -⟩ := LawfulHost.rests h.sound h.rests (h.live i hi)
  obtain ⟨u, hu, -⟩ := Timed.earlier_le
    (b := Timed.earliest (r.jobs.map fun j => j.runner.due?)) (.inl ht)
  exact ⟨u, hu⟩

/-- Nothing is late until something is due next. -/
theorem Settled.ready_of_next {t : Nat} (h : Settled now r)
    (ht : ∀ u, Timed.next? r = some u → t ≤ u) : Ready t r := by
  refine h.ready fun j hj u hu => ?_
  obtain ⟨v, hv, hvu⟩ := Timed.earliest_le (hu ▸ List.mem_map_of_mem hj :
    some u ∈ r.jobs.map fun j => j.runner.due?)
  obtain ⟨w, hw, hwv⟩ := Timed.earlier_le (a := Timed.next? r.host) (.inr hv)
  have htw := ht w hw
  omega

/-- A settled roster is ready at the next instant at which something is due. -/
theorem Settled.ready_of_eq {t : Nat} (h : Settled now r) (ht : Timed.next? r = some t) :
    Ready t r := by
  refine h.ready_of_next fun u hu => ?_
  rw [ht, Option.some.injEq] at hu
  omega

/-- A roster that moves on to the next instant at which something is due settles there, and closes a
    job. -/
theorem steady : Timed.Steady (Settled (τ := τ) (π := π) (ρ := ρ) (κ := κ)) where
  next := by
    intro now t r h ht
    obtain ⟨hsettled, hlater, hdone⟩ := (h.ready_of_eq ht).settle
    have hcloses : ∃ i, r.IsOpen i ∧ ¬(r.settle t).IsOpen i ∧ now < t := by
      rcases Timed.earlier_eq_some ht with hhost | hjobs
      · -- The wait of a call is over, which belongs to an open job.
        obtain ⟨i, hlive, hdue⟩ := LawfulHost.next h.sound hhost
        obtain ⟨u, hu, hlt⟩ := LawfulHost.rests h.sound h.rests hlive
        rw [hhost, Option.some.injEq] at hu
        exact ⟨i, h.isOpen i hlive, hdone i t hdue (Nat.le_refl t), hu ▸ hlt⟩
      · -- A deadline is over, so a job that is still open has another one.
        obtain ⟨j, hj, hdue⟩ := List.mem_map.mp (Timed.mem_of_earliest hjobs)
        obtain ⟨i, hi⟩ := List.getElem?_of_mem hj
        refine ⟨i, ⟨j, hi, isOpen_of_due? hdue⟩, ?_, h.ahead j hj t hdue⟩
        rintro ⟨j', hj', hopen'⟩
        obtain ⟨k, hk, -, hsame⟩ := hlater.isOpen i j' hj' hopen'
        rw [hi, Option.some.injEq] at hk
        subst hk
        have hlt := hsettled.ahead j' (List.mem_of_getElem? hj') t (hsame.trans hdue)
        omega
    obtain ⟨i, hopen, hclosed, hlt⟩ := hcloses
    refine ⟨hlt, hsettled, ?_⟩
    have hcount := hlater.openCount_lt hopen hclosed
    have hload := hlater.load
    show Timed.load (r.settle t).host + (r.settle t).openCount < Timed.load r.host + r.openCount
    omega

/-- A job that is closed stays so as time goes on. -/
theorem Settled.later_of_moves {u : Nat} {r' : Roster τ π ρ κ} (h : Settled now r)
    (hm : Timed.Moves now r u r') : Later r r' := by
  induction hm with
  | refl => exact .refl _
  | step next _ ih =>
    have hready := h.ready_of_eq next
    exact hready.settle.2.1.trans (ih hready.settle.1)

/-! ## The log -/

omit [DecidableEq π] in
/-- Whether a roster is ready does not depend on its log. -/
theorem Ready.withLog (h : Ready now r) (log : List (Nat × Note τ ρ)) :
    Ready now { r with log := log } :=
  ⟨⟨h.sound, h.isOpen, h.unborn, h.isWatched⟩, h.ahead, h.live⟩

omit [DecidableEq π] in
/-- Whether a roster has settled does not depend on its log. -/
theorem Settled.withLog (h : Settled now r) (log : List (Nat × Note τ ρ)) :
    Settled now { r with log := log } :=
  ⟨⟨h.sound, h.isOpen, h.unborn, h.isWatched⟩, h.ahead, h.live, h.active, h.rests⟩

end Roster

end Federation
