import Federation.Proofs.Action.Verdict
import Federation.Proofs.Call.Alike

/-!
# Actions with different parameters

Of an action nobody sees with which parameters it was started, except those who ask to join it.  So
where nobody does, rosters whose actions were started with parameters that are alike, and whose hosts
do their work alike, are told apart by nothing: neither by outcomes, nor by instants, nor by what is
written down.

## Key results

- `Action.Alike.complete`: actions that differ in their parameters end alike
- `Roster.Alike.launch`, `Roster.Alike.cancel`: they are started and cancelled alike
- `Roster.mirrors`: and so rosters go on alike in time
-/

namespace Federation

variable {τ π ρ κ ω : Type} {Q : π → π → Prop} {M : κ → κ → Prop}

/-! ## Actions -/

/-- Two actions for which no callback is registered differ only in their parameters. -/
structure Action.Alike (Q : π → π → Prop) (a b : Action τ π ρ) : Prop where
  rest : b = { a with latest := b.latest }
  latest : Option.Rel Q a.latest b.latest
  callbacks : a.callbacks = []

namespace Action

variable {a b : Action τ π ρ}

/-- Actions that are alike differ in the parameters of their latest run only. -/
theorem Alike.exists_eq (h : Alike Q a b) :
    ∃ l, b = { a with latest := l } ∧ Option.Rel Q a.latest l ∧ a.callbacks = [] :=
  ⟨b.latest, h.rest, h.latest, h.callbacks⟩

/-- An action is started with the one parameters or the other. -/
theorem Alike.begin {p q : π} (hpq : Q p q) (now : Nat) (ha : a.callbacks = []) :
    Alike Q { a with stage := .running, latest := some p, startedAt := some now }
      { a with stage := .running, latest := some q, startedAt := some now } :=
  ⟨rfl, .some hpq, ha⟩

variable [DecidableEq π]

/-- Actions that are alike finish alike and tell the same. -/
theorem Alike.complete (h : Alike Q a b) (now : Nat) (o : Outcome ρ) :
    Alike Q (a.complete now o).1 (b.complete now o).1 ∧
      (b.complete now o).2 = (a.complete now o).2 := by
  have hself := h
  obtain ⟨l, rfl, hl, hquiet⟩ := h.exists_eq
  by_cases hrunning : a.stage = .running
  -- No callback is told, so none reacts to the parameters.
  · rw [complete_of_callbacks_nil now o hrunning hquiet,
      complete_of_callbacks_nil (a := { a with latest := l }) now o hrunning hquiet]
    exact ⟨⟨rfl, hl, hquiet⟩, rfl⟩
  · rw [complete_of_not_running now o hrunning,
      complete_of_not_running (a := { a with latest := l }) now o hrunning]
    exact ⟨hself, rfl⟩

end Action

/-! ## Jobs -/

/-- Two jobs differ only in the parameters of their actions. -/
structure Job.Alike (Q : π → π → Prop) (j k : Job τ π ρ) : Prop where
  action : Action.Alike Q j.action k.action
  runner : k.runner = j.runner

/-- What the runner of a job finds does not depend on the parameters of its action. -/
theorem Job.Alike.verdict? {j k : Job τ π ρ} (h : Job.Alike Q j k) (now : Nat)
    (ended : Option (Ending ρ)) : k.verdict? now ended = j.verdict? now ended := by
  obtain ⟨action, runner⟩ := j
  obtain ⟨other, runner'⟩ := k
  obtain ⟨haction, hrunner⟩ := h
  obtain rfl : runner' = runner := hrunner
  obtain ⟨l, rfl, -⟩ := haction.exists_eq
  rfl

/-! ## Rosters -/

namespace Roster

/-- The actions of two rosters differ only in their parameters, and the hosts do their work alike. -/
structure Alike (Q : π → π → Prop) (M : κ → κ → Prop) (r s : Roster τ π ρ κ) : Prop where
  host : M r.host s.host
  jobs : List.Forall₂ (Job.Alike Q) r.jobs s.jobs
  log : s.log = r.log

variable {r s : Roster τ π ρ κ}

/-- Rosters that are alike have as many open jobs. -/
theorem Alike.openCount (h : Alike Q M r s) : s.openCount = r.openCount := by
  have hopen (t : Roster τ π ρ κ) : t.openCount = (t.jobs.map Job.runner).countP Runner.isOpen := by
    rw [List.countP_map]
    rfl
  rw [hopen, hopen, map_eq_of_forall₂ (h.jobs.imp fun _ _ hj => ⟨hj.runner, hj⟩)]

/-- What is done with an action is done with both, and the same is written down. -/
theorem Alike.setAction (h : Alike Q M r s) {a b : Action τ π ρ} (hab : Action.Alike Q a b)
    (now i : Nat) (runner : Runner) (notes : List (Note τ ρ)) :
    Alike Q M
      ({ r with jobs := r.jobs.set i { action := a, runner := runner } }.record now notes)
      ({ s with jobs := s.jobs.set i { action := b, runner := runner } }.record now notes) :=
  ⟨h.host, rel_set h.jobs (x := ⟨a, runner⟩) (y := ⟨b, runner⟩) ⟨hab, rfl⟩ i,
    congrArg (· ++ notes.map fun n => (now, n)) h.log⟩

/-- Rosters that are alike stay so when the same job is cancelled, with the same result. -/
theorem Alike.cancel [DecidableEq π] (h : Alike Q M r s) (now i : Nat) :
    Alike Q M (r.cancel now i).1 (s.cancel now i).1 ∧ (s.cancel now i).2 = (r.cancel now i).2 := by
  have hjob := rel_getElem? h.jobs i
  unfold Roster.cancel
  generalize r.jobs[i]? = j, s.jobs[i]? = k at hjob
  -- Both rosters have the job, or neither has it.
  cases hjob with
  | none => exact ⟨h, rfl⟩
  | @some j k hjk =>
    obtain ⟨haction, htold⟩ := hjk.action.complete now .cancelled
    show Alike Q M
        ({ r with jobs := _ }.record now (j.action.complete now .cancelled).2.1)
        ({ s with jobs := _ }.record now (k.action.complete now .cancelled).2.1) ∧
      (k.action.complete now .cancelled).2.2 = (j.action.complete now .cancelled).2.2
    rw [htold, hjk.runner]
    exact ⟨h.setAction haction now i j.runner _, rfl⟩

variable [Host κ ω ρ] {R : ω → ω → Prop}

/-- A new action is started with the one parameters or the other. -/
theorem Alike.launch (hM : Host.Mirrors R M) (h : Alike Q M r s) {a : Action τ π ρ}
    (ha : a.stage = .idle) (hquiet : a.callbacks = []) {p q : π} (hpq : Q p q) {x y : ω}
    (hxy : R x y) (now : Nat) :
    Alike Q M ((r.add a).start now r.jobs.length p x).1
      ((s.add a).start now s.jobs.length q y).1 := by
  rw [launch_eq now p x r ha, launch_eq now q y s ha, ← h.jobs.length_eq]
  refine ⟨hM.submit _ hxy h.host, List.rel_append h.jobs (.cons ⟨?_, rfl⟩ .nil), ?_⟩
  · exact .begin hpq now hquiet
  · exact congrArg (· ++ _) h.log

/-! ## Time -/

/-- The same outcomes are found for jobs that are alike. -/
private def VerdictsAlike (Q : π → π → Prop) :
    List (Nat × Job τ π ρ × Outcome ρ) → List (Nat × Job τ π ρ × Outcome ρ) → Prop :=
  List.Forall₂ fun v w => w.1 = v.1 ∧ Job.Alike Q v.2.1 w.2.1 ∧ w.2.2 = v.2.2

/-- The same verdicts are reached on rosters that are alike. -/
theorem Alike.verdicts (hM : Host.Mirrors R M) (h : Alike Q M r s) (now : Nat) :
    VerdictsAlike Q (r.verdicts now) (s.verdicts now) := by
  refine List.rel_filterMap (fun x y hxy => ?_) (rel_zipIdx h.jobs 0)
  -- Jobs of the same number have runners that find the same.
  obtain ⟨j, i⟩ := x
  obtain ⟨k, i'⟩ := y
  obtain ⟨hjk, hi⟩ := hxy
  obtain rfl : i' = i := hi
  dsimp only
  rw [hM.ended? h.host, hjk.verdict?]
  cases j.verdict? now ((Host.ended? r.host i').map Ended.ending) with
  | none => exact .none
  | some o => exact .some ⟨rfl, hjk, rfl⟩

/-- The same early verdicts are reached on rosters that are alike. -/
theorem Alike.earlyVerdicts (hM : Host.Mirrors R M) (h : Alike Q M r s) (now : Nat) :
    VerdictsAlike Q (r.earlyVerdicts now) (s.earlyVerdicts now) :=
  List.rel_filter (fun v w hvw => by
    show v.2.1.runner.overtakes = true ↔ w.2.1.runner.overtakes = true
    rw [hvw.2.1.runner]) (h.verdicts hM now)

/-- Rosters stay alike when their hosts ripen. -/
theorem Alike.ripen (hM : Host.Mirrors R M) (h : Alike Q M r s) (now : Nat) :
    Alike Q M { r with host := Host.ripen now r.host } { s with host := Host.ripen now s.host } :=
  ⟨hM.ripen now h.host, h.jobs, h.log⟩

/-- Rosters that are alike go on alike. -/
theorem Alike.goOn (hM : Host.Mirrors R M) (h : Alike Q M r s) (now : Nat) :
    Alike Q M (r.goOn now) (s.goOn now) := by
  have hhost := hM.settle now h.host
  refine ⟨hhost, List.rel_map (fun x y hxy => ?_) (rel_zipIdx h.jobs 0), h.log⟩
  -- Runners begin to watch as the hosts say, and these say the same.
  obtain ⟨j, i⟩ := x
  obtain ⟨k, i'⟩ := y
  obtain ⟨hjk, hi⟩ := hxy
  obtain rfl : i' = i := hi
  refine ⟨hjk.action, ?_⟩
  dsimp only
  rw [hjk.runner, hM.due? hhost]

variable [DecidableEq π]

/-- Rosters stay alike when the same verdicts are carried out. -/
theorem Alike.closeAll (hM : Host.Mirrors R M) (h : Alike Q M r s) (now : Nat)
    {vs ws : List (Nat × Job τ π ρ × Outcome ρ)} (hvs : VerdictsAlike Q vs ws) :
    Alike Q M (r.closeAll now vs) (s.closeAll now ws) := by
  refine List.rel_foldl (P := Alike Q M) (fun r s h v w hvw => ?_) h hvs
  obtain ⟨i, j, o⟩ := v
  obtain ⟨i', k, o'⟩ := w
  obtain ⟨hi, hjk, ho⟩ := hvw
  obtain rfl : i' = i := hi
  obtain rfl : o' = o := ho
  -- One verdict closes the jobs alike; the others follow one after the other.
  obtain ⟨haction, htold⟩ := hjk.action.complete now o'
  show Alike Q M (r.close now i' j o') (s.close now i' k o')
  unfold Roster.close
  dsimp only
  rw [htold]
  exact Alike.setAction (r := { r with host := _ }) (s := { s with host := _ })
    ⟨hM.abort i' h.host, h.jobs, h.log⟩ haction now i' .closed _

/-- Rosters that are alike take their turns alike. -/
theorem Alike.turn (hM : Host.Mirrors R M) (h : Alike Q M r s) (now : Nat) :
    Option.Rel (Alike Q M) (r.turn now) (s.turn now) := by
  have hvs := h.verdicts hM now
  unfold Roster.turn
  generalize r.verdicts now = vs, s.verdicts now = ws at hvs
  cases hvs with
  | nil => exact .none
  | cons hv hvs => exact .some ((h.closeAll hM now (.cons hv hvs)).goOn hM now)

/-- Rosters that are alike settle alike. -/
theorem Alike.settle (hM : Host.Mirrors R M) (h : Alike Q M r s) (now : Nat) :
    Alike Q M (r.settle now) (s.settle now) := by
  have hearly := (h.closeAll hM now (h.earlyVerdicts hM now)).ripen hM now
  have hgone := (hearly.closeAll hM now (hearly.verdicts hM now)).goOn hM now
  unfold Roster.settle
  dsimp only
  rw [hgone.openCount]
  exact Timed.rel_exhaust (fun h => h.turn hM now) _ hgone

/-- Rosters that are alike go on alike in time. -/
theorem mirrors (hM : Host.Mirrors R M) (Q : π → π → Prop) :
    Timed.Mirrors (κ := Roster τ π ρ κ) (Alike Q M) where
  settle now _ _ h := h.settle hM now
  -- What is due next is due in the host or at a runner.
  next? {r s} h := by
    show Timed.earlier (Timed.next? s.host) (Timed.earliest (s.jobs.map (·.runner.due?))) =
      Timed.earlier (Timed.next? r.host) (Timed.earliest (r.jobs.map (·.runner.due?)))
    rw [hM.next? h.host,
      map_eq_of_forall₂ (h.jobs.imp fun _ _ hj => ⟨congrArg Runner.due? hj.runner, hj⟩)]
  load {r s} h := by
    show Timed.load s.host + s.openCount = Timed.load r.host + r.openCount
    rw [hM.load h.host, h.openCount]

end Roster

end Federation
