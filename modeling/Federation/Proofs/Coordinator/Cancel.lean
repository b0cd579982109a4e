import Federation.Proofs.Coordinator.Progress
import Mathlib

/-!
# Cancelling a fan-out

However many ask for the results of a fan-out, they read the entries one after the other, each when
its result is known, while others may cancel the fan-out or do anything else.  Since a result stays
as it is once it is known, all of them get the same outcomes.  A cancellation decides the entries
whose actions still run, and those only; after it all entries are decided.

## Key results

- `Steps.result?_eq`: a result stays as it is once it is known
- `Shows.wait_eq`: waiting for a fan-out comes to an end, whatever has been cancelled
- `Collects.outcomes_eq`: what is read one after the other is what there is in the end
- `cancel_batch_spec`: what a cancellation does to a fan-out, and what those get who wait for it
-/

namespace Federation

open Roster (Settled)

/-! ## One station -/

namespace Station

variable {s : Station}

/-- A station has settled, and those who wait see of some of its actions what there is to be
    seen. -/
structure Shows (known : Nat → Prop) (now : Nat) (s : Station) : Prop where
  settled : Settled now s.roster
  fair : ∀ i, known i → ∃ a, s.action? i = some a ∧ a.IsFair

/-- What there is to be seen of an action is seen whatever is done to its station. -/
theorem keeps_fair (i : Nat) : Keeps fun s => ∃ a, s.action? i = some a ∧ a.IsFair where
  collected h := h
  launch h now o localId := by
    obtain ⟨a, ha, fair⟩ := h
    exact ⟨a, action?_launch ha now o localId, fair⟩
  cancel h now job := by
    obtain ⟨a, ha, fair⟩ := h
    obtain ⟨b, hb, hab⟩ := (keeps_becomes i a).cancel ⟨a, ha, .stays⟩ now job
    exact ⟨b, hb, fair.becomes hab⟩
  serve h f := h
  settle h now := by
    obtain ⟨a, ha, fair⟩ := h
    obtain ⟨b, hb, hab⟩ := (keeps_becomes i a).settle ⟨a, ha, .stays⟩ now
    exact ⟨b, hb, fair.becomes hab⟩

/-- A settled station goes on from instant to instant, and its actions stay to be seen. -/
theorem steady_shows (known : ProviderId → Nat → Prop) :
    Timed.Steady fun now s => Shows (known s.id) now s where
  next := by
    intro now t s h ht
    obtain ⟨hlt, hsettled, hload⟩ := Roster.steady.next h.settled ht
    refine ⟨hlt, ⟨hsettled, fun i hi => ?_⟩, hload⟩
    rw [id_eq_of_profile (profile_settle t s)] at hi
    exact (keeps_fair i).settle (h.fair i hi) t

end Station

namespace Coordinator

variable {c c' c'' : Coordinator} {kept : ProviderId × Nat → Prop} {b : Batch} {e : Batch.Entry}
  {r : Except Fault Output}

/-! ## Results -/

/-- Those who wait for a fan-out see of its actions what there is to be seen. -/
def Shows (c : Coordinator) (b : Batch) : Prop :=
  ∀ job ∈ b.jobs, ∃ a, c.action? job = some a ∧ a.IsFair

/-- Whether the action of an entry runs. -/
def runs (c : Coordinator) (e : Batch.Entry) : Bool :=
  e.job?.any fun job => (c.action? job).any Action.isRunning

/-- Whatever happens, a fan-out stays to be seen. -/
theorem Shows.steps (h : c.Shows b) (hc : c.Sound) (hsteps : Steps kept c c') : c'.Shows b := by
  intro job hjob
  obtain ⟨a, ha, fair⟩ := h job hjob
  obtain ⟨a', ha', hbecomes⟩ := hsteps.becomes hc ha
  exact ⟨a', ha', fair.becomes hbecomes⟩

/-- The result of an entry that was launched is that of its action. -/
theorem result?_launched {p : ProviderId} {i : Nat} {a : ProviderAction}
    (ha : c.action? (p, i) = some a) :
    c.result? (.launched p i) = a.published.map Outcome.toExcept := by
  rw [result?, ha, Option.bind_some]

/-- An entry that was launched runs as long as its action does. -/
theorem runs_launched {p : ProviderId} {i : Nat} {a : ProviderAction}
    (ha : c.action? (p, i) = some a) : c.runs (.launched p i) = a.isRunning := by
  rw [runs, Batch.Entry.job?, Option.any_some, ha, Option.any_some]

/-- An entry that was launched has a job. -/
theorem mem_jobs {p : ProviderId} {i : Nat} (he : Batch.Entry.launched p i ∈ b.entries) :
    (p, i) ∈ b.jobs :=
  List.mem_filterMap.mpr ⟨_, he, rfl⟩

/-- The result of an entry is known exactly if its action does not run. -/
theorem Shows.isSome_result? (h : c.Shows b) (he : e ∈ b.entries) :
    (c.result? e).isSome = !c.runs e := by
  cases e with
  | resolved p f => rfl
  | launched p i =>
    obtain ⟨a, ha, fair⟩ := h _ (mem_jobs he)
    rw [result?_launched ha, runs_launched ha, Option.isSome_map]
    -- A running action has published nothing, and one that finished has published its outcome.
    cases fair with
    | running stage published =>
      rw [published, (Action.isRunning_iff a).mpr stage]
      rfl
    | finished o stage published =>
      have hstatus : a.isRunning = false := Bool.eq_false_iff.mpr fun h =>
        nomatch stage.symm.trans ((Action.isRunning_iff a).mp h)
      rw [published, hstatus]
      rfl

/-- A result stays as it is once it is known. -/
theorem Steps.result?_eq (hsteps : Steps kept c c') (hc : c.Sound) (h : c.Shows b)
    (he : e ∈ b.entries) (hr : c.result? e = some r) : c'.result? e = some r := by
  cases e with
  | resolved p f => exact hr
  | launched p i =>
    obtain ⟨a, ha, fair⟩ := h _ (mem_jobs he)
    obtain ⟨a', ha', hbecomes⟩ := hsteps.becomes hc ha
    rw [result?_launched ha] at hr
    have hstage : a.stage ≠ .running := by
      intro hrunning
      rw [fair.published_of_running hrunning] at hr
      exact nomatch hr
    obtain rfl := hbecomes.eq_of_not_running hstage
    rw [result?_launched ha', hr]

/-- The outcomes of a fan-out stay as they are once all of them are known. -/
theorem Steps.outcomes_eq (hsteps : Steps kept c c') (hc : c.Sound) (h : c.Shows b)
    (known : ∀ e ∈ b.entries, ∃ r, c.result? e = some r) : c'.outcomes b = c.outcomes b := by
  refine congrArg Outcomes.ofList (List.filterMap_congr fun e he => ?_)
  obtain ⟨r, hr⟩ := known e he
  rw [hr, hsteps.result?_eq hc h he hr]

/-- When all results of a fan-out are known, its outcomes are for its targets. -/
theorem providers_outcomes (hb : b.targets.Nodup)
    (known : ∀ e ∈ b.entries, ∃ r, c.result? e = some r) :
    (c.outcomes b).providers = b.targets := by
  let xs := b.entries.map fun e => (e.provider, ())
  have hkeys : xs.map Prod.fst = b.targets := by
    rw [List.map_map]
    rfl
  have hall : List.Forall₂ (fun x e => ∃ r, c.result? e = some r ∧ e.provider = x.1 ∧ True)
      xs b.entries := by
    refine List.forall₂_map_left_iff.mpr (List.forall₂_same.mpr fun e he => ?_)
    obtain ⟨r, hr⟩ := known e he
    exact ⟨r, hr, rfl, trivial⟩
  have hentries := entries_outcomes (R := fun _ _ => True) b.operation (hkeys ▸ hb) hall
  rw [← hkeys]
  exact map_eq_of_forall₂ hentries

/-! ## Waiting -/

/-- Waiting for a fan-out comes to an end, whatever has been cancelled, and then all results are
    known. -/
theorem Shows.wait_eq (h : c.Shows b) (hc : c.Sound) :
    ∃ t, c.now ≤ t ∧
      (∀ limit, t ≤ limit → c.wait limit b =
        ((c.settle.advanceTo t).tell [.completed (summary ((c.settle.advanceTo t).outcomes b))],
          some ((c.settle.advanceTo t).outcomes b))) ∧
      ∀ e ∈ b.entries, ∃ r, (c.settle.advanceTo t).result? e = some r := by
  have hsettle : Steps (fun _ => False) c c.settle := .single (.settle c)
  have hshows := h.steps hc hsettle
  have hsound := (hsettle.evolves hc).sound hc
  -- Every job closes at some instant, at which the waiting stops.
  obtain ⟨t, hnow, hwait, hclosed⟩ := wait_closes (c := c) (b := b)
    (Station.steady_shows fun p i => (p, i) ∈ b.jobs) (fun h => h.settled)
    (fun h => isDoneAt_iff fun i hi => by
      obtain ⟨a, ha, fair⟩ := h.fair i hi
      exact h.settled.hasPublished_iff ha fair)
    fun s hs => ⟨hc.settled hs, fun i hi => by
      obtain ⟨a, ha, fair⟩ := hshows _ hi
      obtain ⟨s', hs', hj⟩ := action?_eq_some_iff.mp ha
      obtain rfl := Option.some.inj ((hsound.station?_id hs).symm.trans hs')
      exact ⟨a, hj, fair⟩⟩
  have hpass : Steps (fun _ => False) c (c.settle.advanceTo t) := .single (.pass t c hnow)
  have hsound' := (hpass.evolves hc).sound hc
  refine ⟨t, hnow, hwait, fun e he => Option.isSome_iff_exists.mp ?_⟩
  rw [(h.steps hc hpass).isSome_result? he]
  -- The job of the entry is closed, so its action does not run.
  cases e with
  | resolved p f => rfl
  | launched p i =>
    obtain ⟨a, ha, -⟩ := h.steps hc hpass _ (mem_jobs he)
    obtain ⟨s, hs, hj⟩ := action?_eq_some_iff.mp ha
    obtain ⟨hmem, hid⟩ := station?_eq_some hs
    obtain ⟨j, hjob, rfl⟩ := Option.map_eq_some_iff.mp hj
    have hopen : j.runner.isOpen = false := Bool.eq_false_iff.mpr fun hopen =>
      hclosed s hmem i (hid.symm ▸ mem_jobs he) ⟨j, hjob, hopen⟩
    have hnot := Roster.not_running_of_closed
      ((hsound'.ready s hmem).isWatched j (List.mem_of_getElem? hjob)) hopen
    rw [runs_launched ha, Bool.not_eq_true', Bool.eq_false_iff]
    exact fun hrun => hnot ((Action.isRunning_iff _).mp hrun)

/-- Someone who waits for some entries reads their results one after the other, each when it is
    known, while anything may happen to the coordinator. -/
inductive Collects : Coordinator → List Batch.Entry → List (ProviderId × Except Fault Output) →
    Coordinator → Prop
  | done (c : Coordinator) : Collects c [] [] c
  | next {c d c' : Coordinator} {e : Batch.Entry} {es : List Batch.Entry}
      {r : Except Fault Output} {rs : List (ProviderId × Except Fault Output)}
      (meanwhile : Steps (fun _ => False) c d) (known : d.result? e = some r)
      (rest : Collects d es rs c') : Collects c (e :: es) ((e.provider, r) :: rs) c'

/-- Reading results is done in the course of steps. -/
theorem Collects.steps {es : List Batch.Entry} {rs : List (ProviderId × Except Fault Output)}
    (h : Collects c es rs c') : Steps (fun _ => False) c c' := by
  induction h with
  | done => exact .refl
  | next meanwhile _ _ ih => exact meanwhile.trans ih

/-- What is read one after the other is what is known in the end, or at any time after it. -/
theorem Collects.eq_filterMap {es : List Batch.Entry}
    {rs : List (ProviderId × Except Fault Output)} (h : Collects c es rs c') (hc : c.Sound)
    (hb : c.Shows b) (hes : ∀ e ∈ es, e ∈ b.entries) (later : Steps (fun _ => False) c' c'') :
    rs = es.filterMap fun e => (c''.result? e).map fun r => (e.provider, r) := by
  -- Induction on what is read, where later results are read at later instants.
  induction h with
  | done => rfl
  | @next c d c' e es r rs meanwhile known rest ih =>
    have hd := (meanwhile.evolves hc).sound hc
    have hb' := hb.steps hc meanwhile
    have hstays :=
      Steps.result?_eq (rest.steps.trans later) hd hb' (hes e List.mem_cons_self) known
    rw [List.filterMap_cons, hstays, Option.map_some]
    exact congrArg _ (ih hd hb' (fun x hx => hes x (List.mem_cons_of_mem e hx)) later)

/-- Results read one after the other are those read at once at any later instant. -/
theorem Collects.outcomes_eq {rs : List (ProviderId × Except Fault Output)}
    (h : Collects c b.entries rs c') (hc : c.Sound) (hb : c.Shows b)
    (later : Steps (fun _ => False) c' c'') : Outcomes.ofList rs = c''.outcomes b := by
  rw [h.eq_filterMap hc hb (fun _ => id) later]
  rfl

/-! ## Cancellations -/

/-- The actions that run are those of the entries that run. -/
theorem running_eq (b : Batch) (c : Coordinator) : c.running b = b.entries.countP c.runs := by
  unfold running Batch.jobs
  rw [List.countP_filterMap]
  refine List.countP_congr fun e _ => ?_
  cases h : e.job? <;> simp [runs, h]

/-- Distinct targets have distinct jobs. -/
theorem nodup_jobs (h : b.targets.Nodup) : b.jobs.Nodup := by
  refine List.Pairwise.filterMap _ ?_ (List.pairwise_map.mp h)
  intro e₁ e₂ hne x hx y hy he
  cases e₁ with
  | resolved => exact nomatch hx
  | launched p i =>
    cases e₂ with
    | resolved => exact nomatch hy
    | launched q j =>
      obtain rfl := Option.some.inj hx
      obtain rfl := Option.some.inj hy
      exact hne (Prod.mk.inj he).1

/-- A cancellation decides the entries whose actions run, and leaves all others alone. -/
theorem result?_cancel (hb : b.targets.Nodup) (h : c.Shows b) (he : e ∈ b.entries) :
    (c.cancel b).1.result? e =
      if c.runs e = true then some (.error .cancelled) else c.result? e := by
  obtain ⟨-, -, haction⟩ := cancel_eq (nodup_jobs hb) c
  -- An entry resolved at the start has no action to cancel.
  cases e with
  | resolved p f => rfl
  | launched p i =>
    have hjob := mem_jobs he
    obtain ⟨a, ha, fair⟩ := h _ hjob
    have ha' := haction (p, i)
    rw [ha, Option.map_some, if_pos hjob] at ha'
    rw [result?_launched ha', result?_launched ha, runs_launched ha]
    by_cases hrun : a.isRunning = true
    · rw [if_pos hrun, (Action.complete_running _ _ ((Action.isRunning_iff a).mp hrun)).1]
      rfl
    · rw [if_neg hrun, Action.complete_of_not_running _ _ fun stage =>
        hrun ((Action.isRunning_iff a).mpr stage)]

/-- A fan-out all of whose results are known has no action that runs. -/
theorem Shows.decided (h : c.Shows b) (hb : b.targets.Nodup)
    (known : ∀ e ∈ b.entries, (c.result? e).isSome = true) :
    c.isFinished b = true ∧ (c.cancel b).2 = 0 := by
  -- An entry whose result is known has no action that runs.
  have hstage : ∀ job ∈ b.jobs, ∃ a, c.action? job = some a ∧ a.stage ≠ .running := by
    intro job hjob
    obtain ⟨a, ha, -⟩ := h job hjob
    obtain ⟨e, he, hej⟩ := List.mem_filterMap.mp hjob
    refine ⟨a, ha, fun hrun => ?_⟩
    have hnot := known e he
    rw [h.isSome_result? he, runs, hej, Option.any_some, ha, Option.any_some,
      (Action.isRunning_iff a).mpr hrun] at hnot
    exact nomatch hnot
  constructor
  · refine List.all_eq_true.mpr fun job hjob => ?_
    obtain ⟨a, ha, fair⟩ := h job hjob
    obtain ⟨a', ha', hnot⟩ := hstage job hjob
    obtain rfl := Option.some.inj (ha.symm.trans ha')
    obtain ⟨o, ho, -⟩ := fair.published_of_not_running hnot
    rw [ha, Option.any_some, Action.status_finished ho]
    exact Outcome.isTerminal_status o
  · rw [(cancel_eq (nodup_jobs hb) c).1]
    refine List.countP_eq_zero.mpr fun job hjob => ?_
    obtain ⟨a, ha, hnot⟩ := hstage job hjob
    rw [ha, Option.any_some]
    exact fun hrun => hnot ((Action.isRunning_iff a).mp hrun)

/-- What is known of a fan-out that has just been launched. -/
theorem shows_of_opened {o : Operation}
    {xs : List (ProviderId × (Provider → Except Fault String))}
    (opened : List.Forall₂ (fun x e => Opened c c' o x.2 x.1 e) xs b.entries) :
    b.targets = xs.map Prod.fst ∧ c'.Shows b := by
  refine ⟨map_eq_of_forall₂ (R := fun _ _ => True) (opened.imp fun x e h => ?_), fun job hjob => ?_⟩
  · cases h <;> exact ⟨rfl, trivial⟩
  · obtain ⟨e, he, hej⟩ := List.mem_filterMap.mp hjob
    obtain ⟨x, -, h⟩ := exists_of_mem_right opened he
    cases h with
    | refused => exact nomatch hej
    | called id i a named new action running published =>
      obtain rfl := Option.some.inj hej
      exact ⟨a, action, .running running published⟩

/-- What is known of a fan-out that has been started. -/
theorem shows_of_start {o : Operation} {external : String} {targets : Targets} (hc : c.Sound)
    (started : c.start o external targets = (c', b)) :
    b.targets.Nodup ∧ c'.Shows b ∧ Steps (fun _ => False) c c' := by
  obtain ⟨xs, -, hxs, -, hlaunched, -⟩ := launches_of_start hc started
  have hopened := opened_launchAll o hxs c
  have hsteps := steps_launchAll (fun _ => False) o xs c
  rw [hlaunched] at hopened hsteps
  obtain ⟨htargets, hshows⟩ := shows_of_opened hopened
  exact ⟨htargets ▸ hxs, hshows, hsteps⟩

/-- A fan-out that has been started may be cancelled at any instant of any run.  The cancellation
    tells how many of its entries had actions that ran.  From then on and for ever these are
    cancelled, all others have the results that they had, nothing of the fan-out runs, and there is
    nothing left to cancel.  Waiting for the fan-out comes to an end from any state of the run on.
    Whoever has waited for it in the course of the run has got the same outcomes, whether the
    results were read one after the other or at once, before or after any cancellation. -/
theorem cancel_batch_spec {blueprint : Blueprint} {c₁ c₂ : Coordinator} {o : Operation}
    {external : String} {targets : Targets} (hc : c.Reachable blueprint)
    (started : c.start o external targets = (c₁, b)) (run : Steps (fun _ => False) c₁ c₂) :
    ((c₂.cancel b).2 = b.entries.countP c₂.runs ∧
      ∀ c₃, Steps (fun _ => False) (c₂.cancel b).1 c₃ →
        (∀ e ∈ b.entries,
          (c₂.runs e = true ∧ c₃.result? e = some (.error .cancelled)) ∨
          (c₂.runs e = false ∧ ∃ r, c₂.result? e = some r ∧ c₃.result? e = some r)) ∧
        c₃.isFinished b = true ∧ (c₃.cancel b).2 = 0) ∧
    (∃ t c₃, Steps (fun _ => False) c₂ c₃ ∧ (c₃.outcomes b).providers = b.targets ∧
      ∀ limit, t ≤ limit → c₂.wait limit b = (c₃, some (c₃.outcomes b))) ∧
    (∀ d d' rs, Steps (fun _ => False) c₁ d → Collects d b.entries rs d' →
      Steps (fun _ => False) d' c₂ → Outcomes.ofList rs = c₂.outcomes b) ∧
    ∀ d d' limit out, Steps (fun _ => False) c₁ d → d.wait limit b = (d', some out) →
      Steps (fun _ => False) d' c₂ → out = c₂.outcomes b := by
  obtain ⟨hb, hshows₁, hlaunches⟩ := shows_of_start hc.sound started
  have hc₁ := (hlaunches.evolves hc.sound).sound hc.sound
  have hc₂ := (run.evolves hc₁).sound hc₁
  have hshows₂ := hshows₁.steps hc₁ run
  -- From any state on, waiting comes to an end, and then every result is known.
  have hwait : ∀ {d}, d.Sound → d.Shows b → ∃ t d', Steps (fun _ => False) d d' ∧
      (∀ e ∈ b.entries, ∃ r, d'.result? e = some r) ∧
      ∀ limit, t ≤ limit → d.wait limit b = (d', some (d'.outcomes b)) := by
    intro d hd hshows
    obtain ⟨t, hnow, hwait, hknown⟩ := hshows.wait_eq hd
    exact ⟨t, _, .tail (.single (.pass t d hnow)) (.tell _ _), hknown, hwait⟩
  refine ⟨⟨?_, fun c₃ after => ?_⟩, ?_, ?_, ?_⟩
  · rw [(cancel_eq (nodup_jobs hb) c₂).1, running_eq]
  · have hcancel := steps_cancelEach b.jobs c₂
    have hc' := (hcancel.evolves hc₂).sound hc₂
    have hshows' := hshows₂.steps hc₂ hcancel
    -- The cancellation decides every entry, and what is decided stays for ever.
    have hresults : ∀ e ∈ b.entries,
        (c₂.runs e = true ∧ c₃.result? e = some (.error .cancelled)) ∨
        (c₂.runs e = false ∧ ∃ r, c₂.result? e = some r ∧ c₃.result? e = some r) := by
      intro e he
      have hresult := result?_cancel hb hshows₂ he
      cases hruns : c₂.runs e with
      | true =>
        rw [if_pos hruns] at hresult
        exact .inl ⟨rfl, after.result?_eq hc' hshows' he hresult⟩
      | false =>
        rw [if_neg (by rw [hruns]; exact nofun)] at hresult
        obtain ⟨r, hr⟩ := Option.isSome_iff_exists.mp
          ((hshows₂.isSome_result? he).trans (by rw [hruns]; rfl))
        exact .inr ⟨rfl, r, hr, after.result?_eq hc' hshows' he (hresult.trans hr)⟩
    refine ⟨hresults, (hshows'.steps hc' after).decided hb fun e he => ?_⟩
    rcases hresults e he with ⟨-, h⟩ | ⟨-, r, -, h⟩ <;> rw [h] <;> rfl
  · obtain ⟨t, c₃, hsteps, hknown, hwait⟩ := hwait hc₂ hshows₂
    exact ⟨t, c₃, hsteps, providers_outcomes hb hknown, hwait⟩
  · intro d d' rs before collects after
    exact collects.outcomes_eq ((before.evolves hc₁).sound hc₁) (hshows₁.steps hc₁ before) after
  · intro d d' limit out before waited after
    have hd := (before.evolves hc₁).sound hc₁
    have hshows := hshows₁.steps hc₁ before
    obtain ⟨t, d'', hsteps, hknown, hwait⟩ := hwait hd hshows
    -- The caller has waited long enough, so the outcomes were complete and have not changed since.
    obtain ⟨rfl, rfl⟩ := eq_of_wait waited hwait
    exact (after.outcomes_eq ((hsteps.evolves hd).sound hd) (hshows.steps hd hsteps) hknown).symm

/-- A fan-out is cancelled when one of its targets has answered and another one has not. -/
theorem cancel_batch_spec_partly :
    let provider (name : String) (delay : Nat) : Provider :=
      .custom { id := ⟨name⟩, respond := fun _ _ => { delay, ending := .returned (.ok .notFound) } }
    let fast := provider "fast" 5
    let slow := provider "slow" 20
    let blueprint : Blueprint := { providers := [fast, slow] }
    let c : Coordinator :=
      { stations := blueprint.providers.map blueprint.station, engine := blueprint.mergeEngine }
    let started := c.start .readAll "jdoe" (.only [⟨"slow"⟩, ⟨"gone"⟩, ⟨"fast"⟩])
    let c₂ := started.1.settle.advanceTo 10
    c.Reachable blueprint ∧ Steps (fun _ => False) started.1 c₂ ∧ (c₂.cancel started.2).2 = 1 ∧
      ∀ c₃, Steps (fun _ => False) (c₂.cancel started.2).1 c₃ →
        c₃.isFinished started.2 = true ∧ (c₃.cancel started.2).2 = 0 ∧
        started.2.entries.map c₃.result? = [some (.error .cancelled),
          some (.error (.unknownProvider ⟨"gone"⟩)), some (.ok .notFound)] := by
  intro provider fast slow blueprint c started c₂
  have hc : c.Reachable blueprint := by
    refine ⟨fun p hp => ?_, c, rfl, .refl⟩
    rcases List.mem_cons.mp hp with rfl | hp
    · exact ⟨rfl, rfl⟩
    · obtain rfl := List.mem_singleton.mp hp
      exact ⟨rfl, rfl⟩
  have hstarted : c.start .readAll "jdoe" (.only [⟨"slow"⟩, ⟨"gone"⟩, ⟨"fast"⟩]) =
      (started.1, started.2) := rfl
  have hrun : Steps (fun _ => False) started.1 c₂ := .single (.pass 10 _ (Nat.zero_le 10))
  obtain ⟨⟨-, hcancelled⟩, -⟩ := cancel_batch_spec hc hstarted hrun
  refine ⟨hc, hrun, by cbv, fun c₃ after => ?_⟩
  obtain ⟨hresults, hfinished, hnone⟩ := hcancelled c₃ after
  refine ⟨hfinished, hnone, ?_⟩
  let slowly : Batch.Entry := .launched ⟨"slow"⟩ 0
  let gone : Batch.Entry := .resolved ⟨"gone"⟩ (.unknownProvider ⟨"gone"⟩)
  let quickly : Batch.Entry := .launched ⟨"fast"⟩ 0
  have hentries : started.2.entries = [slowly, gone, quickly] := by cbv
  -- The slow target has not answered when the fan-out is cancelled, and the others are decided.
  have hslow : c₃.result? slowly = some (.error .cancelled) := by
    have hruns : c₂.runs slowly = true := by cbv
    rcases hresults slowly (hentries ▸ List.mem_cons_self) with ⟨-, h⟩ | ⟨h, -⟩
    · exact h
    · exact absurd (h.symm.trans hruns) Bool.false_ne_true
  have hfast : c₃.result? quickly = some (.ok .notFound) := by
    have hruns : c₂.runs quickly = false := by cbv
    have hresult : c₂.result? quickly = some (.ok .notFound) := by cbv
    rcases hresults quickly (hentries ▸ by simp) with ⟨h, -⟩ | ⟨-, r, hr, h⟩
    · exact absurd (hruns.symm.trans h) Bool.false_ne_true
    · rw [h, ← hr, hresult]
  rw [hentries, List.map_cons, List.map_cons, List.map_cons, hslow, hfast]
  rfl

end Coordinator

end Federation
