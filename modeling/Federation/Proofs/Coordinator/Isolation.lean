import Federation.Proofs.Action.Lasting
import Federation.Proofs.Coordinator.Each
import Federation.Proofs.Coordinator.Execute
import Mathlib

/-!
# Isolation

What happens at one provider in a fan-out does not depend on the others: neither on which of them
are addressed, nor on what they answer, nor on how long they take.

## Key results

- `passed_of_closed`: an action that has ended stays as it is, however long the others take
- `Reachable.quiet`: the events of all stations are collected at once
- `launchAll_at`: what launches at several targets do to one of them
- `station?_pass`, `station?_wait`: a station goes on as it would alone
- `Passed.result_eq`, `Passed.action?`: two rounds in which a target is called alike
- `execute_isolated`: two runs of an operation that have one target in common
-/

namespace Federation

open Roster (Ready Settled)

/-! ## One station -/

namespace Station

variable {now t u i : Nat} {s : Station}

/-- A station that has settled and moved on, and whose events were collected. -/
def passed (now t : Nat) (s : Station) : Station :=
  (Timed.advanceTo t (Timed.settle now s).collected).collected

/-- A station keeps its profile when its events are collected. -/
theorem profile_collected (s : Station) : s.collected.profile = s.profile := rfl

/-- A station keeps its name as it moves on. -/
theorem id_passed (now t : Nat) (s : Station) : (s.passed now t).id = s.id := by
  refine id_eq_of_profile ?_
  unfold passed
  rw [profile_collected, profile_advanceTo, profile_collected, profile_settle]

/-- The calls that a station has made of its provider: for which user, with which operation, and at
    which instant. -/
def calls (s : Station) : List (Subject × Option Operation × Option Nat) := s.roster.callsMade

/-- Collecting events is no call. -/
theorem calls_collected (s : Station) : s.collected.calls = s.calls := rfl

/-- Settling is no call. -/
theorem calls_settle (now : Nat) (s : Station) : (Timed.settle now s).calls = s.calls :=
  Roster.callsMade_settle now s.roster

/-- Time makes no call. -/
theorem calls_advanceTo (t : Nat) (s : Station) : (Timed.advanceTo t s).calls = s.calls :=
  Timed.runFor_induction (P := fun x : Station => x.calls = s.calls)
    (fun now x hx => (calls_settle now x).trans hx) _ t _ 0 rfl

/-- Time makes no calls. -/
theorem calls_passed (now t : Nat) (s : Station) : (s.passed now t).calls = s.calls := by
  unfold passed
  rw [calls_collected, calls_advanceTo, calls_collected, calls_settle]

/-- A station makes no call as it moves on. -/
theorem map_calls_passed (now t : Nat) (s? : Option Station) :
    (s?.map (passed now t)).map calls = s?.map calls := by
  cases s? with
  | none => rfl
  | some s => rw [Option.map_some, Option.map_some, calls_passed, Option.map_some]

/-- A station keeps its jobs when its events are collected. -/
theorem jobs_collected (s : Station) : s.collected.roster.jobs = s.roster.jobs := rfl

/-- An action that has ended stays as it is, however long time goes on. -/
theorem passed_of_closed (hs : Ready now s.roster) (hnow : now ≤ t) (hle : t ≤ u)
    {j : Job Unit Operation Output} (hclosed : j.runner.isOpen = false)
    (hj : (s.passed now t).roster.jobs[i]? = some j) :
    (s.passed now u).roster.jobs[i]? = some j := by
  unfold passed at hj ⊢
  rw [jobs_collected] at hj ⊢
  have hsettled : Settled now (Timed.settle now s).collected.roster := hs.settle.1.withLog []
  generalize (Timed.settle now s).collected = x at hj hsettled ⊢
  obtain ⟨v, w, hm⟩ := (steady fun _ _ => False).advanceTo_of_le (k := x)
    ⟨hsettled, fun _ => False.elim⟩ hnow hle
  exact Roster.getElem?_moves_of_closed hclosed hj (moves hm).1

/-- So does it matter not at which of two instants one looks. -/
theorem passed_eq_of_closed (hs : Ready now s.roster) (ht : now ≤ t) (hu : now ≤ u)
    {j k : Job Unit Operation Output}
    (hj : (s.passed now t).roster.jobs[i]? = some j) (jclosed : j.runner.isOpen = false)
    (hk : (s.passed now u).roster.jobs[i]? = some k) (kclosed : k.runner.isOpen = false) :
    j = k := by
  rcases Nat.le_total t u with hle | hle
  · exact Option.some.inj ((passed_of_closed hs ht hle jclosed hj).symm.trans hk)
  · exact Option.some.inj (hj.symm.trans (passed_of_closed hs hu hle kclosed hk))

end Station

namespace Coordinator

variable {c c₁ c' d d₁ d' : Coordinator} {p : ProviderId} {o : Operation}
  {kept : ProviderId × Nat → Prop}

/-! ## Collected events -/

/-- The events of all stations have been collected. -/
def Quiet (c : Coordinator) : Prop := c.Each fun s => s.roster.log = []

/-- A coordinator that has collected all events is quiet. -/
theorem quiet_collect (c : Coordinator) : c.collect.Quiet := by
  intro s hs
  obtain ⟨t, -, rfl⟩ := List.mem_map.mp hs
  rfl

/-- A quiet coordinator stays so through a launch. -/
theorem Quiet.launch (h : c.Quiet) (o : Operation) (localId : Provider → Except Fault String)
    (target : ProviderId) : (c.launch o localId target).1.Quiet := by
  cases hlocal : c.localIdAt o localId target with
  | error f =>
    rw [launch_refused hlocal]
    exact h
  | ok id =>
    obtain ⟨s, -, hlaunch⟩ := launch_called hlocal
    rw [hlaunch]
    exact quiet_collect _

/-- A quiet coordinator stays so through every step. -/
theorem Step.quiet (h : Step kept c c') (hc : c.Quiet) : c'.Quiet := by
  -- Whatever ends by collecting the events leaves nobody anything to tell.
  cases h with
  | launch o localId target => exact hc.launch o localId target
  | cancel job =>
    unfold cancelOne
    split
    · exact hc
    · exact quiet_collect _
  | serve q f =>
    intro s hs
    obtain ⟨t, ht, rfl⟩ := List.mem_map.mp hs
    split
    · exact hc t ht
    · exact hc t ht
  | settle => exact quiet_collect _
  | pass t => exact quiet_collect _
  | tell es => exact hc

/-- A quiet coordinator stays so, whatever is done with it. -/
theorem Steps.quiet (h : Steps kept c c') (hc : c.Quiet) : c'.Quiet := by
  induction h with
  | refl => exact hc
  | tail _ step ih => exact step.quiet ih

/-- A coordinator that was made from a blueprint is quiet, whatever has been done with it. -/
theorem Reachable.quiet {b : Blueprint} (h : c.Reachable b) : c.Quiet := by
  obtain ⟨c₀, hbuild, hsteps⟩ := h.built
  refine hsteps.quiet fun s hs => ?_
  obtain ⟨-, rfl⟩ := Blueprint.build_eq_ok_iff.mp hbuild
  obtain ⟨q, -, rfl⟩ := List.mem_map.mp hs
  rfl

/-- At a station of a quiet coordinator there is nothing left to collect. -/
theorem Quiet.collected (h : c.Quiet) {s : Station} (hs : c.station? p = some s) :
    s.collected = s := by
  have hlog := h s (station?_eq_some hs).1
  obtain ⟨capabilities, deadline, host, jobs, log⟩ := s
  obtain rfl : log = [] := hlog
  rfl

/-- Where all events have been collected, a station that is left alone stays as it is. -/
theorem Idle.station?_eq (h : Idle p c c') (hc : c.Quiet) (hc' : c'.Quiet) :
    c'.station? p = c.station? p := by
  cases hs : c.station? p with
  | none => exact h.eq_none hs
  | some s =>
    obtain ⟨s', hs', -⟩ := h.station? hs
    unfold Idle at h
    rw [hs, hs', Option.map_some, Option.map_some, hc.collected hs, hc'.collected hs'] at h
    rw [hs', h]

/-! ## Launches -/

/-- The name of a user at a target depends on its station only. -/
theorem localIdAt_congr {l l' : Provider → Except Fault String}
    (same : d.station? p = c.station? p)
    (hl : ∀ s, c.station? p = some s → l' s.provider = l s.provider) :
    d.localIdAt o l' p = c.localIdAt o l p := by
  unfold localIdAt
  rw [same]
  cases hs : c.station? p with
  | none => rfl
  | some s =>
    dsimp only
    rw [hl s hs]

/-- A launch at a provider depends on its station and on the local identifier only. -/
theorem launch_congr {l l' : Provider → Except Fault String} (now : d.now = c.now)
    (same : d.station? p = c.station? p) (named : d.localIdAt o l' p = c.localIdAt o l p) :
    (d.launch o l' p).1.station? p = (c.launch o l p).1.station? p ∧
      (d.launch o l' p).2 = (c.launch o l p).2 := by
  -- The target refuses in both coordinators, or it is called in both under the same name.
  cases hlocal : c.localIdAt o l p with
  | error f =>
    rw [launch_refused hlocal, launch_refused (named.trans hlocal)]
    exact ⟨same, rfl⟩
  | ok id =>
    obtain ⟨s, hs, hlaunch⟩ := launch_called hlocal
    obtain ⟨s', hs', hlaunch'⟩ := launch_called (named.trans hlocal)
    obtain rfl := Option.some.inj (hs'.symm.trans (same.trans hs))
    have hid : (s'.launch c.now o id).1.id = p :=
      (Station.id_launch c.now o id s').trans (station?_eq_some hs).2
    rw [hlaunch, hlaunch', now]
    refine ⟨?_, rfl⟩
    rw [station?_put hid, station?_put hid, same]

/-- A quiet coordinator stays so through launches. -/
theorem quiet_launchAll (o : Operation)
    (xs : List (ProviderId × (Provider → Except Fault String))) (hc : c.Quiet) :
    (launchAll o xs c).1.Quiet :=
  (steps_launchAll (fun _ => False) o xs c).quiet hc

/-- What launches at several targets do to one of them is what the launch at it does. -/
theorem launchAll_at {xs : List (ProviderId × (Provider → Except Fault String))}
    {l : Provider → Except Fault String} (hc : c.Quiet) (hxs : (xs.map Prod.fst).Nodup)
    (hx : (p, l) ∈ xs) :
    (launchAll o xs c).1.station? p = (c.launch o l p).1.station? p ∧
      (c.launch o l p).2 ∈ (launchAll o xs c).2 := by
  induction xs generalizing c with
  | nil => exact absurd hx List.not_mem_nil
  | cons x xs ih =>
    obtain ⟨target, localId⟩ := x
    obtain ⟨htarget, hrest⟩ := List.nodup_cons.mp hxs
    have hq := hc.launch o localId target
    rcases List.mem_cons.mp hx with heq | hmem
    -- Those that are launched later leave the station alone.
    · obtain ⟨rfl, rfl⟩ := Prod.mk.inj heq
      have hidle := idle_launchAll o htarget (c.launch o l p).1
      exact ⟨hidle.station?_eq hq (quiet_launchAll o xs hq), List.mem_cons_self⟩
    -- So does the one before.
    · have hne : p ≠ target := by
        rintro rfl
        exact htarget (List.mem_map.mpr ⟨_, hmem, rfl⟩)
      have hsame := (idle_launch hne c o localId).station?_eq hc hq
      obtain ⟨hstation, hentry⟩ := ih hq hrest hmem
      have hnamed : (c.launch o localId target).1.localIdAt o l p = c.localIdAt o l p :=
        localIdAt_congr hsame fun _ _ => rfl
      obtain ⟨hlaunch, hlaunched⟩ :=
        launch_congr (now_launch c o localId target) hsame hnamed
      refine ⟨hstation.trans hlaunch, List.mem_cons_of_mem _ ?_⟩
      rw [← hlaunched]
      exact hentry

/-! ## Waiting -/

/-- The station of a provider moves on by itself. -/
theorem station?_pass (c : Coordinator) (t : Nat) (p : ProviderId) :
    (c.settle.advanceTo t).station? p = (c.station? p).map (Station.passed c.now t) := by
  unfold Coordinator.station?
  have hstations : (c.settle.advanceTo t).stations = c.stations.map (Station.passed c.now t) := by
    simp only [advanceTo, Timed.advanceAll, settle, collect, List.map_map]
    rfl
  rw [hstations, List.find?_map]
  refine congrArg _ (List.find?_congr fun s _ => ?_)
  rw [Function.comp_apply, Station.id_passed]

/-- Where all providers are different, the result for one of them is that of its entry. -/
theorem get?_outcomes {b : Batch} {e : Batch.Entry} (hb : b.targets.Nodup) (he : e ∈ b.entries) :
    (c.outcomes b).get? e.provider = c.result? e := by
  let results := b.entries.filterMap fun e => (c.result? e).map fun r => (e.provider, r)
  -- Different entries belong to different providers, and so do their results.
  have hkeys : (results.map Prod.fst).Nodup := by
    refine List.pairwise_map.mpr (List.Pairwise.filterMap _ ?_ (List.pairwise_map.mp hb))
    intro e₁ e₂ hne x hx y hy
    obtain ⟨r, -, rfl⟩ := Option.map_eq_some_iff.mp hx
    obtain ⟨r', -, rfl⟩ := Option.map_eq_some_iff.mp hy
    exact hne
  have hentries : (c.outcomes b).entries = results := Outcomes.entries_ofList hkeys
  have hproviders : (c.outcomes b).providers.Nodup := by
    rw [Outcomes.providers, hentries]
    exact hkeys
  refine Option.ext fun r => ?_
  rw [Outcomes.get?_eq_some_iff hproviders, hentries, List.mem_filterMap]
  constructor
  · rintro ⟨e', he', hr⟩
    obtain ⟨r', hr', heq⟩ := Option.map_eq_some_iff.mp hr
    obtain ⟨hp, rfl⟩ := Prod.mk.inj heq
    obtain rfl := List.inj_on_of_nodup_map hb he' he hp
    exact hr'
  · intro hr
    exact ⟨e, he, by rw [hr]; rfl⟩

/-- As long as a fan-out is not complete, time passes up to the limit. -/
theorem wait_cases (b : Batch) {limit : Nat} (h : c.now ≤ limit) :
    (∃ t out, c.now ≤ t ∧ t ≤ limit ∧ c.wait limit b =
      ((c.settle.advanceTo t).tell [.completed (summary out)], some out)) ∨
      c.wait limit b = (c.settle.advanceTo limit, none) := by
  unfold wait await
  cases hmeet : Timed.meeting? b.isDoneAt limit c.settle.now c.settle.stations with
  | none => exact .inr (by simp only [hmeet])
  | some t =>
    have hle : t ≤ limit := Timed.meeting?_le hmeet h
    exact .inl ⟨t, (c.settle.advanceTo t).outcomes b, Timed.le_meeting? hmeet, hle,
      by simp only [hmeet]⟩

/-- Until a fan-out is complete, its stations go on as they would without waiting. -/
theorem station?_wait {b : Batch} {limit last : Nat} {out : Outcomes Output}
    (ended : c.wait last b = (c', some out)) (hnow : c.now ≤ limit) (hle : limit ≤ c'.now)
    (p : ProviderId) :
    (c.wait limit b).1.station? p = (c.station? p).map (Station.passed c.now limit) := by
  rw [← station?_pass]
  rcases wait_cases b hnow with ⟨t, out', -, ht, hwait⟩ | hwait
  · obtain ⟨rfl, -⟩ := eq_of_wait ended fun limit' hl => wait_mono hwait hl
    obtain rfl : t = limit := Nat.le_antisymm ht hle
    rw [hwait]
    rfl
  · rw [hwait]

/-- Launches take no time. -/
theorem now_launchAll (o : Operation)
    (xs : List (ProviderId × (Provider → Except Fault String))) (c : Coordinator) :
    (launchAll o xs c).1.now = c.now := by
  induction xs generalizing c with
  | nil => rfl
  | cons x xs ih => exact (ih (c.launch o x.2 x.1).1).trans (now_launch c o x.2 x.1)

/-- An entry belongs to its target. -/
theorem Begins.provider {l : Provider → Except Fault String} {e : Batch.Entry}
    (h : Begins c c' o l p e) : e.provider = p := by
  cases h <;> rfl

/-! ## Rounds -/

/-- What a round of launches that has ended has done at one of its targets.  The target was called
    as if it was called alone, and then it went on as it would alone; its action has ended. -/
structure Passed (c c₁ c' : Coordinator) (o : Operation) (l : Provider → Except Fault String)
    (p : ProviderId) (es : List Batch.Entry) (out : Outcomes Output) : Prop where
  now_le : c.now ≤ c'.now
  ready : (c.launch o l p).1.Sound
  launched : c₁.station? p = (c.launch o l p).1.station? p
  entry : (c.launch o l p).2 ∈ es
  provider : (c.launch o l p).2.provider = p
  station? : c'.station? p = ((c.launch o l p).1.station? p).map (Station.passed c.now c'.now)
  result : out.get? p = c'.result? (c.launch o l p).2
  known : ∃ r, out.get? p = some r
  closed : ∀ i, (c.launch o l p).2 = .launched p i → ∃ s j u, c'.station? p = some s ∧
    s.roster.jobs[i]? = some j ∧ j.runner.isOpen = false ∧ j.action.finishedAt = some u

/-- A round of launches comes to an end, when all its jobs are closed. -/
theorem launchAll_ends {xs : List (ProviderId × (Provider → Except Fault String))}
    {es : List Batch.Entry} (hc : c.Sound) (hxs : (xs.map Prod.fst).Nodup)
    (launched : launchAll o xs c = (c₁, es)) :
    ∃ t out, c₁.now ≤ t ∧
      (∀ limit, t ≤ limit → c₁.wait limit ⟨o.name, es⟩ =
        ((c₁.settle.advanceTo t).tell [.completed (summary out)], some out)) ∧
      out = (c₁.settle.advanceTo t).outcomes ⟨o.name, es⟩ ∧
      ∀ job ∈ Batch.jobs ⟨o.name, es⟩, ∃ terms request,
        (c₁.settle.advanceTo t).Awaits terms request job ∧
        ∀ s, (c₁.settle.advanceTo t).station? job.1 = some s → ¬s.roster.IsOpen job.2 := by
  have hbegins := begins_launchAll o hxs hc
  have hc₁ := ((steps_launchAll (fun _ => False) o xs c).evolves hc).sound hc
  rw [launched] at hbegins hc₁
  have hawaits := awaits_of_begins hbegins
  -- Every job is on its way under its terms, so that a time comes at which all are closed.
  obtain ⟨t, ht, hwait, hclosed⟩ := wait_eq hc₁ (b := ⟨o.name, es⟩) fun s hs i hi => by
    obtain ⟨terms, request, s', hs', ha⟩ := hawaits (s.id, i) hi
    obtain rfl := Option.some.inj ((hc₁.station?_id hs).symm.trans hs')
    exact .inl ⟨terms, ha.tracked⟩
  refine ⟨t, _, ht, hwait, rfl, fun job hjob => ?_⟩
  obtain ⟨terms, request, ha⟩ := hawaits job hjob
  refine ⟨terms, request, (evolves_pass (fun _ => True) hc₁ ht).awaits trivial ha, fun s hs => ?_⟩
  obtain ⟨hmem, hid⟩ := station?_eq_some hs
  exact hclosed s hmem job.2 (hid ▸ hjob)

/-- A round that has ended has passed at each of its targets. -/
theorem passed_of_wait {xs : List (ProviderId × (Provider → Except Fault String))}
    {l : Provider → Except Fault String} {es : List Batch.Entry} {limit : Nat}
    {out : Outcomes Output} (hc : c.Sound) (hq : c.Quiet) (hxs : (xs.map Prod.fst).Nodup)
    (hx : (p, l) ∈ xs) (launched : launchAll o xs c = (c₁, es))
    (ended : c₁.wait limit ⟨o.name, es⟩ = (c', some out)) : Passed c c₁ c' o l p es out := by
  obtain ⟨t, _, ht, hwait, rfl, hclosed⟩ := launchAll_ends hc hxs launched
  obtain ⟨rfl, rfl⟩ := eq_of_wait ended hwait
  have hbegins := begins_launchAll o hxs hc
  have hnow := now_launchAll o xs c
  obtain ⟨hstation, hentry⟩ := launchAll_at (o := o) hq hxs hx
  rw [launched] at hbegins hnow hstation hentry
  have hprovider := (begins_launch hc o l p).provider
  have htargets : (Batch.targets ⟨o.name, es⟩).Nodup := by
    have hkeys : es.map Batch.Entry.provider = xs.map Prod.fst :=
      map_eq_of_forall₂ (R := fun _ _ => True) (hbegins.imp fun _ _ h => ⟨h.provider, trivial⟩)
    show (es.map Batch.Entry.provider).Nodup
    rw [hkeys]
    exact hxs
  have hresult := get?_outcomes (c := c₁.settle.advanceTo t) htargets hentry
  rw [hprovider] at hresult
  have hjob : ∀ i, (c.launch o l p).2 = .launched p i → (p, i) ∈ Batch.jobs ⟨o.name, es⟩ :=
    fun i hi => List.mem_filterMap.mpr ⟨_, hentry, by rw [hi]; rfl⟩
  -- Each launch has left the other stations alone, and so has the wait.
  refine ⟨hnow ▸ ht, (evolves_launch (fun _ => False) hc o l p).sound hc, hstation, hentry,
    hprovider, ?station?, hresult, ?known, ?closed⟩
  case station? =>
    rw [← hstation, ← hnow]
    exact station?_pass c₁ t p
  case known =>
    rw [hresult]
    cases he : (c.launch o l p).2 with
    | resolved q f => exact ⟨.error f, rfl⟩
    | launched q i =>
      obtain rfl : q = p := by rwa [he] at hprovider
      obtain ⟨terms, request, ha, hshut⟩ := hclosed _ (hjob i he)
      obtain ⟨-, r, -, hr, -⟩ := ha.answer hshut
      exact ⟨r, hr⟩
  case closed =>
    intro i hi
    obtain ⟨terms, request, ⟨s, hs, ha⟩, hshut⟩ := hclosed _ (hjob i hi)
    obtain ⟨j, u, hj, jclosed, hu⟩ := ha.tracked.finished (hshut s hs)
    exact ⟨s, j, u, hs, hj, jclosed, hu⟩

variable {l l' : Provider → Except Fault String} {es fs : List Batch.Entry}
  {out out' : Outcomes Output}

/-- The action of a job is found at its station. -/
theorem action?_of_station? {s : Station} (hs : c.station? p = some s) (i : Nat) :
    c.action? (p, i) = s.action? i := by
  unfold action?
  rw [hs, Option.bind_some]

/-- The action of a target is the same in two rounds in which the target is called alike. -/
theorem Passed.action? (h : Passed c c₁ c' o l p es out) (h' : Passed d d₁ d' o l' p fs out')
    (now : d.now = c.now) (same : d.station? p = c.station? p)
    (named : d.localIdAt o l' p = c.localIdAt o l p) {i : Nat}
    (hi : (c.launch o l p).2 = .launched p i) :
    ∃ a u, c'.action? (p, i) = some a ∧ d'.action? (p, i) = some a ∧ a.finishedAt = some u := by
  obtain ⟨hstation, hentry⟩ := launch_congr now same named
  obtain ⟨s, j, u, hs, hj, jclosed, hu⟩ := h.closed i hi
  obtain ⟨s', k, -, hs', hk, kclosed, -⟩ := h'.closed i (hentry.trans hi)
  -- Both stations have come from the one that made the call.
  obtain ⟨s₀, hs₀, rfl⟩ := Option.map_eq_some_iff.mp (h.station?.symm.trans hs)
  have hd := h'.station?.symm.trans hs'
  rw [hstation, hs₀, now] at hd
  obtain rfl := Option.some.inj hd
  have hready := h.ready.ready s₀ (station?_eq_some hs₀).1
  rw [now_launch] at hready
  obtain rfl := Station.passed_eq_of_closed hready h.now_le (now ▸ h'.now_le) hj jclosed hk kclosed
  refine ⟨j.action, u, ?_, ?_, hu⟩
  · rw [action?_of_station? hs, Station.action?, Roster.action?, hj, Option.map_some]
  · rw [action?_of_station? hs', Station.action?, Roster.action?, hk, Option.map_some]

/-- The result of a target is the same in two rounds in which the target is called alike. -/
theorem Passed.result_eq (h : Passed c c₁ c' o l p es out) (h' : Passed d d₁ d' o l' p fs out')
    (now : d.now = c.now) (same : d.station? p = c.station? p)
    (named : d.localIdAt o l' p = c.localIdAt o l p) : out'.get? p = out.get? p := by
  have hentry := (launch_congr now same named).2
  rw [h.result, h'.result, hentry]
  -- Either the entry is the result, or the action that was launched has it.
  cases he : (c.launch o l p).2 with
  | resolved q f => rfl
  | launched q i =>
    obtain rfl : q = p := by
      have hq := h.provider
      rw [he] at hq
      exact hq
    obtain ⟨a, u, ha, ha', -⟩ := h.action? h' now same named he
    unfold result?
    dsimp only
    rw [ha, ha']

/-! ## Two runs -/

/-- An operation that is run on some targets comes to an end, and it has passed at each of them. -/
theorem execute_ends (o : Operation) (external : String) {targets : Targets} (hc : c.Sound)
    (hq : c.Quiet) (target : p ∈ targets.listed c.ids) :
    ∃ c₁ c' es out, (∀ limit, c'.now ≤ limit →
        c.execute limit o external targets = (c', some out)) ∧
      (c.start o external targets).2.entries = es ∧
      Passed c c₁ c' o (Provider.localId external) p es out ∧
      ∀ limit, c.now ≤ limit → limit ≤ c'.now →
        (c.execute limit o external targets).1.station? p =
          (c₁.station? p).map (Station.passed c.now limit) := by
  cases hstarted : c.start o external targets with
  | mk c₁ batch =>
    obtain ⟨xs, hkeys, hxs, hlocal, hlaunched, hbatch⟩ := launches_of_start hc hstarted
    have hnow := now_launchAll o xs c
    rw [hlaunched] at hnow
    obtain ⟨t, out, ht, hwait, -⟩ := launchAll_ends hc hxs hlaunched
    rw [← hbatch] at hwait
    have hlast : ((c₁.settle.advanceTo t).tell [.completed (summary out)]).now = t := rfl
    generalize (c₁.settle.advanceTo t).tell [.completed (summary out)] = c' at hwait hlast
    subst hlast
    have hexecute (limit : Nat) : c.execute limit o external targets = c₁.wait limit batch := by
      unfold execute
      rw [hstarted]
    -- The target is one of the launches, so the round has passed at it.
    obtain ⟨⟨q, l⟩, hx, rfl⟩ : ∃ x ∈ xs, x.1 = p := by
      rw [← List.mem_map, hkeys, List.mem_eraseDups]
      exact target
    obtain rfl : l = Provider.localId external := hlocal _ hx
    have hended := hwait c'.now (Nat.le_refl _)
    refine ⟨c₁, c', batch.entries, out, fun limit hl => (hexecute limit).trans (hwait limit hl),
      rfl, passed_of_wait hc hq hxs hx hlaunched (hbatch ▸ hended), fun limit hl hle => ?_⟩
    rw [hexecute, ← hnow]
    exact station?_wait hended (hnow ▸ hl) hle q

/-- What happens at one provider does not depend on the others.  Two coordinators may be built from
    any blueprints and may have been used in any way; if they have the same station for a provider,
    that is, if its behaviour, its capabilities, its deadline and its state are the same, and if it
    is among the targets of both, then an operation that is run at the same instant has the same
    entry for it.  At any instant of both runs the station of the provider is the same, so it has
    received the same calls; it has also made the same calls in the end, and its action, if one was
    launched, is the same and has finished at the same instant, however long the others take. -/
theorem execute_isolated {b b' : Blueprint} (hc : c.Reachable b) (hd : d.Reachable b')
    (now : d.now = c.now) (same : d.station? p = c.station? p) (o : Operation) (external : String)
    {targets targets' : Targets} (target : p ∈ targets.listed c.ids)
    (target' : p ∈ targets'.listed d.ids) :
    ∃ c' d' out out' r,
      (∀ limit, c'.now ≤ limit → c.execute limit o external targets = (c', some out)) ∧
      (∀ limit, d'.now ≤ limit → d.execute limit o external targets' = (d', some out')) ∧
      out.get? p = some r ∧ out'.get? p = some r ∧
      (∀ limit, c.now ≤ limit → limit ≤ c'.now → limit ≤ d'.now →
        (d.execute limit o external targets').1.station? p =
          (c.execute limit o external targets).1.station? p) ∧
      (d'.station? p).map Station.calls = (c'.station? p).map Station.calls ∧
      ∃ e, e ∈ (c.start o external targets).2.entries ∧
        e ∈ (d.start o external targets').2.entries ∧ e.provider = p ∧
        ∀ i, e = .launched p i →
          ∃ a u, c'.action? (p, i) = some a ∧ d'.action? (p, i) = some a ∧
            a.finishedAt = some u := by
  obtain ⟨c₁, c', es, out, hended, hes, hpassed, hcourse⟩ :=
    execute_ends o external hc.sound hc.quiet target
  obtain ⟨d₁, d', fs, out', hended', hfs, hpassed', hcourse'⟩ :=
    execute_ends o external hd.sound hd.quiet target'
  -- Both launches at the target start from the same station, so they do the same.
  have hnamed : d.localIdAt o (Provider.localId external) p =
      c.localIdAt o (Provider.localId external) p := localIdAt_congr same fun _ _ => rfl
  obtain ⟨hlaunch, hentry⟩ := launch_congr now same hnamed
  obtain ⟨r, hr⟩ := hpassed.known
  refine ⟨c', d', out, out', r, hended, hended', hr,
    (hpassed.result_eq hpassed' now same hnamed).trans hr, ?course, ?calls,
    (c.launch o (Provider.localId external) p).2, ?entry, ?entry', hpassed.provider,
    fun i hi => hpassed.action? hpassed' now same hnamed hi⟩
  case course =>
    intro limit hl hle hle'
    rw [hcourse limit hl hle, hcourse' limit (now.symm ▸ hl) hle', hpassed.launched,
      hpassed'.launched, hlaunch, now]
  case calls =>
    rw [hpassed.station?, hpassed'.station?, hlaunch, Station.map_calls_passed,
      Station.map_calls_passed]
  case entry =>
    rw [hes]
    exact hpassed.entry
  case entry' =>
    rw [hfs, ← hentry]
    exact hpassed'.entry

/-- A provider that answers after 20 milliseconds is asked alone, and together with one that is
    unknown and with one that is asked before it and breaks off after 90. -/
theorem execute_isolated_broken :
    let ldap : Provider := .custom
      { id := ⟨"ldap"⟩, respond := fun _ _ => { delay := 20, ending := .returned (.ok .notFound) } }
    let okta : Provider := .custom
      { id := ⟨"okta"⟩, respond := fun _ _ => { delay := 90, ending := .crashed } }
    let b : Blueprint := { providers := [ldap] }
    let b' : Blueprint := { providers := [okta, ldap], deadlines := Table.empty.insert ⟨"okta"⟩ 95 }
    let c : Coordinator := { stations := b.providers.map b.station, engine := b.mergeEngine }
    let d : Coordinator := { stations := b'.providers.map b'.station, engine := b'.mergeEngine }
    let targets : Targets := .only [⟨"okta"⟩, ⟨"gone"⟩, ⟨"ldap"⟩]
    c.Reachable b ∧ d.Reachable b' ∧ d.station? ⟨"ldap"⟩ = c.station? ⟨"ldap"⟩ ∧
      ∃ c' d' out out',
        (∀ limit, c'.now ≤ limit → c.execute limit .readAll "jdoe" .all = (c', some out)) ∧
        (∀ limit, d'.now ≤ limit → d.execute limit .readAll "jdoe" targets = (d', some out')) ∧
        c'.now = 20 ∧ d'.now = 90 ∧
        out.get? ⟨"ldap"⟩ = some (.ok .notFound) ∧ out'.get? ⟨"ldap"⟩ = some (.ok .notFound) := by
  intro ldap okta b b' c d targets
  have hc : c.Reachable b := by
    refine ⟨fun p hp => ?_, c, rfl, .refl⟩
    obtain rfl := List.mem_singleton.mp hp
    exact ⟨rfl, rfl⟩
  have hd : d.Reachable b' := by
    refine ⟨fun p hp => ?_, d, rfl, .refl⟩
    rcases List.mem_cons.mp hp with rfl | hp
    · exact ⟨rfl, rfl⟩
    · obtain rfl := List.mem_singleton.mp hp
      exact ⟨rfl, rfl⟩
  have htarget : (⟨"ldap"⟩ : ProviderId) ∈ Targets.all.listed c.ids := .head _
  have htarget' : (⟨"ldap"⟩ : ProviderId) ∈ targets.listed d.ids := .tail _ (.tail _ (.head _))
  obtain ⟨c', d', out, out', r, hended, hended', hr, hr', -⟩ :=
    execute_isolated hc hd rfl rfl .readAll "jdoe" htarget htarget'
  refine ⟨hc, hd, rfl, c', d', out, out', hended, hended', ?_⟩
  -- Both runs have come to an end after 100 milliseconds, so their ends can be looked up there.
  have hnow : (c.execute 100 .readAll "jdoe" .all).1.now = 20 := by cbv
  have hget : (c.execute 100 .readAll "jdoe" .all).2.bind (·.get? ⟨"ldap"⟩) =
      some (.ok .notFound) := by cbv
  have hnow' : (d.execute 100 .readAll "jdoe" targets).1.now = 90 := by cbv
  have hsome' : (d.execute 100 .readAll "jdoe" targets).2.isSome = true := by cbv
  cases hrun : c.execute 100 .readAll "jdoe" .all with
  | mk x o =>
    rw [hrun] at hnow hget
    obtain ⟨o, rfl, hget⟩ := Option.bind_eq_some_iff.mp hget
    obtain ⟨rfl, rfl⟩ := eq_of_execute hrun hended
    obtain rfl := Option.some.inj (hr.symm.trans hget)
    cases hrun' : d.execute 100 .readAll "jdoe" targets with
    | mk y o' =>
      rw [hrun'] at hnow' hsome'
      obtain ⟨o', rfl⟩ := Option.isSome_iff_exists.mp hsome'
      obtain ⟨rfl, rfl⟩ := eq_of_execute hrun' hended'
      exact ⟨hnow, hnow', hr, hr'⟩

end Coordinator

end Federation
