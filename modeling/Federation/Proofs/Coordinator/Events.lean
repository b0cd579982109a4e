import Federation.Proofs.Coordinator.Cancel
import Federation.Proofs.Coordinator.Permutation

/-!
# What the observer is told

The observer of the federation is told of every action that is started and of every action that is
completed, each time there and then.  So between two instants the log of a coordinator becomes
longer by one event for each action that was launched, in the order of the launches, and by one for
each action that was completed, in some order, since different stations complete their actions
independently.

## Key results

- `finishes_settle`, `finishes_advanceTo`: what is told as time goes on
- `cancelEach_perm`: it makes no difference in which order actions are cancelled, but that their ends
  are told in that order
- `log_launchAll`: what is told when actions are launched
- `told_of_wait`: what is told of a round of launches that has ended
- `toldRounds_of_retries`: what is told of rounds of attempts
- `events_account`: what is told of an operation, and of the fetching of a user
-/

namespace Federation

/-! ## One station -/

namespace Station

/-- Whether the observer is told of all actions of a station, and nobody else. -/
def IsPlain (s : Station) : Prop := s.roster.IsPlain

/-- The actions of a station are plain, whatever is done with it. -/
theorem keeps_plain : Keeps IsPlain where
  collected h := h
  -- The new action has no callbacks and is followed; the old ones are not touched.
  launch {s} h now o localId := by
    intro i a ha
    have ha' : (s.launch now o localId).1.action? i = some a := ha
    rw [action?_launch_eq] at ha'
    split at ha'
    · obtain rfl := Option.some.inj ha'
      exact ⟨rfl, rfl⟩
    · exact h i a ha'
  cancel {s} h now job := by
    obtain ⟨is, hfinishes⟩ := Roster.finishes_cancel now job s.roster
    exact hfinishes.isPlain h
  serve h f := h
  settle {s} h now := by
    obtain ⟨is, hfinishes⟩ := Roster.finishes_settle now s.roster
    exact hfinishes.isPlain h

/-- The events of a station whose roster has completed some of its actions. -/
theorem events_eq {s t : Station} {is : List Nat} (h : Roster.Finishes is s.roster t.roster)
    (hs : s.IsPlain) (quiet : s.roster.log = []) :
    t.events.map Prod.snd =
      is.filterMap fun i => (t.action? i).bind fun a =>
        a.stage.outcome?.map fun o => Event.finished a.subject o.status := by
  have hlog : t.roster.log = farewells is t.roster.action? := by
    rw [h.log hs, quiet, List.nil_append]
  unfold events
  rw [hlog, farewells, List.map_filterMap, List.filterMap_filterMap]
  refine List.filterMap_congr fun i hi => ?_
  obtain ⟨a, now, o, -, running, -, ha⟩ := h.ended i hi
  have ha' : t.action? i = some (a.complete now o).1 := ha
  rw [ha, ha', (Action.complete_running now o running).1]
  rfl

end Station

namespace Coordinator

open Inference (Attempt Memory Results Retries absorbAll plan sources)

variable {c c' c'' : Coordinator} {kept : ProviderId × Nat → Prop} {t : Nat}

/-- Whether the observer is told of all actions, and nobody else. -/
def Plain (c : Coordinator) : Prop := c.Each Station.IsPlain

/-- Actions stay plain, whatever is done with the coordinator. -/
theorem Steps.plain (h : Steps kept c c') (hc : c.Plain) : c'.Plain :=
  h.each Station.keeps_plain hc

/-- All actions of a coordinator are plain. -/
theorem Reachable.plain {b : Blueprint} (h : c.Reachable b) : c.Plain := by
  obtain ⟨c₀, hbuild, hsteps⟩ := h.built
  refine hsteps.plain fun s hs => ?_
  obtain ⟨-, rfl⟩ := Blueprint.build_eq_ok_iff.mp hbuild
  obtain ⟨q, -, rfl⟩ := List.mem_map.mp hs
  exact fun i a ha => nomatch ha

/-! ## Time -/

/-- What the observer is told last of an action. -/
def farewell? (c : Coordinator) (job : ProviderId × Nat) : Option Event :=
  (c.action? job).bind fun a =>
    a.stage.outcome?.map fun o => .finished a.subject o.status

/-- Some actions have been completed, and the observer has been told of each of them. -/
structure Finishes (jobs : List (ProviderId × Nat)) (c c' : Coordinator) : Prop
    extends Ends jobs c.action? c'.action? where
  log : ∃ es, c'.log = c.log ++ es ∧ es.Perm (jobs.filterMap c'.farewell?)

/-- What was told last of some actions does not change when others end. -/
theorem Finishes.farewell?_eq {jobs jobs' : List (ProviderId × Nat)} (h : Finishes jobs c c')
    (k : Ends jobs' c'.action? c''.action?) :
    jobs.filterMap c''.farewell? = jobs.filterMap c'.farewell? := by
  refine List.filterMap_congr fun job hjob => ?_
  rw [farewell?, k.other job (h.disjoint k job hjob)]
  rfl

/-- Some actions of the coordinator finish, and then others. -/
theorem Finishes.trans {jobs jobs' : List (ProviderId × Nat)} (h : Finishes jobs c c')
    (k : Finishes jobs' c' c'') : Finishes (jobs ++ jobs') c c'' := by
  obtain ⟨es, hlog, hperm⟩ := h.log
  obtain ⟨es', hlog', hperm'⟩ := k.log
  refine ⟨h.toEnds.trans k.toEnds, es ++ es', ?_, ?_⟩
  · rw [hlog', hlog, List.append_assoc]
  · rw [List.filterMap_append, h.farewell?_eq k.toEnds]
    exact hperm.append hperm'

/-- The stations go on, each in its own way, and their events are collected. -/
theorem finishes_collect {f : Station → Station} (hc : c.ids.Nodup) (quiet : c.Quiet)
    (plain : c.Plain)
    (hf : ∀ s ∈ c.stations, (f s).id = s.id ∧
      ∃ is, Roster.Finishes is s.roster (f s).roster)
    (stations : c'.stations = c.stations.map fun s => (f s).collected)
    (log : c'.log =
      c.log ++ (Timed.chronicle (c.stations.flatMap fun s => (f s).events)).map Prod.snd) :
    ∃ jobs, Finishes jobs c c' := by
  have hf' : ∀ s ∈ c.stations, ∃ is, Roster.Finishes is s.roster (f s).roster :=
    fun s hs => (hf s hs).2
  choose! is his using hf'
  -- Stations keep their names, so actions are found again by theirs.
  have hstation : ∀ p, c'.station? p = (c.station? p).map fun s => (f s).collected := by
    intro p
    unfold station?
    rw [stations, List.find?_map]
    refine congrArg _ (List.find?_congr fun s hs => ?_)
    show decide ((f s).id = p) = decide (s.id = p)
    rw [(hf s hs).1]
  have haction : ∀ p i s, c.station? p = some s →
      c.action? (p, i) = s.action? i ∧ c'.action? (p, i) = (f s).action? i := by
    intro p i s hs
    refine ⟨by rw [action?, hs, Option.bind_some], ?_⟩
    rw [action?, hstation, hs, Option.map_some, Option.bind_some]
    rfl
  have hfind : ∀ s ∈ c.stations, c.station? s.id = some s := by
    intro s hs
    cases h : c.station? s.id with
    | none => exact absurd (List.mem_map_of_mem hs) (station?_eq_none_iff.mp h)
    | some t =>
      obtain ⟨ht, hid⟩ := station?_eq_some h
      rw [List.inj_on_of_nodup_map hc ht hs hid]
  -- Those that have finished at each station, named after it, have finished in the coordinator.
  refine ⟨c.stations.flatMap fun s => (is s).map fun i => (s.id, i), ⟨?nodup, ?other, ?ended⟩,
    ?log⟩
  case nodup =>
    refine List.nodup_flatMap.mpr ⟨fun s hs => ?_, ?_⟩
    · exact (his s hs).nodup.map fun i j h => (Prod.mk.inj h).2
    · refine (List.pairwise_map.mp hc).imp fun {s t} hne => ?_
      rw [Function.onFun, List.disjoint_left]
      intro job hs ht
      obtain ⟨i, -, rfl⟩ := List.mem_map.mp hs
      obtain ⟨j, -, h⟩ := List.mem_map.mp ht
      exact hne (Prod.mk.inj h).1.symm
  case other =>
    rintro ⟨p, i⟩ hjob
    cases hs : c.station? p with
    | none => rw [action?, action?, hstation, hs]; rfl
    | some s =>
      obtain ⟨hmem, rfl⟩ := station?_eq_some hs
      obtain ⟨hbefore, hafter⟩ := haction _ i s hs
      rw [hbefore, hafter]
      refine (his s hmem).other i fun hi => hjob ?_
      exact List.mem_flatMap.mpr ⟨s, hmem, List.mem_map_of_mem hi⟩
  case ended =>
    intro job hjob
    obtain ⟨s, hmem, hi⟩ := List.mem_flatMap.mp hjob
    obtain ⟨i, hi', rfl⟩ := List.mem_map.mp hi
    obtain ⟨hbefore, hafter⟩ := haction _ i s (hfind s hmem)
    rw [hbefore, hafter]
    exact (his s hmem).ended i hi'
  case log =>
    refine ⟨_, log, ((Timed.chronicle_perm _).map _).trans (.of_eq ?_)⟩
    rw [List.map_flatMap, List.filterMap_flatMap]
    refine List.flatMap_congr fun s hs => ?_
    rw [Station.events_eq (his s hs) (plain s hs) (quiet s hs), List.filterMap_map]
    refine List.filterMap_congr fun i _ => ?_
    rw [Function.comp_apply, farewell?, (haction _ i s (hfind s hs)).2]

/-- Settling finishes some actions of the coordinator, if any. -/
theorem finishes_settle (hc : c.ids.Nodup) (quiet : c.Quiet) (plain : c.Plain) :
    ∃ jobs, Finishes jobs c c.settle := by
  refine finishes_collect (f := Timed.settle c.now) hc quiet plain (fun s _ => ?_) ?_ ?_
  · exact ⟨Station.id_eq_of_profile (Station.profile_settle c.now s),
      Roster.finishes_settle c.now s.roster⟩
  · simp only [settle, collect, List.map_map, Function.comp_def]
  · simp only [settle, collect, List.flatMap_map]

/-- Time finishes some actions of the coordinator, if any. -/
theorem finishes_advanceTo (hc : c.ids.Nodup) (quiet : c.Quiet) (plain : c.Plain) (t : Nat) :
    ∃ jobs, Finishes jobs c (c.advanceTo t) := by
  have hfinishes : ∀ s : Station, ∃ is, Roster.Finishes is s.roster (Timed.advanceTo t s).roster :=
    fun s => Timed.runFor_induction
      (P := fun x : Station => ∃ is, Roster.Finishes is s.roster x.roster)
      (fun now x ⟨is, h⟩ => by
        obtain ⟨js, k⟩ := Roster.finishes_settle now x.roster
        exact ⟨is ++ js, h.trans k⟩) _ t _ 0 ⟨[], .refl _⟩
  refine finishes_collect (f := Timed.advanceTo t) hc quiet plain (fun s _ => ?_) ?_ ?_
  · exact ⟨Station.id_eq_of_profile (Station.profile_advanceTo t s), hfinishes s⟩
  · simp only [advanceTo, Timed.advanceAll, collect, List.map_map, Function.comp_def]
  · simp only [advanceTo, Timed.advanceAll, collect, List.flatMap_map]

/-- Time passes. -/
theorem finishes_pass (hc : c.Sound) (quiet : c.Quiet) (plain : c.Plain) (t : Nat) :
    ∃ jobs, Finishes jobs c (c.settle.advanceTo t) := by
  have hsettle : Steps (fun _ => False) c c.settle := .single (.settle c)
  obtain ⟨jobs, h⟩ := finishes_settle hc.nodup quiet plain
  obtain ⟨jobs', k⟩ := finishes_advanceTo (hsettle.evolves hc |>.sound hc).nodup
    (hsettle.quiet quiet) (hsettle.plain plain) t
  exact ⟨jobs ++ jobs', h.trans k⟩

/-! ## Cancellations -/

/-- As long as nothing happens, no actions finish. -/
theorem Finishes.refl (c : Coordinator) : Finishes [] c c :=
  ⟨.nil fun _ => rfl, [], (List.append_nil _).symm, .nil⟩

/-- A cancellation finishes one action of the coordinator at most. -/
theorem finishes_cancelOne (hc : c.ids.Nodup) (quiet : c.Quiet) (plain : c.Plain)
    (job : ProviderId × Nat) : ∃ jobs, Finishes jobs c (c.cancelOne job).1 := by
  unfold cancelOne
  cases hs : c.station? job.1 with
  | none => exact ⟨[], .refl c⟩
  | some s =>
    obtain ⟨hmem, hid⟩ := station?_eq_some hs
    refine finishes_collect
      (f := fun x => if x.id = job.1 then (s.cancel c.now job.2).1 else x) hc quiet plain
      (fun x hx => ?_) ?stations ?log
    case stations => simp only [collect, putStation, List.map_map, Function.comp_def]
    case log => simp only [collect, putStation, List.flatMap_map]
    -- The station of the job cancels it, and the others do nothing.
    by_cases hx' : x.id = job.1
    · obtain rfl := List.inj_on_of_nodup_map hc hx hmem (hx'.trans hid.symm)
      simp only [if_pos hx']
      exact ⟨Station.id_cancel c.now job.2 x, Roster.finishes_cancel c.now job.2 x.roster⟩
    · simp only [if_neg hx', true_and]
      exact ⟨[], .refl x.roster⟩

/-- Cancelling several actions finishes some of them, if any. -/
theorem finishes_cancelEach (hc : c.Sound) (quiet : c.Quiet) (plain : c.Plain)
    (jobs : List (ProviderId × Nat)) : ∃ ended, Finishes ended c (c.cancelEach jobs).1 := by
  let P (d : Coordinator) : Prop := Steps (fun _ => False) c d ∧ ∃ ended, Finishes ended c d
  have hP : P (c.cancelEach jobs).1 := by
    refine cancelEach_induction (P := P) (fun d job hd => ?_) jobs ⟨.refl, [], .refl c⟩
    obtain ⟨steps, ended, h⟩ := hd
    obtain ⟨last, k⟩ := finishes_cancelOne ((steps.evolves hc).sound hc).nodup (steps.quiet quiet)
      (steps.plain plain) job
    exact ⟨steps.tail (.cancel job d id), ended ++ last, h.trans k⟩
  exact hP.2

/-- In whatever order actions are visited that are to be cancelled, as many of them ran, the same
    become of all actions, and the observer is told of the same ends, if in another order. -/
theorem cancelEach_perm (hc : c.Sound) (quiet : c.Quiet) (plain : c.Plain)
    {jobs jobs' : List (ProviderId × Nat)} (h : jobs.Perm jobs') (hjobs : jobs.Nodup) :
    (c.cancelEach jobs').2 = (c.cancelEach jobs).2 ∧
      (∀ x, (c.cancelEach jobs').1.action? x = (c.cancelEach jobs).1.action? x) ∧
      (c.cancelEach jobs').1.log.Perm (c.cancelEach jobs).1.log := by
  obtain ⟨hcount, -, haction⟩ := cancelEach_eq hjobs c
  obtain ⟨hcount', -, haction'⟩ := cancelEach_eq (h.nodup_iff.mp hjobs) c
  have hsame : (c.cancelEach jobs').1.action? = (c.cancelEach jobs).1.action? := by
    funext x
    rw [haction', haction]
    simp only [h.mem_iff]
  refine ⟨hcount'.trans (h.symm.countP_eq _ |>.trans hcount.symm), congrFun hsame, ?_⟩
  obtain ⟨ended, hended⟩ := finishes_cancelEach hc quiet plain jobs
  obtain ⟨ended', hended'⟩ := finishes_cancelEach hc quiet plain jobs'
  -- The same actions have been completed in both orders, so the same have ended.
  have hperm := (hsame ▸ hended'.toEnds).perm hended.toEnds
  obtain ⟨es, hlog, hes⟩ := hended.log
  obtain ⟨es', hlog', hes'⟩ := hended'.log
  have hfarewell : (c.cancelEach jobs').1.farewell? = (c.cancelEach jobs).1.farewell? := by
    funext x
    rw [farewell?, hsame]
    rfl
  rw [hfarewell] at hes'
  rw [hlog, hlog']
  exact (hes'.trans ((hperm.filterMap _).trans hes.symm)).append_left c.log

/-! ## Launches -/

/-- The user about whom a target is called, if it is called. -/
def called? (c : Coordinator) (o : Operation)
    (x : ProviderId × (Provider → Except Fault String)) : Option Subject :=
  match c.localIdAt o x.2 x.1 with
  | .ok id => some (.account ⟨x.1, id⟩)
  | .error _ => none

/-- Where one station has events, these are the events of all. -/
private theorem flatMap_events_put {ss : List Station} {s t : Station}
    (hss : (ss.map Station.id).Nodup)
    (hs : s ∈ ss) (quiet : ∀ x ∈ ss, x.roster.log = []) :
    (ss.map fun x => if x.id = s.id then t else x).flatMap Station.events = t.events := by
  have hquiet : ∀ x ∈ ss, x.events = [] := by
    intro x hx
    rw [Station.events, quiet x hx, List.filterMap_nil]
  -- The other stations are quiet, so only the place of the one that was put matters.
  induction ss with
  | nil => exact absurd hs List.not_mem_nil
  | cons x ss ih =>
    obtain ⟨hx, hrest⟩ := List.nodup_cons.mp hss
    rw [List.map_cons, List.flatMap_cons]
    by_cases hid : x.id = s.id
    · have hnone : (ss.map fun y => if y.id = s.id then t else y).flatMap Station.events = [] := by
        rw [List.flatMap_map, List.flatMap_eq_nil_iff]
        intro y hy
        have hne : y.id ≠ s.id := fun he => hx (hid ▸ he ▸ List.mem_map_of_mem hy)
        rw [if_neg hne]
        exact hquiet y (List.mem_cons_of_mem x hy)
      rw [if_pos hid, hnone, List.append_nil]
    · have hmem : s ∈ ss := (List.mem_cons.mp hs).resolve_left fun he => hid (he ▸ rfl)
      rw [if_neg hid, hquiet x List.mem_cons_self, List.nil_append]
      exact ih hrest hmem (fun y hy => quiet y (List.mem_cons_of_mem x hy))
        fun y hy => hquiet y (List.mem_cons_of_mem x hy)

/-- What the observer is told when an action is launched. -/
theorem log_launch (hc : c.ids.Nodup) (quiet : c.Quiet) (o : Operation)
    (localId : Provider → Except Fault String) (target : ProviderId) :
    (c.launch o localId target).1.log =
      c.log ++ ((c.called? o (target, localId)).map Event.started).toList := by
  unfold called?
  cases hlocal : c.localIdAt o localId target with
  | error f =>
    rw [launch_refused hlocal]
    exact (List.append_nil _).symm
  | ok id =>
    obtain ⟨s, hs, hlaunch⟩ := launch_called hlocal
    obtain ⟨hmem, rfl⟩ := station?_eq_some hs
    have hlaunched := Roster.launch_eq (a := s.actionFor o id) c.now o ⟨o, id⟩ s.roster rfl
    have hevents : (s.launch c.now o id).1.events = [(c.now, .started (.account ⟨s.id, id⟩))] := by
      simp only [Station.events, Station.launch, hlaunched, quiet s hmem]
      rfl
    -- The other stations are quiet, so all that is collected comes from this one.
    have hall := flatMap_events_put (t := (s.launch c.now o id).1) hc hmem quiet
    rw [hlaunch]
    simp only [collect, putStation, hall, hevents, Timed.chronicle, List.mergeSort_singleton]
    rfl

/-- Whether a target is called depends on its name for the user only. -/
theorem called?_congr {o : Operation} {x : ProviderId × (Provider → Except Fault String)}
    (h : c'.localIdAt o x.2 x.1 = c.localIdAt o x.2 x.1) : c'.called? o x = c.called? o x := by
  unfold called?
  rw [h]

/-- What the observer is told when actions are launched at different targets. -/
theorem log_launchAll (hc : c.Sound) (quiet : c.Quiet) (o : Operation)
    {xs : List (ProviderId × (Provider → Except Fault String))} (hxs : (xs.map Prod.fst).Nodup) :
    (launchAll o xs c).1.log =
      c.log ++ xs.filterMap fun x => (c.called? o x).map Event.started := by
  induction xs generalizing c with
  | nil => exact (List.append_nil _).symm
  | cons x xs ih =>
    obtain ⟨target, localId⟩ := x
    obtain ⟨htarget, hrest⟩ := List.nodup_cons.mp hxs
    have hc' := (evolves_launch (fun _ => False) hc o localId target).sound hc
    -- The targets that are left are other ones, so they are called as they would have been before.
    have hsame :
        xs.filterMap (fun x => ((c.launch o localId target).1.called? o x).map Event.started) =
        xs.filterMap fun x => (c.called? o x).map Event.started := by
      refine List.filterMap_congr fun x hx => ?_
      have hne : x.1 ≠ target := fun he => htarget (List.mem_map.mpr ⟨x, hx, he⟩)
      rw [called?_congr ((idle_launch hne c o localId).localIdAt o x.2)]
    have hfirst : (launchAll o ((target, localId) :: xs) c).1 =
        (launchAll o xs (c.launch o localId target).1).1 := rfl
    rw [hfirst, ih hc' (quiet.launch o localId target) hrest, hsame,
      log_launch hc.nodup quiet, List.append_assoc]
    refine congrArg _ ?_
    rw [List.filterMap_cons]
    cases c.called? o (target, localId) <;> rfl

/-! ## Rounds -/

/-- The status that is told of an action with a result. -/
def statusOf : Except Fault Output → Status
  | .ok _ => .succeeded
  | .error .cancelled => .cancelled
  | .error _ => .failed

/-- The status of an outcome is read off its result, unless the result is mistaken for another. -/
theorem statusOf_toExcept {o : Outcome Output} (h : o ≠ .failed .cancelled) :
    statusOf o.toExcept = o.status := by
  cases o with
  | succeeded x => rfl
  | cancelled => rfl
  | failed f =>
    show statusOf (.error f) = .failed
    unfold statusOf
    split
    · next he => exact nomatch he
    · next he => exact absurd (congrArg Outcome.failed (Except.error.inj he)) h
    · rfl

/-- The ends of the actions of a round, given its outcomes. -/
def endsOf (c : Coordinator) (o : Operation)
    (xs : List (ProviderId × (Provider → Except Fault String))) (out : Outcomes Output) :
    List Event :=
  xs.filterMap fun x => (c.called? o x).bind fun user =>
    (out.get? x.1).map fun r => .finished user (statusOf r)

/-- Whether the action of a job runs. -/
def isRunning (c : Coordinator) (job : ProviderId × Nat) : Bool :=
  (c.action? job).any Action.isRunning

/-- What the observer is told of a round of launches: first that the actions are started, in the
    order of the targets; then that they are completed, in some order, among other actions that ran
    before and are completed meanwhile; and last of all the numbers of the round. -/
structure Told (c c' : Coordinator) (o : Operation)
    (xs : List (ProviderId × (Provider → Except Fault String))) (out : Outcomes Output) : Prop where
  distinct : (xs.map Prod.fst).Nodup
  providers : out.providers = xs.map Prod.fst
  total : out.successes.length + out.failures.length = xs.length
  log : ∃ (ends : List Event) (others : List (ProviderId × Nat)), c'.log =
      c.log ++ xs.filterMap (fun x => (c.called? o x).map Event.started) ++ ends ++
        [.completed ⟨xs.length, out.successes.length, out.failures.length⟩] ∧
    ends.Perm (c.endsOf o xs out ++ others.filterMap c'.farewell?) ∧ others.Nodup ∧
    ∀ job, job ∈ others ↔ c.isRunning job = true ∧ c'.isRunning job = false

/-- An action that was launched and has a result has been completed. -/
theorem Opened.mem {o : Operation} {l : Provider → Except Fault String} {p : ProviderId}
    {e : Batch.Entry} {c₁ d : Coordinator} {jobs : List (ProviderId × Nat)}
    {job : ProviderId × Nat} {r : Except Fault Output} (h : Opened c c₁ o l p e)
    (ends : Ends jobs c₁.action? d.action?) (known : d.result? e = some r)
    (hj : e.job? = some job) : c.action? job = none ∧ job ∈ jobs := by
  cases h with
  | refused => exact nomatch hj
  | called id i a named new action running published =>
    obtain rfl := Option.some.inj hj
    refine ⟨new, by_contra fun hjob => ?_⟩
    rw [result?_launched ((ends.other _ hjob).trans action), published] at known
    exact nomatch known

/-- What is told last of an action that was launched is what its result says. -/
theorem Opened.farewell? {o : Operation} {l : Provider → Except Fault String} {p : ProviderId}
    {e : Batch.Entry} {c₁ d : Coordinator} {jobs : List (ProviderId × Nat)}
    {r : Except Fault Output} (h : Opened c c₁ o l p e) (ends : Ends jobs c₁.action? d.action?)
    (known : d.result? e = some r) :
    e.job?.bind d.farewell? =
      (c.called? o (p, l)).map fun user => .finished user (statusOf r) := by
  cases h with
  | refused f reason =>
    rw [called?, reason]
    rfl
  -- The action ran, so it is one of those that have been completed, and was told of then.
  | called id i a named new action running published plain subject =>
    obtain ⟨-, hjob⟩ := Opened.mem
      (.called id i a named new action running published plain subject) ends known rfl
    obtain ⟨a', now, out, ha', -, cause, hd⟩ := ends.ended _ hjob
    obtain rfl := Option.some.inj (action.symm.trans ha')
    rw [(Action.complete_running now out running).1] at hd
    rw [result?_launched hd, Option.map_some, Option.some.injEq] at known
    rw [called?, named, Batch.Entry.job?, Option.bind_some, Coordinator.farewell?, hd, ← known,
      statusOf_toExcept cause]
    exact congrArg (fun user => some (Event.finished user out.status)) subject

/-- What is told last of the actions of a round is what its outcomes say. -/
theorem farewells_of_opened {o : Operation}
    {xs : List (ProviderId × (Provider → Except Fault String))} {b : Batch} {c₁ d : Coordinator}
    {jobs : List (ProviderId × Nat)} (hb : b.targets.Nodup)
    (opened : List.Forall₂ (fun x e => Opened c c₁ o x.2 x.1 e) xs b.entries)
    (ends : Ends jobs c₁.action? d.action?)
    (known : ∀ e ∈ b.entries, ∃ r, d.result? e = some r) :
    b.jobs.filterMap d.farewell? = c.endsOf o xs (d.outcomes b) := by
  unfold Batch.jobs endsOf
  rw [List.filterMap_filterMap]
  refine filterMap_eq_of_forall₂ ((forall₂_mem opened).imp fun x e h => ?_)
  obtain ⟨-, he, h⟩ := h
  obtain ⟨r, hr⟩ := known e he
  have hprovider : e.provider = x.1 := by cases h <;> rfl
  have hget := get?_outcomes (c := d) hb he
  rw [hprovider, hr] at hget
  rw [h.farewell? ends hr, hget]
  cases c.called? o (x.1, x.2) <;> rfl

/-- A job is running exactly if it has an action that runs. -/
theorem isRunning_eq_true {job : ProviderId × Nat} :
    c.isRunning job = true ↔ ∃ a, c.action? job = some a ∧ a.stage = .running := by
  unfold isRunning
  cases c.action? job with
  | none => simp
  | some a => simp [Action.isRunning_iff]

/-- The actions that have been completed, but were not launched, are those that ran before and do not
    run any more. -/
theorem mem_others_iff {c₁ d : Coordinator} {jobs mine : List (ProviderId × Nat)}
    (ends : Ends jobs c₁.action? d.action?) (new : ∀ job ∈ mine, c.action? job = none)
    (stay : ∀ job a, c.action? job = some a → c₁.action? job = some a)
    (only : ∀ job a, c₁.action? job = some a → job ∈ mine ∨ c.action? job = some a)
    (job : ProviderId × Nat) :
    job ∈ jobs.filter (· ∉ mine) ↔ c.isRunning job = true ∧ d.isRunning job = false := by
  rw [isRunning_eq_true, Bool.eq_false_iff, Ne, isRunning_eq_true, List.mem_filter,
    decide_eq_true_iff]
  constructor
  · rintro ⟨hjob, hnot⟩
    obtain ⟨a, now, out, ha, running, -, hd⟩ := ends.ended job hjob
    refine ⟨⟨a, (only job a ha).resolve_left hnot, running⟩, ?_⟩
    rintro ⟨a', ha', hrunning⟩
    obtain rfl := Option.some.inj (hd.symm.trans ha')
    exact Action.not_running_complete now out a hrunning
  · rintro ⟨⟨a, ha, running⟩, hstopped⟩
    refine ⟨by_contra fun hjob => hstopped ?_, fun hmem => ?_⟩
    · exact ⟨a, (ends.other job hjob).trans (stay job a ha), running⟩
    · exact nomatch ha.symm.trans (new job hmem)

/-- What the observer has been told of a round that has come to its end. -/
theorem told_of_wait {o : Operation} {limit : Nat}
    {xs : List (ProviderId × (Provider → Except Fault String))} {es : List Batch.Entry}
    {c₁ : Coordinator} {out : Outcomes Output} (hc : c.Sound) (quiet : c.Quiet) (plain : c.Plain)
    (hxs : (xs.map Prod.fst).Nodup) (launched : launchAll o xs c = (c₁, es))
    (ended : c₁.wait limit ⟨o.name, es⟩ = (c', some out)) : Told c c' o xs out := by
  -- What the launches have done, and what they have told.
  have hopened := opened_launchAll o hxs c
  have hsteps := steps_launchAll (fun _ => False) o xs c
  have hstarts := log_launchAll hc quiet o hxs
  have hstay := fun job a (ha : c.action? job = some a) => action?_launchAll ha o xs
  have honly := fun job a (ha : (launchAll o xs c).1.action? job = some a) =>
    of_action?_launchAll ha
  rw [launched] at hopened hsteps hstarts hstay honly
  have hc₁ := (hsteps.evolves hc).sound hc
  obtain ⟨htargets, hshows⟩ := shows_of_opened (b := ⟨o.name, es⟩) hopened
  have hb : (Batch.targets ⟨o.name, es⟩).Nodup := htargets ▸ hxs
  obtain ⟨t, -, hwait, hknown⟩ := hshows.wait_eq hc₁
  obtain ⟨rfl, rfl⟩ := eq_of_wait ended hwait
  obtain ⟨jobs, hfinishes⟩ := finishes_pass hc₁ (hsteps.quiet quiet) (hsteps.plain plain) t
  obtain ⟨ends, hends, hperm⟩ := hfinishes.log
  have hproviders := providers_outcomes hb hknown
  rw [htargets] at hproviders
  generalize c₁.settle.advanceTo t = d at hknown hfinishes hends hperm hproviders ⊢
  -- The actions of the round have been completed, and perhaps some that ran before it.
  have hmine : ∀ job ∈ Batch.jobs ⟨o.name, es⟩, c.action? job = none ∧ job ∈ jobs := by
    intro job hjob
    obtain ⟨e, he, hej⟩ := List.mem_filterMap.mp hjob
    obtain ⟨r, hr⟩ := hknown e he
    obtain ⟨x, -, h⟩ := exists_of_mem_right hopened he
    exact h.mem hfinishes.toEnds hr hej
  have hjobs :=
    perm_append_filter hfinishes.nodup (nodup_jobs hb) fun job hjob => (hmine job hjob).2
  -- The summary counts one result for each target.
  have hsize : (d.outcomes ⟨o.name, es⟩).entries.length = xs.length := by
    have hlength := congrArg List.length hproviders
    rw [Outcomes.providers, List.length_map, List.length_map] at hlength
    exact hlength
  let others := jobs.filter (· ∉ Batch.jobs ⟨o.name, es⟩)
  refine ⟨hxs, hproviders, ?total, ends, others, ?log, ?ends, hfinishes.nodup.filter _, ?others⟩
  case total => exact (Outcomes.length_successes_add_failures _).trans hsize
  case log =>
    rw [← hstarts, ← hends, ← hsize]
    rfl
  case ends =>
    refine hperm.trans ((hjobs.filterMap _).trans (.of_eq ?_))
    rw [List.filterMap_append, farewells_of_opened hb hopened hfinishes.toEnds hknown]
    rfl
  case others =>
    exact mem_others_iff hfinishes.toEnds (fun job hjob => (hmine job hjob).1) hstay honly

/-- The targets of an operation, each with the identifier that the caller has given. -/
def addressed (c : Coordinator) (external : String) (targets : Targets) :
    List (ProviderId × (Provider → Except Fault String)) :=
  (targets.listed c.ids).eraseDups.map fun p => (p, Provider.localId external)

/-- The observer has been told of an operation that has come to its end. -/
theorem told_of_execute {o : Operation} {external : String} {targets : Targets} {limit : Nat}
    {out : Outcomes Output} (hc : c.Sound) (quiet : c.Quiet) (plain : c.Plain)
    (executed : c.execute limit o external targets = (c', some out)) :
    Told c c' o (c.addressed external targets) out := by
  have hxs : ((c.addressed external targets).map Prod.fst).Nodup := by
    unfold addressed
    rw [List.map_map]
    exact (List.map_id _).symm ▸ nodup_eraseDups _
  unfold execute start at executed
  rw [Targets.resolve_eq hc.nodup] at executed
  exact told_of_wait hc quiet plain hxs rfl executed

/-- The targets of a round of attempts, each with the identifier that was found for it. -/
def retried (attempts : List (ProviderId × String)) :
    List (ProviderId × (Provider → Except Fault String)) :=
  attempts.map fun a => (a.1, fun _ => .ok a.2)

/-- The observer has been told of a round of attempts that has come to its end. -/
theorem told_of_retry {attempts : List (ProviderId × String)} {limit : Nat}
    {out : Outcomes Output} (hc : c.Sound) (quiet : c.Quiet) (plain : c.Plain)
    (hattempts : (attempts.map Prod.fst).Nodup)
    (made : c.retry limit attempts = (c', some out)) :
    Told c c' .readAll (retried attempts) out := by
  have hxs : ((retried attempts).map Prod.fst).Nodup := by
    unfold retried
    rw [List.map_map]
    exact hattempts
  exact told_of_wait hc quiet plain hxs rfl made

/-- Rounds of attempts, which are made until nothing is left to try, and what the observer is told
    of each of them. -/
inductive ToldRounds (infer? : ProviderId → Option (Record → Except Fault String)) (limit : Nat) :
    Results → Memory → Coordinator → Nat → Results → Coordinator → Prop
  | done {rs : Results} {m m' : Memory} {c : Coordinator}
      (planned : plan infer? (sources rs) rs m = (m', [])) : ToldRounds infer? limit rs m c 0 rs c
  | again {rs rs' : Results} {m m' : Memory} {c d c' : Coordinator} {n : Nat}
      {attempts : List (ProviderId × String)} {out : Outcomes Output}
      (planned : plan infer? (sources rs) rs m = (m', attempts)) (any : attempts ≠ [])
      (made : c.retry limit attempts = (d, some out))
      (told : Told c d .readAll (retried attempts) out)
      (rest : ToldRounds infer? limit (absorbAll out.entries rs) m' d n rs' c') :
      ToldRounds infer? limit rs m c (n + 1) rs' c'

/-- The observer has been told of each of the rounds. -/
theorem toldRounds_of_retries {infer? : ProviderId → Option (Record → Except Fault String)}
    {rs rs' : Results} {m : Memory} {trace : List Attempt} {limit : Nat}
    (h : Retries infer? (retry limit) rs m c trace rs' c') (hc : c.Sound) (quiet : c.Quiet)
    (plain : c.Plain) (hkeys : (rs.map Prod.fst).Nodup) :
    ∃ n, ToldRounds infer? limit rs m c n rs' c' := by
  induction h with
  | done planned => exact ⟨0, .done planned⟩
  | @again rs rs' m m' c d c' attempts o trace planned any made answered rest ih =>
    obtain ⟨-, htargets, -⟩ := Inference.plan_spec planned
    have hattempts := hkeys.sublist htargets
    obtain ⟨c₁, before, after, -⟩ := yields_of_retry hc hattempts made
    have hround : Steps (fun _ => False) c d := before.trans after
    obtain ⟨n, hrest⟩ := ih ((hround.evolves hc).sound hc) (hround.quiet quiet)
      (hround.plain plain) (by rw [Inference.map_fst_absorbAll]; exact hkeys)
    exact ⟨n + 1, .again planned any made (told_of_retry hc quiet plain hattempts made) hrest⟩

/-- Whether an event is the end of a round. -/
def isCompletion : Event → Bool
  | .completed _ => true
  | _ => false

/-- One round has one end. -/
theorem Told.completions {o : Operation} {out : Outcomes Output}
    {xs : List (ProviderId × (Provider → Except Fault String))} (h : Told c c' o xs out) :
    ∃ es, c'.log = c.log ++ es ∧ es.countP isCompletion = 1 := by
  obtain ⟨ends, others, hlog, hperm, -⟩ := h.log
  refine ⟨_, by rw [hlog, List.append_assoc, List.append_assoc], ?_⟩
  -- Neither the start nor the end of an action is the end of a round.
  have hstarts :
      (xs.filterMap fun x => (c.called? o x).map Event.started).countP isCompletion = 0 := by
    refine List.countP_eq_zero.mpr fun e he => ?_
    obtain ⟨x, -, hx⟩ := List.mem_filterMap.mp he
    obtain ⟨user, -, rfl⟩ := Option.map_eq_some_iff.mp hx
    exact nofun
  have hends : ends.countP isCompletion = 0 := by
    refine List.countP_eq_zero.mpr fun e he => ?_
    rcases List.mem_append.mp (hperm.mem_iff.mp he) with he | he
    · obtain ⟨x, -, hx⟩ := List.mem_filterMap.mp he
      obtain ⟨user, -, hx⟩ := Option.bind_eq_some_iff.mp hx
      obtain ⟨r, -, rfl⟩ := Option.map_eq_some_iff.mp hx
      exact nofun
    · obtain ⟨job, -, hx⟩ := List.mem_filterMap.mp he
      obtain ⟨a, -, hx⟩ := Option.bind_eq_some_iff.mp hx
      obtain ⟨r, -, rfl⟩ := Option.map_eq_some_iff.mp hx
      exact nofun
  rw [List.countP_append, List.countP_append, hstarts, hends]
  rfl

/-- So many rounds have so many ends. -/
theorem ToldRounds.completions {infer? : ProviderId → Option (Record → Except Fault String)}
    {rs rs' : Results} {m : Memory} {limit n : Nat}
    (h : ToldRounds infer? limit rs m c n rs' c') :
    ∃ es, c'.log = c.log ++ es ∧ es.countP isCompletion = n := by
  induction h with
  | done => exact ⟨[], (List.append_nil _).symm, rfl⟩
  | again _ _ _ told _ ih =>
    obtain ⟨es, hes, hcount⟩ := told.completions
    obtain ⟨fs, hfs, hcount'⟩ := ih
    refine ⟨es ++ fs, by rw [hfs, hes, List.append_assoc], ?_⟩
    rw [List.countP_append, hcount, hcount', Nat.add_comm]

/-- What the observer is told of a merge is the warnings of the merged user. -/
theorem log_of_merge {rs : Results} {u : FederatedUser} (h : c.merge rs = (c', u)) :
    c'.log = c.log ++ u.user.warnings.map Event.warning := by
  unfold merge at h
  dsimp only at h
  rw [Merge.mergeObserved_eq] at h
  obtain ⟨rfl, rfl⟩ := Prod.mk.inj h
  rfl

/-- The observer of a coordinator can account for every operation from what is told.  Running an
    operation on some targets comes to an end, and the observer is told that the actions of those
    that are called are started, in the order of the targets, then that they are completed, with the
    statuses that their results have, and then how many targets there were and how many of them have
    succeeded and failed.  Fetching a user comes to an end, too.  It consists of a first round, of
    further ones, and of the merge of what they have come to.  The observer is told so of each of the
    rounds, and then of nothing but the warnings of the merged user. -/
theorem events_account {b : Blueprint} (hc : c.Reachable b) (external : String)
    (targets : Targets) :
    (∀ o, (∃ t c' out, ∀ limit, t ≤ limit →
        c.execute limit o external targets = (c', some out)) ∧
      ∀ limit c' out, c.execute limit o external targets = (c', some out) →
        Told c c' o (c.addressed external targets) out) ∧
    (∃ t c' u, ∀ limit, t ≤ limit → c.fetch limit external targets = (c', some u)) ∧
    ∀ limit c' u, c.fetch limit external targets = (c', some u) →
      ∃ c₁ first n c₂ es, c.execute limit .readAll external targets = (c₁, some first) ∧
        Told c c₁ .readAll (c.addressed external targets) first ∧
        ToldRounds c₁.infer? limit first.entries {} c₁ n u.outcomes.entries c₂ ∧
        c₂.log = c.log ++ es ∧ es.countP isCompletion = n + 1 ∧
        c₂.merge u.outcomes.entries = (c', u) ∧
        c'.log = c₂.log ++ u.user.warnings.map Event.warning := by
  refine ⟨fun o => ⟨?_, fun limit c' out executed => ?_⟩, fetch_ends hc.sound external targets,
    fun limit c' u fetched => ?_⟩
  · obtain ⟨t, c', out, -, -, hexecute⟩ := execute_spec o external targets hc.sound
    exact ⟨t, c', out, hexecute⟩
  · exact told_of_execute hc.sound hc.quiet hc.plain executed
  -- The log grows by the first round, by the further ones, and by the warnings of the merge.
  · obtain ⟨first, c₁, c₂, trace, hexecute, hretries, hmerge⟩ := retries_of_fetch hc.sound fetched
    obtain ⟨d, before, after, hproviders, -⟩ := yields_of_execute hc.sound hexecute
    have hfirst : Steps (fun _ => False) c c₁ := before.trans after
    have htold := told_of_execute hc.sound hc.quiet hc.plain hexecute
    obtain ⟨n, hrounds⟩ := toldRounds_of_retries hretries ((hfirst.evolves hc.sound).sound hc.sound)
      (hfirst.quiet hc.quiet) (hfirst.plain hc.plain)
      (Targets.nodup_of_providers hc.sound.nodup hproviders)
    obtain ⟨es, hes, hcount⟩ := htold.completions
    obtain ⟨fs, hfs, hcount'⟩ := hrounds.completions
    refine ⟨c₁, first, n, c₂, es ++ fs, hexecute, htold, hrounds, ?_, ?_, hmerge,
      log_of_merge hmerge⟩
    · rw [hfs, hes, List.append_assoc]
    · rw [List.countP_append, hcount, hcount', Nat.add_comm]

/-- One of two providers can be called only when the other one has returned a record, of which one
    property is malformed. -/
theorem events_account_inferred :
    let ldap : Provider := .custom
      { id := ⟨"ldap"⟩
        respond := fun _ r => { delay := 20, ending := .returned (.ok (.record
          ((Record.blank ⟨⟨"ldap"⟩, r.localId⟩).answer .nickname (.flag true)))) } }
    let google : Provider := .custom
      { id := ⟨"google"⟩
        localId := fun external => .error (.cannotInferLocalId ⟨"google"⟩ external)
        localIdFrom := fun r => .ok r.localId
        respond := fun _ _ => { delay := 5, ending := .crashed } }
    let b : Blueprint := { providers := [google, ldap] }
    let c : Coordinator := { stations := b.providers.map b.station, engine := b.mergeEngine }
    c.Reachable b ∧ ∃ c' u es, c.fetch 50 "jdoe" .all = (c', some u) ∧
      c'.log = es ++ u.user.warnings.map Event.warning ∧ es.countP isCompletion = 2 ∧
      c'.log =
        [.started (.account ⟨⟨"ldap"⟩, "jdoe"⟩), .finished (.account ⟨⟨"ldap"⟩, "jdoe"⟩) .succeeded,
          .completed ⟨2, 1, 1⟩, .started (.account ⟨⟨"google"⟩, "jdoe"⟩),
          .finished (.account ⟨⟨"google"⟩, "jdoe"⟩) .failed, .completed ⟨1, 0, 1⟩,
          .warning ⟨.nickname, ⟨"ldap"⟩, .wrongKind .nickname (.flag true)⟩] := by
  intro ldap google b c
  have hc : c.Reachable b := by
    refine ⟨fun p hp => ?_, c, rfl, .refl⟩
    rcases List.mem_cons.mp hp with rfl | hp
    · exact ⟨rfl, rfl⟩
    · obtain rfl := List.mem_singleton.mp hp
      exact ⟨rfl, rfl⟩
  have hlog : (c.fetch 50 "jdoe" .all).1.log =
      [.started (.account ⟨⟨"ldap"⟩, "jdoe"⟩), .finished (.account ⟨⟨"ldap"⟩, "jdoe"⟩) .succeeded,
        .completed ⟨2, 1, 1⟩, .started (.account ⟨⟨"google"⟩, "jdoe"⟩),
        .finished (.account ⟨⟨"google"⟩, "jdoe"⟩) .failed, .completed ⟨1, 0, 1⟩,
        .warning ⟨.nickname, ⟨"ldap"⟩, .wrongKind .nickname (.flag true)⟩] := by
    cbv
  have hsome : (c.fetch 50 "jdoe" .all).2.isSome = true := by cbv
  cases hfetch : c.fetch 50 "jdoe" .all with
  | mk c' u? =>
    rw [hfetch] at hlog hsome
    obtain ⟨u, rfl⟩ := Option.isSome_iff_exists.mp hsome
    obtain ⟨-, -, haccount⟩ := events_account hc "jdoe" .all
    obtain ⟨c₁, first, n, c₂, es, -, -, -, hes, -, -, hwarned⟩ := haccount 50 c' u hfetch
    have hes' : c'.log = es ++ u.user.warnings.map Event.warning := by
      rw [hwarned, hes]
      rfl
    -- Warnings are not the ends of rounds, so the ends that were told are those of the rounds.
    have hcounts := congrArg (List.countP isCompletion) (hes'.symm.trans hlog)
    rw [List.countP_append, List.countP_map] at hcounts
    have hwarnings : u.user.warnings.countP (isCompletion ∘ Event.warning) = 0 :=
      List.countP_eq_zero.mpr fun _ _ => Bool.false_ne_true
    rw [hwarnings] at hcounts
    exact ⟨hc, c', u, es, rfl, hes', hcounts, hlog⟩

end Coordinator

end Federation
