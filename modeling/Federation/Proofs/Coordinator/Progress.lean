import Federation.Proofs.Action.Progress
import Federation.Proofs.Coordinator.Scenario

/-!
# How the actions of a coordinator go on

Whatever is done to a coordinator, an action that was launched is completed at most once, and what
those who wait see of it is its outcome, from that moment on and for ever.

## Key results

- `Steps.becomes`: what becomes of an action in any number of steps
- `action?_cancelOne`, `cancelOne_snd`: what cancelling one action does
- `cancelEach_eq`, `cancel_eq`: what cancelling several actions, or a fan-out, does
-/

namespace Federation

namespace Station

variable {s : Station} {i : Nat} {a : ProviderAction}

/-- The actions of a station are those that it has had, and one that has just been launched. -/
theorem action?_launch_eq (now : Nat) (o : Operation) (localId : String) (s : Station) (i : Nat) :
    (s.launch now o localId).1.action? i =
      if i = s.roster.jobs.length then
        some { s.actionFor o localId with
          stage := .running, latest := some o, startedAt := some now }
      else s.action? i := by
  have hs := Roster.launch_eq (a := s.actionFor o localId) now o ⟨o, localId⟩ s.roster rfl
  simp only [launch, action?, Roster.action?, hs]
  split
  · next hi => rw [hi, List.getElem?_concat_length, Option.map_some]
  · next hi =>
    rw [List.getElem?_append]
    split
    · rfl
    · rw [List.getElem?_eq_none (by simp; omega), List.getElem?_eq_none (by omega)]

/-- Those actions stay that have been there before a launch. -/
theorem action?_launch (h : s.action? i = some a) (now : Nat) (o : Operation) (localId : String) :
    (s.launch now o localId).1.action? i = some a := by
  obtain ⟨j, hj, -⟩ := Option.map_eq_some_iff.mp h
  have hi : i ≠ s.roster.jobs.length := Nat.ne_of_lt (List.getElem?_eq_some_iff.mp hj).1
  rw [action?_launch_eq, if_neg hi, h]

/-- What becomes of an action, becomes of it whatever is done to its station. -/
theorem keeps_becomes (i : Nat) (a : ProviderAction) :
    Keeps fun s => ∃ b, s.action? i = some b ∧ a.Becomes b where
  collected h := h
  launch h now o localId := by
    obtain ⟨b, hb, hab⟩ := h
    exact ⟨b, action?_launch hb now o localId, hab⟩
  -- A cancellation and settling may end actions, and the others leave them alone.
  cancel {s} h now job := by
    obtain ⟨b, hb, hab⟩ := h
    obtain ⟨is, hfinishes⟩ := Roster.finishes_cancel now job s.roster
    obtain ⟨d, hd, hbd⟩ := hfinishes.becomes hb
    exact ⟨d, hd, hab.trans hbd⟩
  serve h f := h
  settle {s} h now := by
    obtain ⟨b, hb, hab⟩ := h
    obtain ⟨is, hfinishes⟩ := Roster.finishes_settle now s.roster
    obtain ⟨d, hd, hbd⟩ := hfinishes.becomes hb
    exact ⟨d, hd, hab.trans hbd⟩

end Station

namespace Coordinator

variable {c c' : Coordinator} {kept : ProviderId × Nat → Prop} {job : ProviderId × Nat}
  {a : ProviderAction}

/-- An action is found at the station of its provider. -/
theorem action?_eq_some_iff : c.action? job = some a ↔
    ∃ s, c.station? job.1 = some s ∧ s.action? job.2 = some a :=
  Option.bind_eq_some_iff

/-- What becomes of an action in any number of steps. -/
theorem Steps.becomes (h : Steps kept c c') (hc : c.Sound) (ha : c.action? job = some a) :
    ∃ b, c'.action? job = some b ∧ a.Becomes b := by
  obtain ⟨s, hs, hj⟩ := action?_eq_some_iff.mp ha
  have heach := h.each ((Station.keeps_becomes job.2 a).at job.1)
    (each_of_station? hc hs ⟨a, hj, .stays⟩)
  rcases (h.evolves hc).station? job.1 with ⟨hnone, -⟩ | ⟨-, s', -, hs', -⟩
  · exact nomatch hs.symm.trans hnone
  · obtain ⟨b, hb, hab⟩ := heach.of_station? hs'
    exact ⟨b, action?_eq_some_iff.mpr ⟨s', hs', hb⟩, hab⟩

/-! ## Launches -/

/-- A launch leaves the actions there were as they are. -/
theorem action?_launch (h : c.action? job = some a) (o : Operation)
    (localId : Provider → Except Fault String) (target : ProviderId) :
    (c.launch o localId target).1.action? job = some a := by
  obtain ⟨s, hs, hj⟩ := action?_eq_some_iff.mp h
  cases hlocal : c.localIdAt o localId target with
  | error f =>
    rw [launch_refused hlocal]
    exact h
  | ok id =>
    obtain ⟨t, ht, hlaunch⟩ := launch_called hlocal
    have hid : (t.launch c.now o id).1.id = target :=
      (Station.id_launch c.now o id t).trans (station?_eq_some ht).2
    rw [hlaunch, action?_eq_some_iff, station?_put hid, hs, Option.map_some]
    refine ⟨_, rfl, ?_⟩
    by_cases hp : s.id = target
    -- The station has one job more than before.
    · obtain rfl : s = t := by
        have hname := (station?_eq_some hs).2.symm.trans hp
        rw [hname] at hs
        exact Option.some.inj (hs.symm.trans ht)
      rw [if_pos hp]
      exact Station.action?_launch hj c.now o id
    · rw [if_neg hp]
      exact hj

/-- Launches leave the actions there were as they are. -/
theorem action?_launchAll (h : c.action? job = some a) (o : Operation)
    (xs : List (ProviderId × (Provider → Except Fault String))) :
    (launchAll o xs c).1.action? job = some a := by
  induction xs generalizing c with
  | nil => exact h
  | cons x xs ih => exact ih (action?_launch h o x.2 x.1)

/-- What the launch at a target has made of its entry. -/
inductive Opened (c c' : Coordinator) (o : Operation) (localId : Provider → Except Fault String)
    (target : ProviderId) : Batch.Entry → Prop
  | refused (f : Fault) (reason : c.localIdAt o localId target = .error f) :
      Opened c c' o localId target (.resolved target f)
  | called (id : String) (i : Nat) (a : ProviderAction)
      (named : c.localIdAt o localId target = .ok id) (new : c.action? (target, i) = none)
      (action : c'.action? (target, i) = some a) (running : a.stage = .running)
      (published : a.published = none) (plain : a.IsPlain)
      (subject : a.subject = .account ⟨target, id⟩) :
      Opened c c' o localId target (.launched target i)

/-- A launch opens an entry, with an action of its own if the target is called. -/
theorem opened_launch (c : Coordinator) (o : Operation)
    (localId : Provider → Except Fault String) (target : ProviderId) :
    Opened c (c.launch o localId target).1 o localId target (c.launch o localId target).2 := by
  cases hlocal : c.localIdAt o localId target with
  | error f =>
    rw [launch_refused hlocal]
    exact .refused f hlocal
  | ok id =>
    obtain ⟨s, hs, hlaunch⟩ := launch_called hlocal
    obtain ⟨-, hid⟩ := station?_eq_some hs
    have hid' : (s.launch c.now o id).1.id = target :=
      (Station.id_launch c.now o id s).trans hid
    let a : ProviderAction :=
      { s.actionFor o id with stage := .running, latest := some o, startedAt := some c.now }
    have haction : ((c.putStation target (s.launch c.now o id).1).collect).action?
        (target, s.roster.jobs.length) = some a := by
      rw [action?_eq_some_iff, station?_put hid', hs, Option.map_some, if_pos hid]
      refine ⟨_, rfl, ?_⟩
      show (s.launch c.now o id).1.action? s.roster.jobs.length = some a
      rw [Station.action?_launch_eq, if_pos rfl]
    -- The number of the new job is the first one that is free.
    have hnew : c.action? (target, s.roster.jobs.length) = none := by
      rw [action?, hs, Option.bind_some, Station.action?, Roster.action?, List.getElem?_eq_none
        (Nat.le_refl _), Option.map_none]
    rw [hlaunch]
    exact .called id _ a hlocal hnew haction rfl rfl ⟨rfl, rfl⟩
      (congrArg (fun p => Subject.account ⟨p, id⟩) hid)

/-- What a launch has opened is still there if later launches leave it alone. -/
theorem Opened.later {o : Operation} {localId : Provider → Except Fault String}
    {target : ProviderId} {e : Batch.Entry} {c'' : Coordinator} (h : Opened c c' o localId target e)
    (stay : ∀ job a, c'.action? job = some a → c''.action? job = some a) :
    Opened c c'' o localId target e := by
  cases h with
  | refused f reason => exact .refused f reason
  | called id i a named new action running published plain subject =>
    exact .called id i a named new (stay _ _ action) running published plain subject

/-- What a launch opens is new in view of an earlier state, too. -/
theorem Opened.earlier {o : Operation} {localId : Provider → Except Fault String}
    {target : ProviderId} {e : Batch.Entry} {c'' : Coordinator} (h : Opened c' c'' o localId target e)
    (same : c'.localIdAt o localId target = c.localIdAt o localId target)
    (stay : ∀ job a, c.action? job = some a → c'.action? job = some a) :
    Opened c c'' o localId target e := by
  cases h with
  | refused f reason => exact .refused f (same.symm.trans reason)
  | called id i a named new action running published plain subject =>
    refine .called id i a (same.symm.trans named) ?_ action running published plain subject
    by_contra hsome
    obtain ⟨b, hb⟩ := Option.ne_none_iff_exists'.mp hsome
    exact nomatch new.symm.trans (stay _ b hb)

/-- What launches at different targets have made of their entries. -/
theorem opened_launchAll (o : Operation)
    {xs : List (ProviderId × (Provider → Except Fault String))} (hxs : (xs.map Prod.fst).Nodup)
    (c : Coordinator) :
    List.Forall₂ (fun x e => Opened c (launchAll o xs c).1 o x.2 x.1 e) xs
      (launchAll o xs c).2 := by
  induction xs generalizing c with
  | nil => exact .nil
  | cons x xs ih =>
    obtain ⟨target, localId⟩ := x
    obtain ⟨htarget, hrest⟩ := List.nodup_cons.mp hxs
    refine .cons ?_ ?_
    · exact (opened_launch c o localId target).later fun job a ha => action?_launchAll ha o xs
    -- The target is another one, so what is launched there depends on the others not at all.
    · have hne : ∀ x ∈ xs, x.1 ≠ target := by
        rintro x hx rfl
        exact htarget (List.mem_map.mpr ⟨x, hx, rfl⟩)
      refine ((List.forall₂_and_left xs _).mpr ⟨hne, ih hrest _⟩).imp fun x e h => ?_
      exact h.2.earlier ((idle_launch h.1 c o localId).localIdAt o x.2) fun job a ha =>
        action?_launch ha o localId target

/-- No other actions are launched than those of the entries. -/
theorem of_action?_launch {o : Operation} {localId : Provider → Except Fault String}
    {target : ProviderId} (h : (c.launch o localId target).1.action? job = some a) :
    (c.launch o localId target).2.job? = some job ∨ c.action? job = some a := by
  cases hlocal : c.localIdAt o localId target with
  | error f =>
    rw [launch_refused hlocal] at h
    exact .inr h
  | ok id =>
    obtain ⟨s, hs, hlaunch⟩ := launch_called hlocal
    obtain ⟨-, hid⟩ := station?_eq_some hs
    have hid' : (s.launch c.now o id).1.id = target :=
      (Station.id_launch c.now o id s).trans hid
    rw [hlaunch] at h ⊢
    obtain ⟨t, ht, hj⟩ := action?_eq_some_iff.mp h
    rw [station?_put hid'] at ht
    obtain ⟨x, hx, rfl⟩ := Option.map_eq_some_iff.mp ht
    -- The action is at the target, as the new one or among the old ones, or at another station.
    by_cases hp : x.id = target
    · obtain rfl : x = s := by
        have hname := (station?_eq_some hx).2.symm.trans hp
        rw [hname] at hx
        exact Option.some.inj (hx.symm.trans hs)
      rw [if_pos hp] at hj
      have hj' : (x.launch c.now o id).1.action? job.2 = some a := hj
      rw [Station.action?_launch_eq] at hj'
      split at hj'
      · next hlast =>
        exact .inl (congrArg some (Prod.ext (hp.symm.trans (station?_eq_some hx).2) hlast.symm))
      · exact .inr (action?_eq_some_iff.mpr ⟨x, hx, hj'⟩)
    · rw [if_neg hp] at hj
      exact .inr (action?_eq_some_iff.mpr ⟨x, hx, hj⟩)

/-- No other actions are launched than those of the entries. -/
theorem of_action?_launchAll {o : Operation}
    {xs : List (ProviderId × (Provider → Except Fault String))}
    (h : (launchAll o xs c).1.action? job = some a) :
    job ∈ (launchAll o xs c).2.filterMap Batch.Entry.job? ∨ c.action? job = some a := by
  induction xs generalizing c with
  | nil => exact .inr h
  | cons x xs ih =>
    rcases ih h with h | h
    · obtain ⟨e, he, hej⟩ := List.mem_filterMap.mp h
      exact .inl (List.mem_filterMap.mpr ⟨e, List.mem_cons_of_mem _ he, hej⟩)
    · rcases of_action?_launch h with h | h
      · exact .inl (List.mem_filterMap.mpr ⟨_, List.mem_cons_self, h⟩)
      · exact .inr h

/-! ## Cancellations -/

/-- Cancelling one action completes it, if it runs, and leaves all others alone. -/
theorem action?_cancelOne (c : Coordinator) (job x : ProviderId × Nat) :
    (c.cancelOne job).1.action? x = (c.action? x).map fun a =>
      if x = job then (a.complete c.now .cancelled).1 else a := by
  obtain ⟨p, i⟩ := job
  obtain ⟨q, y⟩ := x
  unfold cancelOne
  dsimp only
  cases hs : c.station? p with
  | none =>
    -- There is no such action, so it is not the one that is looked up.
    cases ha : c.action? (q, y) with
    | none => rfl
    | some a =>
      obtain ⟨t, ht, -⟩ := action?_eq_some_iff.mp ha
      have hne : ¬(q, y) = (p, i) := by
        rintro he
        obtain ⟨rfl, -⟩ := Prod.mk.inj he
        exact nomatch hs.symm.trans ht
      simp only [Option.map_some, if_neg hne]
  | some s =>
    have hid : (s.cancel c.now i).1.id = p :=
      (Station.id_cancel c.now i s).trans (station?_eq_some hs).2
    have hstation : ((c.putStation p (s.cancel c.now i).1).collect).station? q =
        (c.station? q).map fun t => (if t.id = p then (s.cancel c.now i).1 else t).collected :=
      station?_put hid q c
    unfold action?
    dsimp only
    rw [hstation]
    cases ht : c.station? q with
    | none => rfl
    | some t =>
      rw [Option.map_some, Option.bind_some, Option.bind_some]
      by_cases hq : q = p
      · subst hq
        obtain rfl := Option.some.inj (hs.symm.trans ht)
        rw [if_pos (station?_eq_some hs).2]
        show ((s.roster.cancel c.now i).1.jobs[y]?).map Job.action =
          ((s.roster.jobs[y]?).map Job.action).map _
        rw [Roster.getElem?_jobs_cancel, Option.map_map, Option.map_map]
        refine congrFun (congrArg _ (funext fun j => ?_)) _
        by_cases hy : y = i <;> simp [hy]
      · have hne : ¬(q, y) = (p, i) := fun he => hq (Prod.mk.inj he).1
        have htp : t.id ≠ p := (station?_eq_some ht).2.symm ▸ hq
        rw [if_neg htp]
        simp only [if_neg hne, Option.map_id']
        rfl

/-- Cancelling one action tells whether it ran. -/
theorem cancelOne_snd (c : Coordinator) (job : ProviderId × Nat) :
    (c.cancelOne job).2 = (c.action? job).any Action.isRunning := by
  unfold cancelOne action?
  cases hs : c.station? job.1 with
  | none => rfl
  | some s =>
    rw [Option.bind_some]
    exact Roster.cancel_snd c.now job.2 s.roster

/-- Cancelling several actions, in whatever order, completes those that run, leaves all others
    alone, and tells how many ran. -/
theorem cancelEach_eq {jobs : List (ProviderId × Nat)} (hjobs : jobs.Nodup) (c : Coordinator) :
    (c.cancelEach jobs).2 = jobs.countP (fun job => (c.action? job).any Action.isRunning) ∧
      (c.cancelEach jobs).1.now = c.now ∧
      ∀ x, (c.cancelEach jobs).1.action? x = (c.action? x).map fun a =>
        if x ∈ jobs then (a.complete c.now .cancelled).1 else a := by
  unfold cancelEach
  -- Induction on the jobs, of which some have been counted.
  suffices h : ∀ (c : Coordinator) (n : Nat),
      let r := jobs.foldl (fun x job =>
        ((cancelOne job x.1).1, if (cancelOne job x.1).2 then x.2 + 1 else x.2)) (c, n)
      r.2 = n + jobs.countP (fun job => (c.action? job).any Action.isRunning) ∧ r.1.now = c.now ∧
        ∀ x, r.1.action? x = (c.action? x).map fun a =>
          if x ∈ jobs then (a.complete c.now .cancelled).1 else a by
    obtain ⟨hn, h⟩ := h c 0
    exact ⟨hn.trans (Nat.zero_add _), h⟩
  induction jobs with
  | nil => exact fun c n => ⟨rfl, rfl, fun x => by simp⟩
  | cons job jobs ih =>
    obtain ⟨hjob, hjobs⟩ := List.nodup_cons.mp hjobs
    intro c n
    obtain ⟨hn, hnow, haction⟩ := ih hjobs (c.cancelOne job).1
      (if (c.cancelOne job).2 then n + 1 else n)
    -- The jobs that are left are other ones, so their actions have not changed.
    have hother : ∀ x ∈ jobs, (c.cancelOne job).1.action? x = c.action? x := by
      intro x hx
      have hne : x ≠ job := fun he => hjob (he ▸ hx)
      rw [action?_cancelOne]
      simp only [if_neg hne, Option.map_id']
    rw [now_cancelOne] at hnow haction
    refine ⟨?_, hnow, fun x => ?_⟩
    · rw [List.foldl_cons, hn, List.countP_cons, cancelOne_snd]
      have hcount := List.countP_congr (p := fun x => ((c.cancelOne job).1.action? x).any
        Action.isRunning) (q := fun x => (c.action? x).any Action.isRunning) fun x hx => by
          rw [hother x hx]
      rw [hcount]
      split <;> omega
    · rw [List.foldl_cons, haction, action?_cancelOne, Option.map_map]
      refine congrFun (congrArg _ (funext fun a => ?_)) _
      by_cases hx : x = job
      · subst hx
        simp [hjob]
      · simp [hx]

/-- Cancelling a fan-out completes its actions that run, leaves all others alone, and tells how many
    ran. -/
theorem cancel_eq {b : Batch} (hb : b.jobs.Nodup) (c : Coordinator) :
    (c.cancel b).2 = c.running b ∧ (c.cancel b).1.now = c.now ∧
      ∀ x, (c.cancel b).1.action? x = (c.action? x).map fun a =>
        if x ∈ b.jobs then (a.complete c.now .cancelled).1 else a :=
  cancelEach_eq hb c

end Coordinator

end Federation
