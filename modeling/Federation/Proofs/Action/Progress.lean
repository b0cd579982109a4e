import Federation.Proofs.Action.Cancellation
import Federation.Proofs.Action.Lasting

/-!
# How the actions of a roster go on

Whatever happens to a roster in time, only one thing can happen to an action that has been started:
it is completed, if it still runs.  The observer of the federation is told of it there and then, so
the log is made longer by one note for each action that was completed, in that order.

## Key results

- `Becomes.trans`: in any number of steps an action is completed at most once
- `Ends.trans`, `Ends.farewells_append`: what is completed in several steps is completed in one of
  them, and told then
- `finishes_settle`, `finishes_cancel`: what happens to a roster
-/

namespace Federation

variable {τ π ρ κ ω : Type}

/-! ## One action -/

namespace Action

variable [DecidableEq π] {a b c : Action τ π ρ}

/-- What becomes of an action: it stays as it is, or it runs and is completed. -/
inductive Becomes (a : Action τ π ρ) : Action τ π ρ → Prop
  | stays : Becomes a a
  | ends (now : Nat) (o : Outcome ρ) (running : a.stage = .running) (cause : o ≠ .failed .cancelled) :
      Becomes a (a.complete now o).1

/-- An action that does not run stays as it is. -/
theorem Becomes.eq_of_not_running (h : a.Becomes b) (ha : a.stage ≠ .running) : b = a := by
  cases h with
  | stays => rfl
  | ends now o running => exact absurd running ha

/-- An action that is completed does not run. -/
theorem not_running_complete (now : Nat) (o : Outcome ρ) (a : Action τ π ρ) :
    (a.complete now o).1.stage ≠ .running := by
  by_cases h : a.stage = .running
  · rw [(complete_running now o h).1]
    exact nofun
  · rw [complete_of_not_running now o h]
    exact h

/-- What an action becomes in two steps it becomes in one. -/
theorem Becomes.trans (h : a.Becomes b) (k : b.Becomes c) : a.Becomes c := by
  cases h with
  | stays => exact k
  | ends now o running cause =>
    -- What has been completed does not run, so nothing becomes of it.
    rw [k.eq_of_not_running (not_running_complete now o a)]
    exact .ends now o running cause

/-- Whether those who wait see of an action that was started what there is to be seen. -/
inductive IsFair (a : Action τ π ρ) : Prop
  | running (stage : a.stage = .running) (published : a.published = none)
  | finished (o : Outcome ρ) (stage : a.stage = .finished o) (published : a.published = some o)

/-- An action stays fair, whether or not it comes to its end. -/
theorem IsFair.becomes (h : a.IsFair) (k : a.Becomes b) : b.IsFair := by
  cases k with
  | stays => exact h
  | ends now o running =>
    rw [(complete_running now o running).1]
    exact .finished o rfl rfl

omit [DecidableEq π] in
/-- A fair action publishes nothing while it runs. -/
theorem IsFair.published_of_running (h : a.IsFair) (running : a.stage = .running) :
    a.published = none := by
  cases h with
  | running _ published => exact published
  | finished o stage => exact nomatch running.symm.trans stage

omit [DecidableEq π] in
/-- A fair action that does not run has published its outcome. -/
theorem IsFair.published_of_not_running (h : a.IsFair) (ha : a.stage ≠ .running) :
    ∃ o, a.stage = .finished o ∧ a.published = some o := by
  cases h with
  | running stage => exact absurd stage ha
  | finished o stage published => exact ⟨o, stage, published⟩

/-- Whether the observer of the federation is told of an action, and nobody else. -/
structure IsPlain (a : Action τ π ρ) : Prop where
  isFollowed : a.isFollowed = true
  callbacks : a.callbacks = []

/-- What the observer of the federation is told last of an action, and at which instant. -/
def farewell? (a : Action τ π ρ) : Option (Nat × Note τ ρ) :=
  match a.stage, a.finishedAt with
  | .finished o, some t => some (t, .told (.finished a.subject o.status))
  | _, _ => none

/-- An action stays plain, whether or not it comes to its end. -/
theorem IsPlain.becomes (h : a.IsPlain) (k : a.Becomes b) : b.IsPlain := by
  cases k with
  | stays => exact h
  | ends now o running =>
    rw [(complete_running now o running).1]
    exact ⟨h.isFollowed, rfl⟩

/-- Of a plain action that is completed nothing is seen but its farewell. -/
theorem IsPlain.notes_complete (h : a.IsPlain) (now : Nat) (o : Outcome ρ)
    (running : a.stage = .running) :
    ((a.complete now o).2.1.map fun n => (now, n)) = (a.complete now o).1.farewell?.toList := by
  have htell : a.tell (.finished a.subject o.status) =
      ([.told (.finished a.subject o.status)] : List (Note τ ρ)) := if_pos h.isFollowed
  rw [complete_of_callbacks_nil now o running h.callbacks, htell]
  rfl

end Action

/-! ## Several actions -/

section

variable {ι : Type} [DecidableEq π] {is js : List ι} {f g h : ι → Option (Action τ π ρ)} {i : ι}

/-- Of the actions that are found by their names, some have been completed, one after the other.
    Nothing else has happened to any of them. -/
structure Ends (is : List ι) (f g : ι → Option (Action τ π ρ)) : Prop where
  nodup : is.Nodup
  other : ∀ i, i ∉ is → g i = f i
  ended : ∀ i ∈ is, ∃ a now o, f i = some a ∧ a.stage = .running ∧ o ≠ .failed .cancelled ∧
    g i = some (a.complete now o).1

/-- What is told last of some actions. -/
def farewells (is : List ι) (f : ι → Option (Action τ π ρ)) : List (Nat × Note τ ρ) :=
  is.filterMap fun i => (f i).bind Action.farewell?

/-- What is found before is found afterwards, as what it has become. -/
theorem Ends.becomes (e : Ends is f g) {a : Action τ π ρ} (ha : f i = some a) :
    ∃ b, g i = some b ∧ a.Becomes b := by
  by_cases hi : i ∈ is
  · obtain ⟨a', now, o, ha', running, cause, hb⟩ := e.ended i hi
    obtain rfl := Option.some.inj (ha.symm.trans ha')
    exact ⟨_, hb, .ends now o running cause⟩
  · exact ⟨a, (e.other i hi).trans ha, .stays⟩

/-- What is found afterwards was found before, and has become so. -/
theorem Ends.became (e : Ends is f g) {b : Action τ π ρ} (hb : g i = some b) :
    ∃ a, f i = some a ∧ a.Becomes b := by
  by_cases hi : i ∈ is
  · obtain ⟨a, now, o, ha, running, cause, hb'⟩ := e.ended i hi
    obtain rfl := Option.some.inj (hb.symm.trans hb')
    exact ⟨a, ha, .ends now o running cause⟩
  · exact ⟨b, (e.other i hi).symm.trans hb, .stays⟩

/-- Only an action that runs can still be completed. -/
theorem Ends.not_mem (e : Ends is f g) {a : Action τ π ρ} (ha : f i = some a)
    (stage : a.stage ≠ .running) : i ∉ is := by
  intro hi
  obtain ⟨a', -, -, ha', running, -⟩ := e.ended i hi
  obtain rfl := Option.some.inj (ha.symm.trans ha')
  exact stage running

/-- If nothing has changed, none have ended. -/
theorem Ends.nil (same : ∀ i, g i = f i) : Ends [] f g :=
  ⟨List.nodup_nil, fun i _ => same i, nofun⟩

/-- What has been completed is not completed again. -/
theorem Ends.disjoint (e : Ends is f g) (k : Ends js g h) : ∀ i ∈ is, i ∉ js := by
  intro i hi
  obtain ⟨a, now, o, -, -, -, hb⟩ := e.ended i hi
  exact k.not_mem hb (Action.not_running_complete now o a)

/-- Some have ended, and then others. -/
theorem Ends.trans (e : Ends is f g) (k : Ends js g h) : Ends (is ++ js) f h := by
  have hdisjoint := e.disjoint k
  refine ⟨?nodup, ?other, ?ended⟩
  case nodup =>
    exact List.nodup_append.mpr
      ⟨e.nodup, k.nodup, fun i hi j hj he => hdisjoint i hi (he ▸ hj)⟩
  case other =>
    intro i hi
    rw [List.mem_append, not_or] at hi
    rw [k.other i hi.2, e.other i hi.1]
  case ended =>
    intro i hi
    -- Whoever has ended first is not touched by the second account, and the other way round.
    by_cases hmem : i ∈ is
    · rw [k.other i (hdisjoint i hmem)]
      exact e.ended i hmem
    · have hj : i ∈ js := (List.mem_append.mp hi).resolve_left hmem
      rw [← e.other i hmem]
      exact k.ended i hj

/-- Whatever ended in one account ended in the other, since a completed action does not run. -/
theorem Ends.mem (e : Ends is f g) (k : Ends js f g) (hi : i ∈ is) : i ∈ js := by
  obtain ⟨a, now, o, ha, running, -, hb⟩ := e.ended i hi
  by_contra hj
  -- Otherwise the action would have stayed as it was, and it ran.
  have hsame : (a.complete now o).1 = a :=
    Option.some.inj (hb.symm.trans ((k.other i hj).trans ha))
  exact Action.not_running_complete now o a (hsame.symm ▸ running)

/-- Which actions have been completed can be seen from what they were and what they have become. -/
theorem Ends.perm (e : Ends is f g) (k : Ends js f g) : is.Perm js :=
  (List.perm_ext_iff_of_nodup e.nodup k.nodup).mpr fun _ => ⟨e.mem k, k.mem e⟩

/-- What is told last of an action stays as it is. -/
theorem Ends.farewells_append (e : Ends is f g) (k : Ends js g h) :
    farewells (is ++ js) h = farewells is g ++ farewells js h := by
  unfold farewells
  rw [List.filterMap_append]
  refine congrArg (· ++ _) (List.filterMap_congr fun i hi => ?_)
  rw [k.other i (e.disjoint k i hi)]

end

/-! ## A roster -/

namespace Roster

variable [DecidableEq π] {r s r' : Roster τ π ρ κ} {is js : List Nat} {now i : Nat}

/-- Whether all actions of a roster are plain. -/
def IsPlain (r : Roster τ π ρ κ) : Prop := ∀ i a, r.action? i = some a → a.IsPlain

/-- The actions of some jobs have been completed, and if they are plain, nothing has been seen of
    them but what is told last. -/
structure Finishes (is : List Nat) (r r' : Roster τ π ρ κ) : Prop
    extends Ends is r.action? r'.action? where
  log : r.IsPlain → r'.log = r.log ++ farewells is r'.action?

/-- Actions stay plain while some of them end. -/
theorem Finishes.isPlain (h : Finishes is r r') (hr : r.IsPlain) : r'.IsPlain := by
  intro i b hb
  obtain ⟨a, ha, hab⟩ := h.became hb
  exact (hr i a ha).becomes hab

/-- What changes neither actions nor the log finishes none. -/
theorem Finishes.silent (actions : ∀ i, r'.action? i = r.action? i) (log : r'.log = r.log) :
    Finishes [] r r' :=
  ⟨.nil actions, fun _ => log.trans (List.append_nil _).symm⟩

/-- As long as nothing happens, none finish. -/
theorem Finishes.refl (r : Roster τ π ρ κ) : Finishes [] r r := .silent (fun _ => rfl) rfl

/-- Some actions finish, and then others. -/
theorem Finishes.trans (h : Finishes is r s) (k : Finishes js s r') :
    Finishes (is ++ js) r r' := by
  refine ⟨h.toEnds.trans k.toEnds, fun hr => ?_⟩
  rw [k.log (h.isPlain hr), h.log hr, h.farewells_append k.toEnds, List.append_assoc]

/-- The action of one job is completed, if it runs. -/
theorem finishes_complete (now : Nat) {j : Job τ π ρ} {x : Runner} {k : κ} {o : Outcome ρ}
    (hj : r.jobs[i]? = some j) (cause : j.action.stage = .running → o ≠ .failed .cancelled) :
    ∃ is, Finishes is r (record now (j.action.complete now o).2.1
      { r with host := k, jobs := r.jobs.set i ⟨(j.action.complete now o).1, x⟩ }) := by
  have hi : i < r.jobs.length := (List.getElem?_eq_some_iff.mp hj).1
  have haction : r.action? i = some j.action := by rw [action?, hj, Option.map_some]
  by_cases running : j.action.stage = .running
  · refine ⟨[i], ⟨List.nodup_singleton i, fun y hy => ?_, fun y hy => ?_⟩, fun hr => ?_⟩
    · rw [List.mem_singleton] at hy
      simp only [action?, record, List.getElem?_set_ne (Ne.symm hy)]
    · obtain rfl := List.mem_singleton.mp hy
      refine ⟨j.action, now, o, haction, running, cause running, ?_⟩
      simp only [action?, record, List.getElem?_set_self hi, Option.map_some]
    · have hnotes := (hr i _ haction).notes_complete now o running
      simp only [record, farewells, action?, List.filterMap_cons, List.filterMap_nil,
        List.getElem?_set_self hi, Option.map_some, Option.bind_some, hnotes]
      cases (j.action.complete now o).1.farewell? <;> rfl
  -- Completing an action that does not run does nothing, and nothing is seen of it.
  · refine ⟨[], .silent (fun y => ?_) ?_⟩
    · rw [Action.complete_of_not_running now o running]
      by_cases hy : i = y
      · subst hy
        simp only [action?, record, List.getElem?_set_self hi, hj, Option.map_some]
      · simp only [action?, record, List.getElem?_set_ne hy]
    · rw [Action.complete_of_not_running now o running]
      exact List.append_nil _

/-- A cancellation finishes some actions, if any. -/
theorem finishes_cancel (now x : Nat) (r : Roster τ π ρ κ) :
    ∃ is, Finishes is r (r.cancel now x).1 := by
  unfold Roster.cancel
  cases hj : r.jobs[x]? with
  | none => exact ⟨[], .refl r⟩
  | some j =>
    exact finishes_complete now (x := j.runner) (k := r.host) hj fun _ => nofun

variable [Host κ ω ρ]

/-- Verdicts about different jobs complete the actions of some of them. -/
theorem finishes_closeAll (now : Nat) {vs : List (Nat × Job τ π ρ × Outcome ρ)}
    (current : ∀ v ∈ vs, r.jobs[v.1]? = some v.2.1)
    (cause : ∀ v ∈ vs, v.2.1.action.stage = .running → v.2.2 ≠ .failed .cancelled)
    (distinct : (vs.map Prod.fst).Nodup) : ∃ is, Finishes is r (r.closeAll now vs) := by
  induction vs generalizing r with
  | nil => exact ⟨[], .refl r⟩
  | cons v vs ih =>
    obtain ⟨i, j, o⟩ := v
    obtain ⟨hi, hrest⟩ := List.nodup_cons.mp distinct
    obtain ⟨is, h⟩ := finishes_complete now (x := .closed) (k := Host.abort i r.host)
      (current (i, j, o) List.mem_cons_self) (cause (i, j, o) List.mem_cons_self)
    -- The verdicts that are left are about other jobs, which have not changed.
    have hcurrent : ∀ w ∈ vs, (r.close now i j o).jobs[w.1]? = some w.2.1 := by
      intro w hw
      have hne : i ≠ w.1 := fun he => hi (List.mem_map.mpr ⟨w, hw, he.symm⟩)
      simp only [Roster.close, record, List.getElem?_set_ne hne]
      exact current w (List.mem_cons_of_mem _ hw)
    obtain ⟨js, k⟩ := ih hcurrent (fun w hw => cause w (List.mem_cons_of_mem _ hw)) hrest
    exact ⟨is ++ js, h.trans k⟩

omit [DecidableEq π] in
/-- When the host goes on, nothing happens to the actions. -/
theorem action?_goOn (now : Nat) (r : Roster τ π ρ κ) (i : Nat) :
    (r.goOn now).action? i = r.action? i := by
  rw [goOn_eq, action?, getElem?_jobs_activated, Option.map_map]
  rfl

/-- Settling finishes some actions, if any. -/
theorem finishes_settle (now : Nat) (r : Roster τ π ρ κ) :
    ∃ is, Finishes is r (r.settle now) := by
  -- Jobs are closed in two phases; ripening and going on end no action.
  refine settle_phases (P := fun s => ∃ is, Finishes is r s) ?closing ?ripen ?goOn ⟨[], .refl r⟩
  case closing =>
    rintro s vs hvs ⟨is, h⟩
    have hmem := fun v (hv : v ∈ vs) => mem_verdicts.mp (hvs.subset hv)
    obtain ⟨js, k⟩ := finishes_closeAll now (fun v hv => (hmem v hv).1)
      (fun v hv running => Job.verdict?_ne_failed_cancelled running (hmem v hv).2)
      ((nodup_verdicts now s).sublist (hvs.map _))
    exact ⟨is ++ js, h.trans k⟩
  case ripen =>
    rintro s ⟨is, h⟩
    exact ⟨is ++ [], h.trans (.silent (fun _ => rfl) rfl)⟩
  case goOn =>
    rintro s ⟨is, h⟩
    exact ⟨is ++ [], h.trans (.silent (action?_goOn now s) rfl)⟩

omit [DecidableEq π] in
/-- When a roster has settled, the actions that have published their outcomes are those whose jobs
    are closed. -/
theorem Settled.hasPublished_iff [LawfulHost κ] (h : Settled now r) {a : Action τ π ρ}
    (ha : r.action? i = some a) (fair : a.IsFair) : r.hasPublished i = true ↔ ¬r.IsOpen i := by
  obtain ⟨j, hj, rfl⟩ := Option.map_eq_some_iff.mp ha
  have hmem := List.mem_of_getElem? hj
  have hpub : r.hasPublished i = j.action.published.isSome := by
    rw [hasPublished, ha, Option.any_some]
  have hopen : r.IsOpen i ↔ j.runner.isOpen = true := by
    constructor
    · rintro ⟨k, hk, hopen⟩
      obtain rfl := Option.some.inj (hj.symm.trans hk)
      exact hopen
    · exact fun hopen => ⟨j, hj, hopen⟩
  rw [hpub, hopen]
  -- An open job runs once the roster has settled, and a closed one does not run.
  cases hrunner : j.runner.isOpen with
  | true =>
    rw [fair.published_of_running (h.active j hmem hrunner).2]
    simp
  | false =>
    obtain ⟨o, -, ho⟩ :=
      fair.published_of_not_running (not_running_of_closed (h.isWatched j hmem) hrunner)
    rw [ho]
    simp

end Roster

end Federation
