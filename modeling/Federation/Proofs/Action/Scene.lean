import Federation.Proofs.Action.Deeds

/-!
# Actions with several callers

Several callers may be at work on one action at the same time, and callbacks call it again while
others wait to be called.  What is not divided is a section: the part of a call in which nobody else
can touch the action.  A start, a cancellation, a completion and a registration have one section
each.  Whoever has made the action finish has more to do: take the callbacks out of the queue, one
in each section, until one finds that nobody is left, and then publish the outcome.

A `Scene` is an action with those who are telling everyone that it has finished, and `run` makes
sections of any callers one after the other.  `Coherent` says how the fields of the action fit
together between any two sections.

## Key results

- `Coherent.enter`: every section keeps the fields coherent
- `Coherent.stage_of_published`: what has been published is the outcome of the action
- `Coherent.run_of_published`: nothing happens to an action whose outcome has been published
-/

namespace Federation

variable {τ π ρ : Type}

/-! ## Sections -/

/-- What is left to do for someone who tells everyone that an action has finished. -/
inductive Teller (ρ : Type) where
  /-- Callbacks are to be called, as long as there are any in the queue. -/
  | calling (o : Outcome ρ)
  /-- Nobody was left in the queue.  The outcome is to be published. -/
  | closing (o : Outcome ρ)

/-- An action, and those who are telling everyone that it has finished. -/
structure Scene (τ π ρ : Type) where
  action : Action τ π ρ
  tellers : List (Teller ρ) := []

/-- What someone does to an action while nobody else can touch it. -/
inductive Section (τ π ρ : Type) where
  | start (now : Nat) (p : π)
  | cancel (now : Nat)
  | complete (now : Nat) (o : Outcome ρ)
  | observe (c : Callback τ π)
  /-- One of those who are telling everyone, given by its number, goes on. -/
  | tell (i : Nat)

namespace Scene

/-- An action that has just been made. -/
def first (subject : Subject) (label : String) (deadline : Option Nat) (isFollowed : Bool) :
    Scene τ π ρ :=
  { action :=
      { subject := subject, label := label, deadline := deadline, isFollowed := isFollowed } }

/-- Move from running to finished.  Whoever does it has to tell everyone. -/
def finish (now : Nat) (o : Outcome ρ) (s : Scene τ π ρ) : Scene τ π ρ :=
  match s.action.tryFinish now o with
  | (a, true) => { action := a, tellers := s.tellers ++ [.calling o] }
  | (_, false) => s

/-- Put a callback into the queue, unless the action has finished and nobody is called any more:
    then it is called by whoever has brought it. -/
def observe (c : Callback τ π) (s : Scene τ π ρ) : Scene τ π ρ :=
  match s.action.stage, s.action.isNotifying with
  | .finished _, false => s
  | _, _ => { s with action := s.action.enqueue c }

/-- Take the first callback out of the queue; or find that nobody is left; or, if this has been
    found before, publish the outcome. -/
def tell (i : Nat) (s : Scene τ π ρ) : Scene τ π ρ :=
  match s.tellers[i]?, s.action.callbacks with
  | none, _ => s
  | some (.calling _), _ :: rest => { s with action := { s.action with callbacks := rest } }
  | some (.calling o), [] =>
    { action := { s.action with isNotifying := false }, tellers := s.tellers.set i (.closing o) }
  | some (.closing o), _ =>
    { action := { s.action with published := some o }, tellers := s.tellers.eraseIdx i }

/-- What a section makes of an action. -/
def enter (s : Scene τ π ρ) : Section τ π ρ → Scene τ π ρ
  | .start now p => { s with action := (s.action.tryStart now p).1 }
  | .cancel now => s.finish now .cancelled
  | .complete now o => s.finish now o
  | .observe c => s.observe c
  | .tell i => s.tell i

/-- What sections make of an action, one after the other. -/
def run (s : Scene τ π ρ) (xs : List (Section τ π ρ)) : Scene τ π ρ := xs.foldl enter s

/-- Sections are done one stretch after the other. -/
theorem run_append (s : Scene τ π ρ) (xs ys : List (Section τ π ρ)) :
    s.run (xs ++ ys) = (s.run xs).run ys := List.foldl_append

variable {s : Scene τ π ρ} {a : Action τ π ρ} {ts : List (Teller ρ)} {o : Outcome ρ}

/-- The section that starts an idle action notes the parameters and the instant. -/
theorem start_idle (now : Nat) (p : π) (h : s.action.stage = .idle) :
    s.enter (.start now p) =
      { s with
        action :=
          { s.action with stage := .running, latest := some p, startedAt := some now } } := by
  simp only [enter, Action.tryStart, h]

/-- The section that starts does nothing to an action that is not idle. -/
theorem start_of_not_idle (now : Nat) (p : π) (h : s.action.stage ≠ .idle) :
    s.enter (.start now p) = s := by
  cases hs : s.action.stage with
  | idle => exact absurd hs h
  | running | finished => simp only [enter, Action.tryStart, hs]

/-- Whoever finishes a running action begins to tell the callbacks. -/
theorem finish_running (now : Nat) (o : Outcome ρ) (h : s.action.stage = .running) :
    s.finish now o =
      { action :=
          { s.action with stage := .finished o, finishedAt := some now, isNotifying := true }
        tellers := s.tellers ++ [.calling o] } := by
  simp only [finish, Action.tryFinish_running now o h]

/-- Whoever finds the action not running finishes nothing. -/
theorem finish_of_not_running (now : Nat) (o : Outcome ρ) (h : s.action.stage ≠ .running) :
    s.finish now o = s := by
  simp only [finish, Action.tryFinish_of_not_running now o h]

/-- Whoever comes when everyone has been told is not put in the queue. -/
theorem observe_finished (c : Callback τ π) (h : s.action.stage = .finished o)
    (hidle : s.action.isNotifying = false) : s.observe c = s := by
  simp only [observe, h, hidle]

/-- Whoever comes before the end is put in the queue. -/
theorem observe_of_not_finished (c : Callback τ π) (h : s.action.stage.outcome? = none) :
    s.observe c = { s with action := s.action.enqueue c } := by
  unfold observe
  split
  · next ho _ => exact absurd ho (Stage.ne_finished_of_outcome? h _)
  · rfl

/-- Whoever comes while others are being told is put in the queue. -/
theorem observe_notifying (c : Callback τ π) (h : s.action.isNotifying = true) :
    s.observe c = { s with action := s.action.enqueue c } := by
  unfold observe
  split
  · next hn => exact absurd (hn.symm.trans h) Bool.false_ne_true
  · rfl

/-- A teller that is not there tells nobody. -/
theorem tell_none {i : Nat} (h : s.tellers[i]? = none) : s.tell i = s := by
  simp only [tell, h]

/-- A teller takes the first callback out of the queue. -/
theorem tell_cons {i : Nat} {c : Callback τ π} {rest : List (Callback τ π)}
    (h : s.tellers[i]? = some (.calling o)) (hc : s.action.callbacks = c :: rest) :
    s.tell i = { s with action := { s.action with callbacks := rest } } := by
  simp only [tell, h, hc]

/-- A teller that finds the queue empty comes to its close. -/
theorem tell_nil {i : Nat} (h : s.tellers[i]? = some (.calling o))
    (hc : s.action.callbacks = []) :
    s.tell i =
      { action := { s.action with isNotifying := false }
        tellers := s.tellers.set i (.closing o) } := by
  simp only [tell, h]
  split <;> simp_all

/-- A teller that comes to its close publishes the outcome and leaves. -/
theorem tell_closing {i : Nat} (h : s.tellers[i]? = some (.closing o)) :
    s.tell i =
      { action := { s.action with published := some o }, tellers := s.tellers.eraseIdx i } := by
  simp only [tell, h]

/-! ## What holds between sections -/

/-- How far the news of the end have come.  At most one teller is on the way. -/
inductive News (s : Scene τ π ρ) : Prop
  | awaited (unfinished : s.action.stage.outcome? = none) (tellers : s.tellers = [])
      (isNotifying : s.action.isNotifying = false) (published : s.action.published = none)
  | calling (o : Outcome ρ) (stage : s.action.stage = .finished o)
      (tellers : s.tellers = [.calling o]) (isNotifying : s.action.isNotifying = true)
      (published : s.action.published = none)
  | closing (o : Outcome ρ) (stage : s.action.stage = .finished o)
      (tellers : s.tellers = [.closing o]) (isNotifying : s.action.isNotifying = false)
      (callbacks : s.action.callbacks = []) (published : s.action.published = none)
  | published (o : Outcome ρ) (stage : s.action.stage = .finished o) (tellers : s.tellers = [])
      (isNotifying : s.action.isNotifying = false) (callbacks : s.action.callbacks = [])
      (published : s.action.published = some o)

/-- The fields of an action fit how far it has come. -/
structure Coherent (s : Scene τ π ρ) : Prop where
  startedAt : s.action.startedAt = none ↔ s.action.stage = .idle
  latest : s.action.latest = none ↔ s.action.stage = .idle
  finishedAt : s.action.finishedAt = none ↔ s.action.stage.outcome? = none
  news : s.News

/-- The fields of a new action fit together. -/
theorem coherent_first (subject : Subject) (label : String) (deadline : Option Nat)
    (isFollowed : Bool) :
    Coherent (first (τ := τ) (π := π) (ρ := ρ) subject label deadline isFollowed) where
  startedAt := iff_of_true rfl rfl
  latest := iff_of_true rfl rfl
  finishedAt := iff_of_true rfl rfl
  news := .awaited rfl rfl rfl rfl

/-- The fields fit together after a start. -/
private theorem Coherent.start (h : Coherent s) (now : Nat) (p : π) :
    Coherent (s.enter (.start now p)) := by
  by_cases hs : s.action.stage = .idle
  -- An action that is not idle is not touched.
  case neg =>
    rw [start_of_not_idle now p hs]
    exact h
  have hunfinished : s.action.stage.outcome? = none := by rw [hs]; rfl
  rw [start_idle now p hs]
  refine ⟨iff_of_false nofun nofun, iff_of_false nofun nofun, ?_, ?_⟩
  · exact iff_of_true (h.finishedAt.mpr hunfinished) rfl
  · cases h.news with
    | awaited _ tellers isNotifying published => exact .awaited rfl tellers isNotifying published
    | calling o stage | closing o stage | published o stage => exact nomatch hs.symm.trans stage

/-- The fields fit together after an end. -/
private theorem Coherent.finish (h : Coherent s) (now : Nat) (o : Outcome ρ) :
    Coherent (s.finish now o) := by
  by_cases hs : s.action.stage = .running
  -- An action that does not run is not touched.
  case neg =>
    rw [finish_of_not_running now o hs]
    exact h
  have hbegun : s.action.stage ≠ .idle := by rw [hs]; exact nofun
  rw [finish_running now o hs]
  refine ⟨?_, ?_, iff_of_false nofun nofun, ?_⟩
  · exact iff_of_false (h.startedAt.not.mpr hbegun) nofun
  · exact iff_of_false (h.latest.not.mpr hbegun) nofun
  · cases h.news with
    | awaited _ tellers _ published =>
      exact .calling o rfl (by rw [tellers]; rfl) rfl published
    | calling o stage | closing o stage | published o stage => exact nomatch hs.symm.trans stage

/-- The fields fit together after a registration. -/
private theorem Coherent.observe (h : Coherent s) (c : Callback τ π) : Coherent (s.observe c) := by
  -- Only before the end and while others are being told is there a queue to join.
  cases h.news with
  | awaited unfinished tellers isNotifying published =>
    rw [observe_of_not_finished c unfinished]
    exact ⟨h.startedAt, h.latest, h.finishedAt, .awaited unfinished tellers isNotifying published⟩
  | calling o stage tellers isNotifying published =>
    rw [observe_notifying c isNotifying]
    exact ⟨h.startedAt, h.latest, h.finishedAt, .calling o stage tellers isNotifying published⟩
  | closing o stage _ isNotifying | published o stage _ isNotifying =>
    rw [observe_finished c stage isNotifying]
    exact h

/-- The fields fit together after a step of a teller. -/
private theorem Coherent.tell (h : Coherent s) (i : Nat) : Coherent (s.tell i) := by
  cases ht : s.tellers[i]? with
  | none => exact (tell_none ht).symm ▸ h
  | some t =>
    -- Nobody else is telling, so the one who goes on is the one whom the news are with.
    have only : ∀ u, s.tellers = [u] → i = 0 ∧ u = t := by
      intro u hu
      rw [hu, List.getElem?_singleton] at ht
      simpa using ht
    cases h.news with
    | awaited _ tellers | published _ _ tellers => simp [tellers] at ht
    | calling o stage tellers isNotifying published =>
      obtain ⟨rfl, rfl⟩ := only _ tellers
      cases hc : s.action.callbacks with
      | cons c rest =>
        rw [tell_cons ht hc]
        exact ⟨h.startedAt, h.latest, h.finishedAt,
          .calling o stage tellers isNotifying published⟩
      | nil =>
        rw [tell_nil ht hc]
        exact ⟨h.startedAt, h.latest, h.finishedAt,
          .closing o stage (by rw [tellers]; rfl) rfl hc published⟩
    | closing o stage tellers isNotifying callbacks published =>
      obtain ⟨rfl, rfl⟩ := only _ tellers
      rw [tell_closing ht]
      exact ⟨h.startedAt, h.latest, h.finishedAt,
        .published o stage (by rw [tellers]; rfl) isNotifying callbacks rfl⟩

/-- Whoever does something to an action, its fields are coherent afterwards. -/
theorem Coherent.enter (h : Coherent s) (x : Section τ π ρ) : Coherent (s.enter x) := by
  cases x with
  | start now p => exact h.start now p
  | cancel now => exact h.finish now .cancelled
  | complete now o => exact h.finish now o
  | observe c => exact h.observe c
  | tell i => exact h.tell i

/-- The fields fit together after any sections. -/
theorem Coherent.run (h : Coherent s) (xs : List (Section τ π ρ)) : Coherent (s.run xs) := by
  induction xs generalizing s with
  | nil => exact h
  | cons x xs ih => exact ih (h.enter x)

/-- Only the callbacks of an action that has finished are told. -/
theorem Coherent.outcome_of_notifying (h : Coherent s) (hn : s.action.isNotifying = true) :
    s.action.stage.outcome? ≠ none := by
  cases h.news with
  | calling o stage => rw [stage]; exact nofun
  | awaited _ _ isNotifying | closing _ _ _ isNotifying | published _ _ _ isNotifying =>
    exact nomatch isNotifying.symm.trans hn

/-- Whoever waits in the queue of an action that has finished is going to be told. -/
theorem Coherent.notifying_of_callbacks (h : Coherent s) (ho : s.action.stage.outcome? ≠ none)
    (hc : s.action.callbacks ≠ []) : s.action.isNotifying = true := by
  cases h.news with
  | awaited unfinished => exact absurd unfinished ho
  | calling _ _ _ isNotifying => exact isNotifying
  | closing _ _ _ _ callbacks | published _ _ _ _ callbacks => exact absurd callbacks hc

/-- What has been published is the outcome, and everyone in the queue has been told before. -/
theorem Coherent.stage_of_published (h : Coherent s) (ho : s.action.published = some o) :
    s.action.stage = .finished o ∧ s.action.callbacks = [] ∧ s.action.isNotifying = false := by
  cases h.news with
  | awaited _ _ _ published | calling _ _ _ _ published | closing _ _ _ _ _ published =>
    exact nomatch published.symm.trans ho
  | published p stage _ isNotifying callbacks published =>
    obtain rfl := Option.some.inj (published.symm.trans ho)
    exact ⟨stage, callbacks, isNotifying⟩

/-- Once the outcome has been published, no section changes anything. -/
theorem Coherent.enter_of_published (h : Coherent s) (ho : s.action.published = some o)
    (x : Section τ π ρ) : s.enter x = s := by
  -- The outcome is published, so nobody tells any more, and the action has finished.
  cases h.news with
  | awaited _ _ _ published | calling _ _ _ _ published | closing _ _ _ _ _ published =>
    exact nomatch published.symm.trans ho
  | published o stage tellers isNotifying =>
    have hrunning : s.action.stage ≠ .running := by rw [stage]; exact nofun
    have hbegun : s.action.stage ≠ .idle := by rw [stage]; exact nofun
    cases x with
    | start now p => exact start_of_not_idle now p hbegun
    | cancel now => exact finish_of_not_running now .cancelled hrunning
    | complete now o => exact finish_of_not_running now o hrunning
    | observe c => exact observe_finished c stage isNotifying
    | tell i => exact tell_none (by rw [tellers]; rfl)

/-- Once the outcome is published, no section changes anything. -/
theorem Coherent.run_of_published (h : Coherent s) (ho : s.action.published = some o)
    (xs : List (Section τ π ρ)) : s.run xs = s := by
  induction xs with
  | nil => rfl
  | cons x xs ih =>
    calc s.run (x :: xs) = (s.enter x).run xs := rfl
      _ = s.run xs := by rw [h.enter_of_published ho x]
      _ = s := ih

end Scene

end Federation
