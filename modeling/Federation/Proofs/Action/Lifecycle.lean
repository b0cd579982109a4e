import Federation.Action.Bench
import Federation.Proofs.Action.History
import Federation.Proofs.Action.Settling

/-!
# The lifecycle of an action

An action is idle, then it runs, then it has finished.  The outcome is read in four places: in the
state, among what is published, from callbacks, and as the answer to a late start.  They are written
at different moments, but whenever a call returns they agree: as long as the action has not
finished, nothing has been told of an outcome, and every callback is in the queue; afterwards
everything that is seen is the one outcome.  `Sound` says this, and every move keeps it.

## Key results

- `Sound.act`: one move keeps an action sound and takes it on, if it does anything
- `lifecycle`: what a whole history keeps
-/

namespace Federation.Roster

variable {τ π ρ κ ω : Type} {tags : List τ} {n : Nat} {o : Outcome ρ}

/-! ## The invariant -/

/-- Nothing has been told of an outcome, and the callbacks of some tags are still in the queue. -/
structure Undecided (tags : List τ) (log : List (Nat × Note τ ρ)) (a : Action τ π ρ) : Prop where
  published : a.published = none
  isNotifying : a.isNotifying = false
  queued : ∀ tag ∈ tags, tag ∈ a.callbacks.flatMap Callback.tags
  seen : ∀ e ∈ log, ∀ o, e.2.Agrees o

/-- Everybody has been told an outcome, among them the callbacks of some tags. -/
structure Decided (tags : List τ) (o : Outcome ρ) (log : List (Nat × Note τ ρ))
    (a : Action τ π ρ) : Prop where
  published : a.published = some o
  isNotifying : a.isNotifying = false
  called : ∀ tag ∈ tags, ∃ now, (now, .called tag o) ∈ log
  seen : ∀ e ∈ log, e.2.Agrees o

/-- What holds of an action between any two moves, given the tags of all callbacks that have been
    registered and how many starts were answered that they found it idle. -/
inductive Sound (tags : List τ) (n : Nat) (r : Roster τ π ρ (Recorder κ ω)) : Prop
  | idle (j : Job τ π ρ) (job : r.jobs = [j]) (stage : j.action.stage = .idle)
      (pending : Undecided tags r.log j.action) (made : r.host.made = []) (starts : n = 0)
  | running (j : Job τ π ρ) (job : r.jobs = [j]) (stage : j.action.stage = .running)
      (pending : Undecided tags r.log j.action) (made : r.host.made.length ≤ 1) (starts : n ≤ 1)
  | finished (j : Job τ π ρ) (o : Outcome ρ) (job : r.jobs = [j])
      (stage : j.action.stage = .finished o) (settled : Decided tags o r.log j.action)
      (made : r.host.made.length ≤ 1) (starts : n ≤ 1)

/-- How far the action has come. -/
def stage? (r : Roster τ π ρ κ) : Option (Stage ρ) := (r.action? 0).map Action.stage

/-- The stage of the roster is that of its only job. -/
theorem stage?_eq {r : Roster τ π ρ κ} {j : Job τ π ρ} (h : r.jobs = [j]) :
    r.stage? = some j.action.stage := by
  simp [stage?, action?, h]

/-- How the stage of an action may change in one move. -/
inductive Advance : Option (Stage ρ) → Option (Stage ρ) → Prop
  | stay (s : Option (Stage ρ)) : Advance s s
  | start : Advance (some .idle) (some .running)
  | finish (o : Outcome ρ) : Advance (some .running) (some (.finished o))
  | fail (o : Outcome ρ) : Advance (some .idle) (some (.finished o))

/-- What a move does that takes a sound action from one roster to another. -/
structure Kept (tags : List τ) (n : Nat) (r s : Roster τ π ρ (Recorder κ ω))
    (answers : List (Answer ρ)) : Prop where
  sound : Sound tags (n + answers.countP Answer.isStarted) s
  advance : Advance r.stage? s.stage?
  agrees : ∀ o, r.stage? = some (.finished o) → ∀ x ∈ answers, x.Agrees o

variable {r s : Roster τ π ρ (Recorder κ ω)} {j : Job τ π ρ}

/-- A sound roster has one job. -/
private theorem Sound.jobs_eq (h : Sound tags n r) : ∃ j, r.jobs = [j] := by
  cases h with
  | idle j job | running j job | finished j _ job => exact ⟨j, job⟩

/-- Only the action, what was seen of it, and the work that was launched matter. -/
private theorem Sound.congr {k : Job τ π ρ} (h : Sound tags n r) (hj : r.jobs = [j])
    (hk : s.jobs = [k]) (action : k.action = j.action) (log : s.log = r.log)
    (made : s.host.made = r.host.made) :
    Sound tags n s ∧ Advance r.stage? s.stage? := by
  rw [stage?_eq hj, stage?_eq hk, action]
  refine ⟨?_, .stay _⟩
  -- What is known depends on the stage, and the two actions are at the same one.
  cases h with
  | idle i job stage pending unmade starts =>
    obtain rfl := List.singleton_inj.mp (job.symm.trans hj)
    exact .idle k hk (action ▸ stage) (by rw [log, action]; exact pending) (made.trans unmade)
      starts
  | running i job stage pending once starts =>
    obtain rfl := List.singleton_inj.mp (job.symm.trans hj)
    exact .running k hk (action ▸ stage) (by rw [log, action]; exact pending) (made ▸ once) starts
  | finished i o job stage settled once starts =>
    obtain rfl := List.singleton_inj.mp (job.symm.trans hj)
    exact .finished k o hk (action ▸ stage) (by rw [log, action]; exact settled) (made ▸ once)
      starts

/-- A move that changes nothing. -/
private theorem Sound.stay (h : Sound tags n r) {x : Answer ρ} (hx : x.isStarted = false)
    (hagrees : ∀ o, r.stage? = some (.finished o) → x.Agrees o) : Kept tags n r r [x] where
  sound := by simpa [hx] using h
  advance := .stay _
  agrees := by
    intro o ho y hy
    rw [List.mem_singleton] at hy
    exact hy ▸ hagrees o ho

/-! ## The end -/

variable [DecidableEq π]

/-- Completing the action keeps it sound, whatever becomes of its runner and of the host. -/
private theorem Sound.complete {k : Job τ π ρ} (h : Sound tags n r) (hj : r.jobs = [j])
    (now : Nat) (o : Outcome ρ) (hk : s.jobs = [k])
    (action : k.action = (j.action.complete now o).1)
    (log : s.log = r.log ++ (j.action.complete now o).2.1.map fun x => (now, x))
    (made : s.host.made = r.host.made) :
    Sound tags n s ∧ Advance r.stage? s.stage? := by
  -- Completing an action that does not run changes nothing.
  by_cases hrunning : j.action.stage = .running
  case neg =>
    rw [Action.complete_of_not_running now o hrunning] at action log
    exact h.congr hj hk action (by rw [log, List.map_nil, List.append_nil]) made
  cases h with
  | idle i job stage =>
    obtain rfl := List.singleton_inj.mp (job.symm.trans hj)
    exact nomatch stage.symm.trans hrunning
  | finished i o' job stage =>
    obtain rfl := List.singleton_inj.mp (job.symm.trans hj)
    exact nomatch stage.symm.trans hrunning
  | running i job stage pending once starts =>
    obtain rfl := List.singleton_inj.mp (job.symm.trans hj)
    obtain ⟨ha, htold, -⟩ := Action.complete_running now o stage
    rw [ha] at action
    have hstage : k.action.stage = .finished o := by rw [action]
    rw [stage?_eq hj, stage?_eq hk, stage, hstage]
    -- Whoever was to be told has been told, now or before.
    refine ⟨.finished k o hk hstage ?_ (made ▸ once) starts, .finish o⟩
    refine ⟨by rw [action], by rw [action], ?_, ?_⟩
    · intro tag htag
      refine ⟨now, ?_⟩
      rw [log]
      exact List.mem_append_right _
        (List.mem_map_of_mem (htold.called tag (pending.queued tag htag)))
    · intro e he
      rw [log] at he
      rcases List.mem_append.mp he with he | he
      · exact pending.seen e he o
      · obtain ⟨x, hx, rfl⟩ := List.mem_map.mp he
        exact htold.agrees x hx

/-! ## Starts -/

/-- What a start tells its caller, given how far the action has come. -/
def found : Stage ρ → Except Fault (Launch ρ)
  | .idle => .ok .started
  | .running => .error .alreadyInProgress
  | .finished o => .ok (.alreadyFinished o)

omit [DecidableEq π] in
/-- What is seen when an observer of the federation is told of the start fits every outcome. -/
private theorem agrees_of_mem_tell_started {a : Action τ π ρ} {subject : Subject} {x : Note τ ρ}
    (h : x ∈ a.tell (.started subject)) (o : Outcome ρ) : x.Agrees o := by
  unfold Action.tell at h
  split at h
  · rw [List.mem_singleton] at h
    subst h
    trivial
  · exact absurd h List.not_mem_nil

omit [DecidableEq π] in
/-- An action that has just been started has not told anything of an outcome. -/
private theorem Undecided.start {log : List (Nat × Note τ ρ)} {a b : Action τ π ρ} {now : Nat}
    {p : π} (h : Undecided tags log a)
    (hb : b = { a with stage := .running, latest := some p, startedAt := some now }) :
    Undecided tags (log ++ (b.tell (.started b.subject)).map fun x => (now, x)) b := by
  subst hb
  refine ⟨h.published, h.isNotifying, h.queued, ?_⟩
  intro e he
  rcases List.mem_append.mp he with he | he
  · exact h.seen e he
  · obtain ⟨x, hx, rfl⟩ := List.mem_map.mp he
    exact agrees_of_mem_tell_started hx

variable [Host κ ω ρ]

omit [DecidableEq π] in
/-- A start of a sound action: it begins only if it is idle, and then its work is launched. -/
private theorem Sound.start (h : Sound tags n r) (now : Nat) (p : π) (request : ω) :
    ∃ stage, r.stage? = some stage ∧ (r.start now 0 p request).2 = some (found stage) ∧
      Sound tags (n + if found stage matches .ok .started then 1 else 0)
        (r.start now 0 p request).1 ∧
      Advance r.stage? (r.start now 0 p request).1.stage? := by
  cases h with
  | idle j job stage pending unmade starts =>
    let b : Action τ π ρ :=
      { j.action with stage := .running, latest := some p, startedAt := some now }
    let k : Job τ π ρ := { action := b, runner := .fresh (j.action.deadline.map (now + ·)) }
    -- The action is idle, so it begins to run, and its work is launched for the first time.
    have hstart : j.action.start now p = (b, b.tell (.started b.subject), .ok .started) := by
      simp only [Action.start, Action.tryStart, stage, b]
    have hr : r.start now 0 p request =
        ({ host := Host.submit 0 request r.host, jobs := [k],
           log := r.log ++ (b.tell (.started b.subject)).map fun x => (now, x) },
          some (.ok .started)) := by
      simp only [Roster.start, job, List.getElem?_cons_zero, hstart, record, List.set_cons_zero]
      rfl
    refine ⟨.idle, by rw [stage?_eq job, stage], by rw [hr, found], ?_, ?_⟩
    · rw [hr]
      refine .running k rfl rfl (pending.start rfl) ?_ (by simp [found, starts])
      simp [Recorder.made_submit, unmade]
    · rw [hr, stage?_eq job, stage]
      exact .start
  -- An action that is not idle answers what it is, and stays as it was.
  | running j job stage pending once starts =>
    have hr : r.start now 0 p request = (r, some (.error .alreadyInProgress)) := by
      simp [Roster.start, job, Action.start, Action.tryStart, stage]
    rw [hr]
    exact ⟨.running, by rw [stage?_eq job, stage], rfl,
      .running j job stage pending once starts, .stay _⟩
  | finished j o job stage settled once starts =>
    have hr : r.start now 0 p request = (r, some (.ok (.alreadyFinished o))) := by
      simp [Roster.start, job, Action.start, Action.tryStart, stage]
    rw [hr]
    exact ⟨.finished o, by rw [stage?_eq job, stage], rfl,
      .finished j o job stage settled once starts, .stay _⟩

omit [DecidableEq π] [Host κ ω ρ] in
/-- What holds when more starts have begun holds when fewer of them are counted. -/
private theorem Sound.mono {m : Nat} (h : Sound tags n r) (hm : m ≤ n) : Sound tags m r := by
  cases h with
  | idle j job stage pending unmade starts =>
    exact .idle j job stage pending unmade (by omega)
  | running j job stage pending once starts =>
    exact .running j job stage pending once (by omega)
  | finished j o job stage settled once starts =>
    exact .finished j o job stage settled once (by omega)

omit [DecidableEq π] in
/-- A start keeps the action sound. -/
private theorem kept_start (h : Sound tags n r) (now : Nat) (p : π) (request : ω) :
    Kept tags n r (r.start now 0 p request).1
      ((r.start now 0 p request).2.toList.map .started) := by
  obtain ⟨stage, hstage, hanswer, hsound, hadvance⟩ := h.start now p request
  rw [hanswer]
  refine ⟨?_, hadvance, ?_⟩
  · refine hsound.mono ?_
    cases stage <;> simp [found, Answer.isStarted]
  · intro o ho x hx
    obtain rfl := Option.some.inj (hstage.symm.trans ho)
    rw [Option.toList_some, List.map_singleton, List.mem_singleton] at hx
    subst hx
    rfl

omit [DecidableEq π] in
/-- A run keeps the action sound. -/
private theorem kept_run (h : Sound tags n r) (now : Nat) (p : π) (request : ω) :
    Kept tags n r (r.run now 0 p request).1 [.replied (r.run now 0 p request).2] := by
  obtain ⟨stage, hstage, hanswer, hsound, hadvance⟩ := h.start now p request
  -- A run is a start whose answer is turned into a reply.
  have hr : r.run now 0 p request =
      ((r.start now 0 p request).1, .ofLaunch (found stage)) := by
    unfold Roster.run
    split
    · next hs => rw [hs] at hanswer ⊢; rw [Option.some.inj hanswer]
    · next hs => rw [hs] at hanswer; exact nomatch hanswer
  rw [hr]
  refine ⟨hsound.mono (by simp [Answer.isStarted]), hadvance, ?_⟩
  intro o ho x hx
  obtain rfl := Option.some.inj (hstage.symm.trans ho)
  rw [List.mem_singleton] at hx
  subst hx
  rfl

/-- A start or join keeps the action sound. -/
private theorem kept_startOrJoin (h : Sound tags n r) (now : Nat) (p : π) (request : ω) :
    Kept tags n r (r.startOrJoin now 0 p request).1
      [.replied (r.startOrJoin now 0 p request).2] := by
  unfold Roster.startOrJoin
  split
  · exact h.stay rfl fun o _ => trivial
  · next a ha =>
    split
    · next reply hjoin =>
      refine h.stay rfl fun o ho => ?_
      -- Only an action that runs can be joined.
      simp only [stage?, ha, Option.map_some, Option.some.injEq] at ho
      rw [Action.join?_finished p ho] at hjoin
      cases hjoin
    · exact kept_run h now p request

/-! ## Other calls -/

omit [Host κ ω ρ] in
/-- A cancellation keeps the action sound. -/
private theorem kept_cancel (h : Sound tags n r) (now : Nat) :
    Kept tags n r (r.cancel now 0).1 [.cancelled (r.cancel now 0).2] := by
  obtain ⟨j, hj⟩ := h.jobs_eq
  let x := j.action.complete now .cancelled
  let s : Roster τ π ρ (Recorder κ ω) :=
    { r with
      jobs := [{ j with action := x.1 }]
      log := r.log ++ x.2.1.map fun note => (now, note) }
  have hr : r.cancel now 0 = (s, x.2.2) := by
    simp only [Roster.cancel, hj, List.getElem?_cons_zero, List.set_cons_zero, Action.cancel,
      record, s, x]
  rw [hr]
  obtain ⟨hsound, hadvance⟩ := h.complete (s := s) hj now .cancelled rfl rfl rfl rfl
  refine ⟨by simpa [Answer.isStarted] using hsound, hadvance, ?_⟩
  intro o ho y hy
  rw [stage?_eq hj, Option.some.injEq] at ho
  -- An action that has finished is not cancelled any more.
  have hx : x = (j.action, [], false) :=
    Action.complete_of_not_running now _ (by rw [ho]; intro h; cases h)
  rw [List.mem_singleton, hx] at hy
  subst hy
  rfl

/-- Where nobody is to do its work, an idle action fails as soon as it is started. -/
private theorem kept_startUnattended (h : Sound tags n r) (now : Nat) (p : π) :
    Kept tags n r (r.act now (.startUnattended p)).1 (r.act now (.startUnattended p)).2 := by
  cases h with
  | idle j job stage pending unmade starts =>
    let b : Action τ π ρ :=
      { j.action with stage := .running, latest := some p, startedAt := some now }
    let x := b.complete now (.failed Action.unattended)
    let m : Roster τ π ρ (Recorder κ ω) :=
      { r with
        jobs := [{ j with action := b }]
        log := r.log ++ (b.tell (.started b.subject)).map fun note => (now, note) }
    let s : Roster τ π ρ (Recorder κ ω) :=
      { m with
        jobs := [{ j with action := x.1 }]
        log := m.log ++ x.2.1.map fun note => (now, note) }
    have hstart : j.action.startUnattended now p =
        (x.1, b.tell (.started b.subject) ++ x.2.1, .ok .started) := by
      simp only [Action.startUnattended, Action.start, Action.tryStart, stage, x, b]
    have hr : r.act now (.startUnattended p) = (s, [.started (.ok .started)]) := by
      simp only [act, job, List.getElem?_cons_zero, hstart, List.set_cons_zero, record,
        List.map_append, s, m, List.append_assoc]
    -- In between the action runs, and it is completed from there.
    have hm : Sound tags (n + 1) m :=
      .running _ rfl rfl (pending.start rfl) (by simp [m, unmade]) (by omega)
    obtain ⟨hsound, -⟩ := hm.complete (s := s) rfl now (.failed Action.unattended) rfl rfl rfl rfl
    have hs : s.stage? = some (.finished (.failed Action.unattended)) := by
      rw [stage?_eq (j := { j with action := x.1 }) rfl]
      simp only [x, (Action.complete_running now (.failed Action.unattended) (a := b) rfl).1]
    rw [hr]
    refine ⟨by simpa [Answer.isStarted] using hsound, ?_, ?_⟩
    · rw [stage?_eq job, stage, hs]
      exact .fail _
    · intro o ho
      rw [stage?_eq job, stage] at ho
      cases ho
  -- An action that is not idle is not started, so it does not fail either.
  | running j job stage pending once starts =>
    have hstart : j.action.startUnattended now p = (j.action, [], .error .alreadyInProgress) := by
      simp only [Action.startUnattended, Action.start, Action.tryStart, stage]
    have hr : r.act now (.startUnattended p) = (r, [.started (.error .alreadyInProgress)]) := by
      simp only [act, job, List.getElem?_cons_zero, hstart, List.set_cons_zero, record,
        List.map_nil, List.append_nil]
      rw [← job]
    rw [hr]
    refine Sound.stay (.running j job stage pending once starts) rfl fun o ho => ?_
    rw [stage?_eq job, stage] at ho
    cases ho
  | finished j o job stage settled once starts =>
    have hstart : j.action.startUnattended now p = (j.action, [], .ok (.alreadyFinished o)) := by
      simp only [Action.startUnattended, Action.start, Action.tryStart, stage]
    have hr : r.act now (.startUnattended p) = (r, [.started (.ok (.alreadyFinished o))]) := by
      simp only [act, job, List.getElem?_cons_zero, hstart, List.set_cons_zero, record,
        List.map_nil, List.append_nil]
      rw [← job]
    rw [hr]
    refine Sound.stay (.finished j o job stage settled once starts) rfl fun o' ho => ?_
    rw [stage?_eq job, stage] at ho
    cases ho
    rfl

omit [DecidableEq π] [Host κ ω ρ] in
/-- A callback that joins the queue. -/
private theorem Undecided.enqueue {log : List (Nat × Note τ ρ)} {a : Action τ π ρ}
    (h : Undecided tags log a) (c : Callback τ π) :
    Undecided (tags ++ c.tags) log (a.enqueue c) where
  published := h.published
  isNotifying := h.isNotifying
  queued := by
    intro tag htag
    rw [Action.enqueue, List.flatMap_append, List.flatMap_singleton]
    rcases List.mem_append.mp htag with htag | htag
    · exact List.mem_append_left _ (h.queued tag htag)
    · exact List.mem_append_right _ htag
  seen := h.seen

omit [Host κ ω ρ] in
/-- A callback that is registered keeps the action sound, and is one more to be called. -/
private theorem kept_observe (h : Sound tags n r) (now : Nat) (c : Callback τ π) :
    Kept (tags ++ c.tags) n r (r.observe now 0 c) [.observed] := by
  obtain ⟨j, hj⟩ := h.jobs_eq
  let x := j.action.observe now c
  have hr : r.observe now 0 c =
      { r with
        jobs := [{ j with action := x.1 }]
        log := r.log ++ x.2.map fun note => (now, note) } := by
    simp only [Roster.observe, hj, List.getElem?_cons_zero, List.set_cons_zero, record, x]
  rw [hr]
  -- The callback joins the queue, or is called at once.
  have hsound : Sound (tags ++ c.tags) n
        { r with
          jobs := [{ j with action := x.1 }]
          log := r.log ++ x.2.map fun note => (now, note) } ∧
      x.1.stage = j.action.stage := by
    -- Before the end it waits; afterwards it is called, and nothing else is seen.
    cases h with
    | idle i job stage pending unmade starts =>
      obtain rfl := List.singleton_inj.mp (job.symm.trans hj)
      have hx : x = (i.action.enqueue c, []) :=
        Action.observe_of_not_finished now c (by rw [stage]; intro o ho; cases ho)
      simp only [hx, List.map_nil, List.append_nil]
      exact ⟨.idle _ rfl stage (pending.enqueue c) unmade starts, rfl⟩
    | running i job stage pending once starts =>
      obtain rfl := List.singleton_inj.mp (job.symm.trans hj)
      have hx : x = (i.action.enqueue c, []) :=
        Action.observe_of_not_finished now c (by rw [stage]; intro o ho; cases ho)
      simp only [hx, List.map_nil, List.append_nil]
      exact ⟨.running _ rfl stage (pending.enqueue c) once starts, rfl⟩
    | finished i o job stage settled once starts =>
      obtain rfl := List.singleton_inj.mp (job.symm.trans hj)
      obtain ⟨hsame, htold⟩ := Action.observe_finished now c stage settled.isNotifying
      have hx : x.1 = i.action := hsame
      rw [hx]
      refine ⟨.finished i o rfl stage ?_ once starts, rfl⟩
      refine ⟨settled.published, settled.isNotifying, ?_, ?_⟩
      · intro tag htag
        rcases List.mem_append.mp htag with htag | htag
        · obtain ⟨t, ht⟩ := settled.called tag htag
          exact ⟨t, List.mem_append_left _ ht⟩
        · exact ⟨now, List.mem_append_right _ (List.mem_map_of_mem (htold.called tag htag))⟩
      · intro e he
        rcases List.mem_append.mp he with he | he
        · exact settled.seen e he
        · obtain ⟨note, hnote, rfl⟩ := List.mem_map.mp he
          exact htold.agrees note hnote
  refine ⟨hsound.1, ?_, fun o _ y hy => ?_⟩
  · rw [stage?_eq hj, stage?_eq (j := { j with action := x.1 }) rfl, hsound.2]
    exact .stay _
  · rw [List.mem_singleton] at hy
    subst hy
    trivial

/-! ## What happens at an instant -/

omit [DecidableEq π] [Host κ ω ρ] in
/-- One advance after another is an advance. -/
theorem Advance.trans {a b c : Option (Stage ρ)} (h : Advance a b) (k : Advance b c) :
    Advance a c := by
  cases h with
  | stay => exact k
  | start =>
    cases k with
    | stay => exact .start
    | finish o => exact .fail o
  | finish o | fail o =>
    cases k with
    | stay => constructor

/-- Whatever happens at an instant, the action stays sound. -/
private theorem kept_settle (h : Sound tags n r) (now : Nat) : Kept tags n r (r.settle now) [] := by
  have key : Sound tags n (r.settle now) ∧ Advance r.stage? (r.settle now).stage? := by
    refine settle_induction (P := fun s => Sound tags n s ∧ Advance r.stage? s.stage?)
      ?_ ?_ ?_ ⟨h, .stay _⟩
    · rintro s i j o hj ⟨hs, hadvance⟩
      obtain ⟨k, hk⟩ := hs.jobs_eq
      -- There is only one job that can be closed.
      obtain ⟨rfl, rfl⟩ : i = 0 ∧ k = j := by
        rw [hk] at hj
        obtain ⟨hi, hj⟩ := List.getElem?_eq_some_iff.mp hj
        obtain rfl : i = 0 := by simpa using hi
        exact ⟨rfl, hj⟩
      obtain ⟨hsound, hnext⟩ := hs.complete (s := s.close now 0 k o)
        (k := { action := (k.action.complete now o).1, runner := .closed }) hk now o
        (by simp [Roster.close, record, hk]) rfl rfl rfl
      exact ⟨hsound, hadvance.trans hnext⟩
    · rintro s ⟨hs, hadvance⟩
      obtain ⟨k, hk⟩ := hs.jobs_eq
      obtain ⟨hsound, hnext⟩ :=
        hs.congr (s := { s with host := Host.ripen now s.host }) hk hk rfl rfl rfl
      exact ⟨hsound, hadvance.trans hnext⟩
    · rintro s ⟨hs, hadvance⟩
      obtain ⟨k, hk⟩ := hs.jobs_eq
      obtain ⟨hsound, hnext⟩ := hs.congr (s := s.goOn now)
        (k := { k with
          runner := k.runner.activate (Host.due? (Timed.settle now s.host) 0).isSome })
        hk (by simp [Roster.goOn, hk]) rfl rfl rfl
      exact ⟨hsound, hadvance.trans hnext⟩
  exact ⟨key.1, key.2, fun _ _ _ hx => absurd hx List.not_mem_nil⟩

/-! ## Histories -/

/-- One move keeps the action sound, takes it on, if it does anything, and agrees with the outcome
    of an action that has finished. -/
theorem Sound.act (h : Sound tags n r) (now : Nat) (m : Move τ π κ ω) :
    Kept (tags ++ m.tags) n r (r.act now m).1 (r.act now m).2 := by
  obtain ⟨j, hj⟩ := h.jobs_eq
  have hj' : r.action? 0 = some j.action := by simp [action?, hj]
  have plain (hm : m.tags = []) (hk : Kept tags n r (r.act now m).1 (r.act now m).2) :
      Kept (tags ++ m.tags) n r (r.act now m).1 (r.act now m).2 := by
    rw [hm, List.append_nil]
    exact hk
  -- Most moves bring no callback, so the tags stay as they are.
  cases m with
  | observe c => exact kept_observe h now c
  | start p request => exact plain rfl (kept_start h now p request)
  | startUnattended p => exact plain rfl (kept_startUnattended h now p)
  | run p request => exact plain rfl (kept_run h now p request)
  | startOrJoin p request => exact plain rfl (kept_startOrJoin h now p request)
  | cancel => exact plain rfl (kept_cancel h now)
  | wait => exact plain rfl (h.stay (x := .replied .awaited) rfl fun _ _ => trivial)
  | result =>
    refine plain rfl ?_
    rw [Roster.act, hj', Option.toList_some, List.map_singleton]
    refine h.stay rfl fun o ho => ?_
    rw [stage?_eq hj, Option.some.injEq] at ho
    exact (Action.result_eq_ok_iff _ o).mpr ho
  | status =>
    refine plain rfl ?_
    rw [Roster.act, hj', Option.toList_some, List.map_singleton]
    refine h.stay rfl fun o ho => ?_
    rw [stage?_eq hj, Option.some.injEq] at ho
    exact Action.status_finished ho
  | settle => exact plain rfl (kept_settle h now)
  | evolve f =>
    obtain ⟨hsound, hadvance⟩ := h.congr
      (s := { r with host := { r.host with host := f r.host.host } }) hj hj rfl rfl rfl
    exact plain rfl ⟨hsound, hadvance, fun _ _ _ hx => nomatch hx⟩

/-- Moves that are made one after the other keep the action sound. -/
theorem Sound.play (h : Sound tags n r) (moves : List (Nat × Move τ π κ ω)) :
    Sound (tags ++ Move.tagsOfList moves) (n + (r.play moves).2.countP Answer.isStarted)
        (r.play moves).1 ∧
      Relation.ReflTransGen Advance r.stage? (r.play moves).1.stage? := by
  -- Induction on the moves; each may add tags and starts.
  induction moves generalizing tags n r with
  | nil => exact ⟨by simpa [Roster.play, Move.tagsOfList] using h, .refl⟩
  | cons m moves ih =>
    obtain ⟨now, m⟩ := m
    have hm := h.act now m
    obtain ⟨hsound, hadvance⟩ := ih hm.sound
    refine ⟨?_, .head hm.advance hadvance⟩
    simpa [Roster.play, Move.tagsOfList, Nat.add_assoc] using hsound

/-- Whatever is done with an action that has finished, the callers' answers agree with its
    outcome, and that stays. -/
private theorem Sound.play_finished (h : Sound tags n r) (ho : r.stage? = some (.finished o))
    (moves : List (Nat × Move τ π κ ω)) :
    (r.play moves).1.stage? = some (.finished o) ∧ ∀ x ∈ (r.play moves).2, x.Agrees o := by
  -- Induction on the moves, none of which takes the action on.
  induction moves generalizing tags n r with
  | nil => exact ⟨ho, nofun⟩
  | cons m moves ih =>
    obtain ⟨now, m⟩ := m
    have hm := h.act now m
    have hstage : (r.act now m).1.stage? = some (.finished o) := by
      have hadvance := hm.advance
      rw [ho] at hadvance
      generalize (r.act now m).1.stage? = s at hadvance
      cases hadvance with
      | stay => rfl
    obtain ⟨hlast, hagrees⟩ := ih hm.sound hstage
    refine ⟨hlast, fun x hx => ?_⟩
    rcases List.mem_append.mp hx with hx | hx
    · exact hm.agrees o ho x hx
    · exact hagrees x hx

omit [DecidableEq π] [Host κ ω ρ] in
/-- The status moves as the stage does. -/
private theorem Advance.status {a b : Option (Stage ρ)} (h : Advance a b) :
    Relation.ReflTransGen Status.Next ((a.map Stage.status).getD .idle)
      ((b.map Stage.status).getD .idle) := by
  cases h with
  | stay => exact .refl
  | start => exact .single .start
  | finish o => exact .single (.finish o.isTerminal_status)
  | fail o => exact .tail (.single .start) (.finish o.isTerminal_status)

/-- Whatever is done with an action that was idle, and however its work goes: its status moves from
    idle to running and from there to a terminal one only; at most one start finds it idle, and its
    work is launched at most once.  Once it has finished with an outcome, everyone is told that
    outcome for ever: those who ask for the result, those who wait or have waited, every callback,
    and those who start it again. -/
theorem lifecycle (subject : Subject) (label : String) (deadline : Option Nat)
    (isFollowed : Bool) (host : κ) (before after : List (Nat × Move τ π κ ω)) :
    let x := play before (solo (ρ := ρ) subject label deadline isFollowed host)
    let y := play after x.1
    Relation.ReflTransGen Status.Next x.1.status y.1.status ∧
      (x.2 ++ y.2).countP Answer.isStarted ≤ 1 ∧
      y.1.host.made.length ≤ 1 ∧
      ∀ o, x.1.result? = some (.ok o) →
        y.1.result? = some (.ok o) ∧
          y.1.read? 0 .awaited = some o ∧
          (∀ answer ∈ y.2, answer.Agrees o) ∧
          (∀ e ∈ y.1.log, e.2.Agrees o) ∧
          ∀ tag ∈ Move.tagsOfList before ++ Move.tagsOfList after,
            ∃ now, (now, .called tag o) ∈ y.1.log := by
  intro x y
  have hsolo : Sound [] 0
      (solo (τ := τ) (π := π) (ρ := ρ) (ω := ω) subject label deadline isFollowed host) :=
    .idle _ rfl rfl ⟨rfl, rfl, nofun, nofun⟩ rfl rfl
  have hx : Sound (Move.tagsOfList before) (x.2.countP Answer.isStarted) x.1 := by
    have h := (hsolo.play before).1
    rwa [List.nil_append, Nat.zero_add] at h
  have hy : Sound (Move.tagsOfList before ++ Move.tagsOfList after)
      (x.2.countP Answer.isStarted + y.2.countP Answer.isStarted) y.1 := (hx.play after).1
  have hpath : Relation.ReflTransGen Advance x.1.stage? y.1.stage? := (hx.play after).2
  have hstatus : ∀ r : Roster τ π ρ (Recorder κ ω),
      r.status = (r.stage?.map Stage.status).getD .idle := by
    intro r
    simp only [Roster.status, stage?, Option.map_map]
    rfl
  -- Soundness counts the starts and the launches; the advance gives the path of the status.
  refine ⟨?_, ?_, ?_, ?_⟩
  · rw [hstatus, hstatus]
    exact hpath.lift' _ fun _ _ h => Advance.status h
  · rw [List.countP_append]
    cases hy with
    | idle _ _ _ _ _ starts => omega
    | running _ _ _ _ _ starts | finished _ _ _ _ _ _ starts => omega
  · cases hy with
    | idle _ _ _ _ unmade => rw [unmade]; exact Nat.zero_le 1
    | running _ _ _ _ once | finished _ _ _ _ _ once => exact once
  · intro o ho
    have hfinished : ∀ r : Roster τ π ρ (Recorder κ ω),
        r.result? = some (.ok o) ↔ r.stage? = some (.finished o) := by
      intro r
      simp only [result?, stage?, Option.map_eq_some_iff, Action.result_eq_ok_iff]
    obtain ⟨hlast, hagrees⟩ := hx.play_finished ((hfinished _).mp ho) after
    -- The action has still that outcome at the end, and is settled there.
    refine ⟨(hfinished _).mpr hlast, ?_⟩
    cases hy with
    | idle j job stage | running j job stage =>
      rw [stage?_eq job, stage] at hlast
      exact nomatch hlast
    | finished j o' job stage settled =>
      rw [stage?_eq job, stage] at hlast
      cases hlast
      refine ⟨?_, hagrees, settled.seen, settled.called⟩
      rw [read?, action?, job]
      exact settled.published

/-- A callback and a late caller both see the end of work that takes five milliseconds. -/
theorem lifecycle_delayed :
    let x := play
      [(0, .observe ⟨"seen", [.status]⟩),
        (0, .start 7 (Task.work { delay := 5 } (.text "user") 7)), (0, .settle), (5, .settle)]
      (solo (τ := String) (π := Int) (.text "user") "work" (some 10) false
        ({ shared := {} } : Pool Bench.Tally Int))
    x.1.result? = some (.ok (.succeeded 13)) ∧
      (play [(6, .cancel)] x.1).1.read? 0 .awaited = some (.succeeded 13) := by
  intro x
  have h : x.1.result? = some (.ok (.succeeded 13)) := by decide +kernel
  exact ⟨h, ((lifecycle _ _ _ _ _ _ [(6, .cancel)]).2.2.2 _ h).2.1⟩

end Federation.Roster
