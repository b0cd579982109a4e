import Federation.Proofs.Action.Deeds

/-!
# Cancelling an action

A cancellation and the end of the work both lead to an outcome, and whichever comes first decides.
The one who cancels is told at once whether it was the cancellation, and nothing that happens later
changes that: the runner may still find that the work has ended, but its verdict comes too late.

Work may also say of itself that it was cancelled.  This is the only other way to that outcome, and
it is never mistaken for a failure.

## Key results

- `verdict?_cases`: a verdict about an action that runs is how its work ended, or a timeout
- `finished_cases`: which moves finish an action
- `Course.concat`: how cancellations and outcomes go together along a history
- `cancel_spec`: what a cancellation does, and what only a cancellation does
-/

namespace Federation

variable {τ π ρ κ ω : Type}

/-! ## Answers -/

/-- Whether someone is answered that a cancellation has cancelled the action. -/
def Answer.isCancelled : Answer ρ → Bool
  | .cancelled moved => moved
  | _ => false

/-- Whether a callback has cancelled the action. -/
def Note.isCancelled : Note τ ρ → Bool
  | .answered x => x.isCancelled
  | .told _ | .called .. => false

/-- Once an action has finished, no callback cancels it. -/
theorem Note.isCancelled_of_agrees {x : Note τ ρ} {o : Outcome ρ} (h : x.Agrees o) :
    x.isCancelled = false := by
  cases x with
  | told | called => rfl
  | answered x =>
    cases x with
    | cancelled moved => exact h
    | _ => rfl

/-! ## Verdicts -/

namespace Job

variable {j : Job τ π ρ} {now : Nat} {ended : Option (Ending ρ)} {o : Outcome ρ}

/-- An action takes its work to be cancelled exactly if the work returned that fault. -/
theorem outcome_eq_cancelled_iff (label : String) (e : Ending ρ) :
    outcome label e = .cancelled ↔ e = .returned (.error .cancelled) := by
  cases e with
  | crashed => simp [outcome]
  | returned r =>
    have hr : Outcome.ofExcept r = .cancelled ↔ r = .error .cancelled := by
      constructor
      · intro h
        rw [← Outcome.toExcept_ofExcept r, h, Outcome.toExcept]
      · rintro rfl
        rfl
    simpa [outcome] using hr

/-- No ending makes an action fail with the fault `cancelled`. -/
theorem outcome_ne_failed_cancelled (label : String) (e : Ending ρ) :
    outcome label e ≠ .failed .cancelled := by
  cases e with
  | crashed => simp [outcome, Fault.internal]
  | returned r => exact Outcome.ofExcept_ne_failed_cancelled r

/-- What a runner finds of an action that runs: how its work has ended, or that it is overdue. -/
theorem verdict?_cases (running : j.action.stage = .running)
    (h : j.verdict? now ended = some o) :
    (∃ e, ended = some e ∧ o = outcome j.action.label e) ∨
      (Timed.isDue j.runner.due? now = true ∧ o = overdue j.action) := by
  have hrunning : j.action.isRunning = true := (Action.isRunning_iff _).mpr running
  unfold verdict? at h
  rw [hrunning] at h
  split at h
  · exact nomatch h
  · cases ended with
    | some e => exact .inl ⟨e, rfl, (Option.some.inj h).symm⟩
    | none =>
      simp only [Bool.not_true, Bool.false_eq_true, if_false] at h
      split at h
      · next isDue => exact .inr ⟨isDue, (Option.some.inj h).symm⟩
      · exact nomatch h

/-- A runner never finds that an action that runs has failed with the fault `cancelled`. -/
theorem verdict?_ne_failed_cancelled (running : j.action.stage = .running)
    (h : j.verdict? now ended = some o) : o ≠ .failed .cancelled := by
  rcases verdict?_cases running h with ⟨e, -, rfl⟩ | ⟨-, rfl⟩
  · exact outcome_ne_failed_cancelled _ e
  · simp [overdue]

/-- A runner finds that an action that runs was cancelled only if its work says so. -/
theorem eq_of_verdict?_cancelled (running : j.action.stage = .running)
    (h : j.verdict? now ended = some .cancelled) :
    ended = some (.returned (.error .cancelled)) := by
  rcases verdict?_cases running h with ⟨e, rfl, he⟩ | ⟨-, he⟩
  · rw [(outcome_eq_cancelled_iff _ e).mp he.symm]
  · exact nomatch he

end Job

namespace Roster

variable [DecidableEq π] [Host κ ω ρ] {r : Roster τ π ρ (Recorder κ ω)} {a : Action τ π ρ}
  {o : Outcome ρ}

/-! ## Moves -/

/-- A cancellation tells whether the action ran. -/
theorem answers_cancel (h : Solo r a) (now : Nat) :
    (r.act now .cancel).2 = [.cancelled a.isRunning] := by
  obtain ⟨j, hj, rfl⟩ := h.jobs
  have hr : (r.cancel now 0).2 = j.action.isRunning := by
    simp only [Roster.cancel, hj, List.getElem?_cons_zero, Action.cancel]
    by_cases hs : j.action.stage = .running
    · rw [(Action.complete_running now .cancelled hs).2.2, (Action.isRunning_iff _).mpr hs]
    · rw [Action.complete_of_not_running now _ hs]
      exact (Bool.eq_false_iff.mpr ((Action.isRunning_iff _).not.mpr hs)).symm
  rw [act, hr]

/-- Nobody else is told that the action has been cancelled. -/
theorem countP_isCancelled_act (now : Nat) {m : Move τ π κ ω} (hm : m ≠ .cancel) :
    (r.act now m).2.countP Answer.isCancelled = 0 := by
  rw [List.countP_eq_zero]
  intro x hx
  cases m with
  | cancel => exact absurd rfl hm
  | _ =>
    simp only [act] at hx
    grind [Answer.isCancelled]

/-- Which moves finish an action: a cancellation of one that runs, a start where nobody is to do the
    work, and the verdict of its runner. -/
theorem finished_cases (h : Solo r a) (hs : a.stage.outcome? = none) (now : Nat)
    {m : Move τ π κ ω} (ho : (r.act now m).1.stage? = some (.finished o)) :
    (m = .cancel ∧ a.stage = .running ∧ o = .cancelled) ∨
      ((∃ p, m = .startUnattended p) ∧ o = .failed Action.unattended) ∨
        (m = .settle ∧ a.stage = .running ∧ ∃ v ∈ r.looks now, ∃ l, v.jobs = [l] ∧ l.action = a ∧
          l.verdict? now ((Host.ended? v.host 0).map Ended.ending) = some o) := by
  have hnot := Stage.ne_finished_of_outcome? hs
  -- After the move, the stage is what the deed has made of it.
  have hstage : (a.perform now (r.deed now m)).1.stage = .finished o :=
    Option.some.inj ((h.act now m).1.stage?.symm.trans ho)
  have hstart : ∀ p, (a.start now p).1.stage ≠ .finished o := by
    intro p
    by_cases hidle : a.stage = .idle
    · rw [Action.start_idle now p hidle]
      exact nofun
    · rw [(Action.start_of_not_idle now p hidle).1]
      exact hnot o
  -- The other moves leave an action that has not finished as it was, or start it.
  cases m with
  | start p | run p | startOrJoin p => exact absurd hstage (hstart p)
  | wait | result | status | evolve => exact absurd hstage (hnot o)
  | observe c =>
    rw [deed, Action.perform, Action.observe_of_not_finished now c hnot] at hstage
    exact absurd hstage (hnot o)
  | cancel =>
    rw [deed, Action.perform] at hstage
    by_cases hrunning : a.stage = .running
    · rw [(Action.complete_running now .cancelled hrunning).1] at hstage
      exact .inl ⟨rfl, hrunning, (Stage.finished.inj hstage).symm⟩
    · rw [Action.complete_of_not_running now _ hrunning] at hstage
      exact absurd hstage (hnot o)
  | startUnattended p =>
    rw [deed, Action.perform] at hstage
    by_cases hidle : a.stage = .idle
    · rw [(Action.startUnattended_idle now p hidle).1, Action.start_idle now p hidle,
        (Action.complete_running now _ rfl).1] at hstage
      exact .inr (.inl ⟨⟨p, rfl⟩, (Stage.finished.inj hstage).symm⟩)
    · rw [(Action.startUnattended_of_not_idle now p hidle).1] at hstage
      exact absurd hstage (hnot o)
  | settle =>
    obtain ⟨j, hj, rfl⟩ := h.jobs
    cases settle_cases hj now with
    | rest k jobs action =>
      rw [act, stage?_eq jobs, action] at ho
      exact absurd (Option.some.inj ho) (hnot o)
    | verdict k o' v l running look looking same found jobs action =>
      rw [act, stage?_eq jobs, action, (Action.complete_running now o' running).1] at ho
      obtain rfl := Stage.finished.inj (Option.some.inj ho)
      exact .inr (.inr ⟨rfl, running, v, look, l, looking, same, found⟩)

/-! ## Histories -/

variable {first : Roster τ π ρ (Recorder κ ω)} {moves : List (Nat × Move τ π κ ω)}

/-- In the course of some moves, the runner of an action, which ran, has found that the work had
    returned the fault `cancelled`. -/
def ReturnsCancelled (first : Roster τ π ρ (Recorder κ ω)) (moves : List (Nat × Move τ π κ ω)) :
    Prop :=
  ∃ earlier now later, moves = earlier ++ (now, .settle) :: later ∧
    ∃ v ∈ (play earlier first).1.looks now, v.status = .running ∧
      ∃ e, Host.ended? v.host 0 = some e ∧ e.ending = .returned (.error .cancelled)

/-- What the work once returned is not changed by further moves. -/
theorem ReturnsCancelled.append (h : ReturnsCancelled first moves)
    (more : List (Nat × Move τ π κ ω)) : ReturnsCancelled first (moves ++ more) := by
  obtain ⟨earlier, now, later, rfl, hv⟩ := h
  exact ⟨earlier, now, later ++ more, by rw [List.append_assoc, List.cons_append], hv⟩

/-- How the cancellations of an action and its outcome go together in the course of some moves. -/
inductive Course (first : Roster τ π ρ (Recorder κ ω)) (moves : List (Nat × Move τ π κ ω)) : Prop
  /-- It has no outcome, and no cancellation has succeeded. -/
  | unfinished (a : Action τ π ρ) (solo : Solo (play moves first).1 a)
      (stage : a.stage.outcome? = none)
      (answers : (play moves first).2.countP Answer.isCancelled = 0)
  /-- It was cancelled, by one cancellation. -/
  | cancelled (a : Action τ π ρ) (solo : Solo (play moves first).1 a)
      (stage : a.stage = .finished .cancelled)
      (answers : (play moves first).2.countP Answer.isCancelled = 1)
  /-- It ended without a cancellation. -/
  | ended (a : Action τ π ρ) (o : Outcome ρ) (solo : Solo (play moves first).1 a)
      (stage : a.stage = .finished o)
      (answers : (play moves first).2.countP Answer.isCancelled = 0)
      (returned : o = .cancelled → ReturnsCancelled first moves)
      (unmistaken : o ≠ .failed .cancelled)

/-- One more move keeps the course of an action. -/
theorem Course.concat (h : Course first moves) (now : Nat) (m : Move τ π κ ω) :
    Course first (moves ++ [(now, m)]) := by
  have hplay : play (moves ++ [(now, m)]) first =
      (((play moves first).1.act now m).1,
        (play moves first).2 ++ ((play moves first).1.act now m).2) := by
    rw [play_append, play_singleton]
  have hother : m ≠ .cancel → (play (moves ++ [(now, m)]) first).2.countP Answer.isCancelled =
      (play moves first).2.countP Answer.isCancelled := by
    intro hm
    rw [hplay, List.countP_append, countP_isCancelled_act now hm, Nat.add_zero]
  -- An action that does not run is not cancelled.
  have hquiet : ∀ {a}, Solo (play moves first).1 a → a.stage ≠ .running →
      (play (moves ++ [(now, m)]) first).2.countP Answer.isCancelled =
        (play moves first).2.countP Answer.isCancelled := by
    intro a hsolo hs
    by_cases hm : m = .cancel
    case neg => exact hother hm
    have hrunning : a.isRunning = false :=
      Bool.eq_false_iff.mpr ((Action.isRunning_iff a).not.mpr hs)
    rw [hplay, List.countP_append, hm, answers_cancel hsolo, hrunning]
    rfl
  -- What has finished stays so; only the unfinished course needs the cases of a move.
  cases h with
  | cancelled a solo stage answers =>
    have hsolo := (solo.act_finished stage now m).1
    refine .cancelled a (by rw [hplay]; exact hsolo) stage ?_
    exact (hquiet solo (by simp [stage])).trans answers
  | ended a o solo stage answers returned unmistaken =>
    have hsolo := (solo.act_finished stage now m).1
    refine .ended a o (by rw [hplay]; exact hsolo) stage ?_ (fun ho => (returned ho).append _)
      unmistaken
    exact (hquiet solo (by simp [stage])).trans answers
  | unfinished a solo stage answers =>
    obtain ⟨b, hb⟩ : ∃ b, b = (a.perform now ((play moves first).1.deed now m)).1 := ⟨_, rfl⟩
    have hact : Solo ((play moves first).1.act now m).1 b := hb ▸ (solo.act now m).1
    have hsolo : Solo (play (moves ++ [(now, m)]) first).1 b := by rw [hplay]; exact hact
    have hstage := hact.stage?
    cases ho : b.stage.outcome? with
    | none =>
      refine .unfinished b hsolo ho ?_
      by_cases hrunning : a.stage = .running
      case neg => exact (hquiet solo hrunning).trans answers
      have hm : m ≠ .cancel := by
        rintro rfl
        rw [deed, Action.perform, (Action.complete_running now .cancelled hrunning).1] at hb
        rw [hb] at ho
        cases ho
      exact (hother hm).trans answers
    | some o =>
      have hfinished := Stage.outcome?_eq_some_iff.mp ho
      rw [hfinished] at hstage
      -- The move has finished the action: it was cancelled, started in vain, or its work ended.
      rcases finished_cases solo stage now hstage with
        ⟨rfl, hrunning, rfl⟩ | ⟨⟨p, rfl⟩, rfl⟩ | ⟨rfl, hrunning, v, hv, l, hl, hla, hverdict⟩
      · refine .cancelled b hsolo hfinished ?_
        rw [hplay, List.countP_append, answers, answers_cancel solo,
          (Action.isRunning_iff a).mpr hrunning]
        rfl
      · exact .ended b _ hsolo hfinished ((hother (by simp)).trans answers) (by simp)
          (by simp [Action.unattended, Fault.internal])
      · refine .ended b _ hsolo hfinished ((hother (by simp)).trans answers) ?_ ?_
        · rintro rfl
          have hended := Job.eq_of_verdict?_cancelled (by rw [hla]; exact hrunning) hverdict
          obtain ⟨e, he, hending⟩ := Option.map_eq_some_iff.mp hended
          have hstatus : v.status = .running := by
            rw [status_eq hl, hla]
            exact of_decide_eq_true ((Action.isRunning_iff a).mpr hrunning)
          exact ⟨moves, now, [], rfl, v, hv, hstatus, e, he, hending⟩
        · exact Job.verdict?_ne_failed_cancelled (by rw [hla]; exact hrunning) hverdict

/-- Every action that was idle has such a course, whatever moves are made. -/
theorem course (subject : Subject) (label : String) (deadline : Option Nat) (isFollowed : Bool)
    (host : κ) (moves : List (Nat × Move τ π κ ω)) :
    Course (solo (ρ := ρ) subject label deadline isFollowed host) moves := by
  induction moves using List.reverseRecOn with
  | nil => exact .unfinished _ (solo_solo ..) rfl rfl
  | append_singleton moves m ih => exact ih.concat m.1 m.2

/-- At most one cancellation succeeds. -/
theorem Course.countP_le (h : Course first moves) :
    (play moves first).2.countP Answer.isCancelled ≤ 1 := by
  cases h with
  | unfinished _ _ _ answers | ended _ _ _ _ answers => rw [answers]; exact Nat.zero_le 1
  | cancelled _ _ _ answers => exact Nat.le_of_eq answers

/-- An action ends as cancelled by a cancellation or because its work says so, and it does not fail
    with the fault `cancelled`. -/
theorem Course.finished (h : Course first moves) (hs : Solo (play moves first).1 a)
    (ho : a.stage = .finished o) :
    o ≠ .failed .cancelled ∧
      (o = .cancelled → .cancelled true ∈ (play moves first).2 ∨ ReturnsCancelled first moves) := by
  have hsame : ∀ {b}, Solo (play moves first).1 b → b = a :=
    fun hb => Option.some.inj (hb.action?.symm.trans hs.action?)
  cases h with
  | unfinished b solo stage =>
    obtain rfl := hsame solo
    exact absurd ho (Stage.ne_finished_of_outcome? stage o)
  | cancelled b solo stage answers =>
    obtain rfl := hsame solo
    obtain rfl := Stage.finished.inj (ho.symm.trans stage)
    refine ⟨nofun, fun _ => .inl ?_⟩
    -- Some answer was counted, and it can only be that of a cancellation.
    obtain ⟨x, hx, hmoved⟩ := List.countP_pos_iff.mp (answers ▸ Nat.one_pos)
    cases x with
    | cancelled moved =>
      obtain rfl : moved = true := hmoved
      exact hx
    | _ => exact nomatch hmoved
  | ended b o' solo stage answers returned unmistaken =>
    obtain rfl := hsame solo
    obtain rfl := Stage.finished.inj (ho.symm.trans stage)
    exact ⟨unmistaken, fun hc => .inr (returned hc)⟩

omit [DecidableEq π] in
/-- A start tells no callback anything. -/
private theorem isCancelled_of_mem_start (a : Action τ π ρ) (now : Nat) (p : π) :
    ∀ x ∈ (a.start now p).2.1, x.isCancelled = false := by
  intro x hx
  by_cases hidle : a.stage = .idle
  · rw [Action.start_idle now p hidle] at hx
    simp only [Action.tell] at hx
    split at hx
    · rw [List.mem_singleton.mp hx, Note.isCancelled]
    · exact absurd hx List.not_mem_nil
  · rw [(Action.start_of_not_idle now p hidle).2] at hx
    exact absurd hx List.not_mem_nil

/-- Completing an action cancels nothing. -/
private theorem isCancelled_of_mem_complete (a : Action τ π ρ) (now : Nat) (o : Outcome ρ) :
    ∀ x ∈ (a.complete now o).2.1, x.isCancelled = false := by
  intro x hx
  by_cases hrunning : a.stage = .running
  · exact Note.isCancelled_of_agrees ((Action.complete_running now o hrunning).2.1.agrees x hx)
  · rw [Action.complete_of_not_running now o hrunning] at hx
    exact absurd hx List.not_mem_nil

/-- No callback cancels the action: those that are told react to an action that has finished. -/
theorem isCancelled_of_mem_perform (h : a.AtRest) (now : Nat) (d : Deed τ π ρ) :
    ∀ x ∈ (a.perform now d).2, x.isCancelled = false := by
  intro x hx
  cases hs : a.stage.outcome? with
  | some o =>
    have ho := Stage.outcome?_eq_some_iff.mp hs
    exact Note.isCancelled_of_agrees ((h.perform_finished ho now d).2.1 x hx)
  | none =>
    -- Without an outcome no callback is called, so what is told comes from the deed itself.
    cases d with
    | nothing => exact absurd hx List.not_mem_nil
    | start p => exact isCancelled_of_mem_start a now p x hx
    | startUnattended p =>
      rw [Action.perform] at hx
      by_cases hidle : a.stage = .idle
      · rw [(Action.startUnattended_idle now p hidle).2] at hx
        rcases List.mem_append.mp hx with hx | hx
        · exact isCancelled_of_mem_start a now p x hx
        · exact isCancelled_of_mem_complete _ now _ x hx
      · rw [(Action.startUnattended_of_not_idle now p hidle).2] at hx
        exact absurd hx List.not_mem_nil
    | complete o => exact isCancelled_of_mem_complete a now o x hx
    | observe c =>
      have hnot := Stage.ne_finished_of_outcome? hs
      rw [Action.perform, Action.observe_of_not_finished now c hnot] at hx
      exact absurd hx List.not_mem_nil

/-- Nothing written down is a cancellation, as long as nothing was in the beginning. -/
theorem isCancelled_of_mem_log (h : Solo first a)
    (hlog : ∀ e ∈ first.log, e.2.isCancelled = false) (moves : List (Nat × Move τ π κ ω)) :
    ∀ e ∈ (play moves first).1.log, e.2.isCancelled = false := by
  induction moves generalizing first a with
  | nil => exact hlog
  | cons m moves ih =>
    obtain ⟨hsolo, hact⟩ := h.act m.1 m.2
    refine ih hsolo fun e he => ?_
    rw [hact] at he
    rcases List.mem_append.mp he with he | he
    · exact hlog e he
    · obtain ⟨x, hx, rfl⟩ := List.mem_map.mp he
      exact isCancelled_of_mem_perform h.atRest m.1 _ x hx

/-- Whatever is done with an action that was idle, and whatever its host does and says of the work:
    a cancellation succeeds exactly if it finds the action running, and at most one does; those by
    callbacks never do.  From then on the action has the outcome `cancelled` and does not change any
    more, even if the work has already ended or still ends in another way; all that is seen later
    is what callbacks are told that are registered later.

    An action ends as cancelled only if a cancellation has succeeded, or if its runner has found, as
    the action ran, that the work had returned the fault `cancelled`.  No action fails with that
    fault, so the result of an action that has finished is that fault exactly if the status says
    that it was cancelled. -/
theorem cancel_spec (subject : Subject) (label : String) (deadline : Option Nat)
    (isFollowed : Bool) (host : κ) (before after : List (Nat × Move τ π κ ω)) (now : Nat) :
    let first := solo (ρ := ρ) subject label deadline isFollowed host
    let x := play before first
    let c := x.1.act now .cancel
    let y := play after c.1
    c.2 = [.cancelled (decide (x.1.status = .running))] ∧
      x.2.countP Answer.isCancelled ≤ 1 ∧ (∀ e ∈ x.1.log, e.2.isCancelled = false) ∧
      (x.1.status = .running → ∃ a,
        c.1.action? 0 = some a ∧ a.result = .ok .cancelled ∧
          y.1.action? 0 = some a ∧ y.1.read? 0 .awaited = some .cancelled ∧
          y.1.log = c.1.log ++ after.flatMap fun m => (m.2.echo m.1 a).map fun n => (m.1, n)) ∧
      (x.1.result? = some (.ok .cancelled) →
        .cancelled true ∈ x.2 ∨ ReturnsCancelled first before) ∧
      x.1.result? ≠ some (.ok (.failed .cancelled)) ∧
      ∀ o, x.1.result? = some (.ok o) →
        (o.toExcept = .error .cancelled ↔ x.1.status = .cancelled) := by
  intro first x c y
  have hfirst : Solo first _ := solo_solo subject label deadline isFollowed host
  have hcourse : Course first before := course subject label deadline isFollowed host before
  obtain ⟨a, hsolo⟩ := hfirst.play before
  have hresult := hsolo.result?_eq_iff
  refine ⟨?_, hcourse.countP_le, isCancelled_of_mem_log hfirst nofun before, ?_, ?_, ?_, ?_⟩
  · rw [answers_cancel hsolo, hsolo.status]
    rfl
  · intro hstatus
    rw [hsolo.status] at hstatus
    have hrunning : a.stage = .running :=
      (Action.isRunning_iff a).mp (decide_eq_true hstatus)
    -- The cancellation completes the action, and what has finished stays as it is.
    have hcomplete := Action.complete_running now .cancelled hrunning
    have hc : Solo c.1 (a.complete now .cancelled).1 := (hsolo.act now .cancel).1
    have hstage : (a.complete now .cancelled).1.stage = .finished .cancelled := by
      rw [hcomplete.1]
    obtain ⟨hy, hseen⟩ := hc.play_finished hstage after
    refine ⟨_, hc.action?, (Action.result_eq_ok_iff _ _).mpr hstage, hy.action?, ?_, hseen⟩
    rw [read?, hy.action?, Option.bind_some, hc.atRest.published, hstage]
    rfl
  · intro hr
    exact (hcourse.finished hsolo ((hresult _).mp hr)).2 rfl
  · intro hr
    exact (hcourse.finished hsolo ((hresult _).mp hr)).1 rfl
  · intro o hr
    have ho := (hresult o).mp hr
    -- As it did not fail with that fault, only a cancelled action has it as its result.
    rw [Outcome.toExcept_eq_cancelled_iff (hcourse.finished hsolo ho).1, hsolo.status,
      Action.status_finished ho]
    cases o <;> simp [Outcome.status]

/-- The work has ended after five milliseconds, but before its runner finds out, the action is
    cancelled. -/
theorem cancel_spec_late :
    let x := play
      [(0, .observe ⟨"seen", [.cancel]⟩),
        (0, .start 7 (Task.work { delay := 5 } (.text "user") 7)), (0, .settle),
        (5, .evolve (Timed.settle 5))]
      (solo (τ := String) (π := Int) (.text "user") "work" none true
        ({ shared := {} } : Pool Bench.Tally Int))
    let c := x.1.act 5 .cancel
    x.1.status = .running ∧ (Host.ended? x.1.host 0).isSome = true ∧
      (play [(5, .settle)] c.1).1.read? 0 .awaited = some .cancelled := by
  intro x c
  have h : x.1.status = .running := by decide +kernel
  have hended : (Host.ended? x.1.host 0).isSome = true := by decide +kernel
  obtain ⟨a, -, -, -, hread, -⟩ := (cancel_spec _ _ _ _ _ _ [(5, .settle)] 5).2.2.2.1 h
  exact ⟨h, hended, hread⟩

end Roster

end Federation
