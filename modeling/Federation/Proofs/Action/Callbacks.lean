import Federation.Proofs.Action.Line

/-!
# When callbacks are called

Along any history, the line of callbacks is what the moments of the history make of it.  Since the
line allows nobody to be called before there is an outcome, nor out of turn, every callback is
called once, in its turn, and before the outcome is told to anyone else.

## Key results

- `Attended.concat`: every move does to the line what its moments say
- `callbacks_spec`: when callbacks are called in the course of a history
-/

namespace Federation.Roster

open Moment (registrations calls)

variable {τ π ρ κ ω : Type} [DecidableEq π] [Host κ ω ρ]

/-- What happens to the callbacks of the only action while a move is made. -/
def moments (now : Nat) (m : Move τ π κ ω) (r : Roster τ π ρ (Recorder κ ω)) :
    List (Moment τ ρ) :=
  match r.action? 0 with
  | some a => a.moments now (r.deed now m)
  | none => []

/-- What happens to the callbacks of the only action in the course of some moves. -/
def chronicle : List (Nat × Move τ π κ ω) → Roster τ π ρ (Recorder κ ω) → List (Moment τ ρ)
  | [], _ => []
  | (now, m) :: rest, r => r.moments now m ++ chronicle rest (r.act now m).1

/-- What happens in one more move comes last. -/
theorem chronicle_concat (moves : List (Nat × Move τ π κ ω)) (now : Nat) (m : Move τ π κ ω)
    (r : Roster τ π ρ (Recorder κ ω)) :
    chronicle (moves ++ [(now, m)]) r =
      chronicle moves r ++ (play moves r).1.moments now m := by
  induction moves generalizing r with
  | nil => exact List.append_nil _
  | cons x moves ih =>
    obtain ⟨t, n⟩ := x
    simp only [List.cons_append, chronicle, play, ih, List.append_assoc]

/-- The deed of a move registers what the move registers. -/
theorem tags_deed (now : Nat) (m : Move τ π κ ω) (r : Roster τ π ρ (Recorder κ ω)) :
    (r.deed now m).tags = m.tags := by
  cases m with
  | settle =>
    simp only [deed]
    split <;> rfl
  | _ => rfl

variable {r first : Roster τ π ρ (Recorder κ ω)} {a : Action τ π ρ} {o : Outcome ρ}
  {moves : List (Nat × Move τ π κ ω)}

/-- What happens in a move is what happens to the only action. -/
theorem Solo.moments (h : Solo r a) (now : Nat) (m : Move τ π κ ω) :
    r.moments now m = a.moments now (r.deed now m) := by
  simp only [Roster.moments, h.action?]

/-- What holds of the callbacks of an action in the course of some moves. -/
structure Attended (first : Roster τ π ρ (Recorder κ ω)) (moves : List (Nat × Move τ π κ ω))
    (a : Action τ π ρ) : Prop where
  solo : Solo (play moves first).1 a
  run : Line.Run ⟨[], none⟩ (chronicle moves first) a.line
  seen : (play moves first).1.log.filterMap (fun e => e.2.moment?) =
    (chronicle moves first).filter Moment.isSeen
  registered : (registrations (chronicle moves first) ++ a.promised).Perm (Move.tagsOfList moves)
  published : ∀ o, .published o ∈ chronicle moves first ↔ .finished o ∈ chronicle moves first

/-- One more move does to the callbacks what the line allows. -/
theorem Attended.concat (h : Attended first moves a) (now : Nat) (m : Move τ π κ ω) :
    ∃ b, Attended first (moves ++ [(now, m)]) b := by
  let r := (play moves first).1
  obtain ⟨hrun, hseen, hregistered, hends⟩ := h.solo.atRest.performed now (r.deed now m)
  obtain ⟨hsolo, hlog⟩ := h.solo.act now m
  have hplay : (play (moves ++ [(now, m)]) first).1 = (r.act now m).1 := by
    rw [play_append, play_singleton]
  have hchronicle : chronicle (moves ++ [(now, m)]) first =
      chronicle moves first ++ a.moments now (r.deed now m) := by
    rw [chronicle_concat, h.solo.moments]
  -- The action has done the deed of the move; each part of the statement grows by what it adds.
  refine ⟨(a.perform now (r.deed now m)).1, ?_, ?_, ?_, ?_, ?_⟩
  · rw [hplay]
    exact hsolo
  · rw [hchronicle]
    exact h.run.append hrun
  · have hstamp : ((a.perform now (r.deed now m)).2.map fun x => (now, x)).filterMap
        (fun e => e.2.moment?) = (a.perform now (r.deed now m)).2.filterMap Note.moment? := by
      rw [List.filterMap_map]
      rfl
    rw [hplay, hchronicle, hlog, List.filterMap_append, List.filter_append, h.seen, hstamp, hseen]
  · rw [hchronicle, Moment.registrations_append, List.append_assoc, Move.tagsOfList,
      List.flatMap_append, List.flatMap_singleton, ← tags_deed now m r]
    refine (hregistered.append_left _).trans ?_
    rw [← List.append_assoc]
    exact h.registered.append_right _
  · intro o
    rw [hchronicle, List.mem_append, List.mem_append, h.published o]
    refine or_congr_right ?_
    -- The deed publishes nothing, or it finishes the action and publishes that.
    rcases hends with hown | ⟨-, p, hp⟩
    · exact iff_of_false (Moment.not_mem_of_own hown rfl) (Moment.not_mem_of_own hown rfl)
    · exact hp.published_mem_iff

/-- The callbacks of an action that was idle are attended to, whatever moves are made. -/
theorem attended (subject : Subject) (label : String) (deadline : Option Nat) (isFollowed : Bool)
    (host : κ) (moves : List (Nat × Move τ π κ ω)) :
    ∃ a, Attended (solo (ρ := ρ) subject label deadline isFollowed host) moves a := by
  induction moves using List.reverseRecOn with
  | nil => exact ⟨_, solo_solo .., .nil _, rfl, .nil, fun _ => iff_of_false nofun nofun⟩
  | append_singleton moves m ih =>
    obtain ⟨a, ha⟩ := ih
    exact ha.concat m.1 m.2

/-- Once the action has finished, everyone has been called, in the order of the registrations. -/
theorem Attended.finished (h : Attended first moves a) (ho : a.stage = .finished o) :
    calls (chronicle moves first) = registrations (chronicle moves first) ∧
      (registrations (chronicle moves first)).Perm (Move.tagsOfList moves) := by
  have hwaiting : a.line.waiting = [] := h.solo.atRest.waiting_eq_nil ho
  have hconserves := h.run.conserves
  have hregistered := h.registered
  rw [hwaiting, List.append_nil, List.nil_append] at hconserves
  rw [h.solo.atRest.promised_eq_nil ho, List.append_nil] at hregistered
  exact ⟨hconserves.symm, hregistered⟩

/-- When a callback is called in the course of a move, the action has finished, and it is its
    turn. -/
theorem Attended.called (h : Attended first moves a) {now : Nat} {m : Move τ π κ ω}
    {pre post : List (Moment τ ρ)} {tag : τ}
    (hm : (play moves first).1.moments now m = pre ++ .called tag o :: post) :
    .finished o ∈ chronicle moves first ++ pre ∧
      calls (chronicle moves first ++ pre) ++ [tag] <+:
        registrations (chronicle moves first ++ pre) := by
  have hrun := (h.solo.atRest.performed now ((play moves first).1.deed now m)).run
  rw [← h.solo.moments, hm] at hrun
  obtain ⟨l, hpre, hpost⟩ := hrun.split
  have hpast := h.run.append hpre
  cases hpost with
  | cons step =>
    cases step with
    | called tags =>
      refine ⟨(hpast.finished_mem_iff rfl).mpr rfl, tags, ?_⟩
      rw [List.append_assoc]
      exact hpast.conserves.symm

/-- When somebody is told of the end who is not a callback, every callback has been called. -/
theorem Attended.told (h : Attended first moves a) {now : Nat} {m : Move τ π κ ω}
    {pre post : List (Moment τ ρ)} {x : Moment τ ρ} (hx : x.isOfCallback = false)
    (hfinished : ∀ p, x ≠ .finished p)
    (hm : (play moves first).1.moments now m = pre ++ x :: post) :
    calls (chronicle moves first ++ pre) = registrations (chronicle moves first ++ pre) ∧
      (registrations (chronicle moves first ++ pre)).Perm (Move.tagsOfList moves) := by
  let d := (play moves first).1.deed now m
  let b := (a.perform now d).1
  obtain ⟨hrun, -, hregistered, hends⟩ := h.solo.atRest.performed now d
  rw [← h.solo.moments, hm] at hrun hregistered hends
  refine ⟨?_, ?_⟩
  · -- The line is empty at that moment.
    obtain ⟨l, hpre, hpost⟩ := hrun.split
    have hconserves := (h.run.append hpre).conserves
    cases hpost with
    | cons step =>
      cases step with
      | registered | called => exact nomatch hx
      | finished _ p => exact absurd rfl (hfinished p)
      | told | published =>
        rw [List.append_nil, List.nil_append] at hconserves
        exact hconserves.symm
  · rcases hends with hown | ⟨htags, p, hp⟩
    · exact absurd (List.mem_append_right _ List.mem_cons_self) (Moment.not_mem_of_own hown hx)
    -- After the move nobody waits, so whatever was promised before has been registered.
    have hstage : b.stage = .finished p := by
      refine Stage.outcome?_eq_some_iff.mp (((h.run.append hrun).finished_mem_iff rfl).mp ?_)
      exact List.mem_append_right _ hp.finished_mem
    have hpromised : b.promised = [] := (h.solo.atRest.perform now d).promised_eq_nil hstage
    rw [htags, List.append_nil, hpromised, List.append_nil,
      ← hp.registrations_eq hx hfinished] at hregistered
    rw [Moment.registrations_append]
    exact (hregistered.append_left _).trans h.registered

/-- Whatever is done with an action that was idle, before it starts, while it runs, from callbacks,
    and later, and whatever its host does, for the moments of what has been done and for those of
    the next move:

    The calls of callbacks and what the observer of the federation is told of the end are seen in
    the order of the moments.  As long as the action has not finished, nobody is called.  Once it
    has finished, all callbacks that were registered, directly or by callbacks, have been called,
    each as often as it was registered, in the order of the registrations, and with the outcome.

    In between, callbacks are called in the order of the registrations, and when the observer is
    told and when the outcome is published to those who wait, all callbacks have been called that
    were registered, directly or by callbacks. -/
theorem callbacks_spec (subject : Subject) (label : String) (deadline : Option Nat)
    (isFollowed : Bool) (host : κ) (moves : List (Nat × Move τ π κ ω)) (now : Nat)
    (m : Move τ π κ ω) :
    let first := solo (ρ := ρ) subject label deadline isFollowed host
    let r := (play moves first).1
    let ms := chronicle moves first
    r.log.filterMap (fun e => e.2.moment?) = ms.filter Moment.isSeen ∧
      (∀ o, r.result? = some (.ok o) ↔ .finished o ∈ ms) ∧
      (∀ o, r.read? 0 .awaited = some o ↔ .published o ∈ ms) ∧
      ((∀ o, r.result? ≠ some (.ok o)) → calls ms = []) ∧
      (∀ o, r.result? = some (.ok o) →
        calls ms = registrations ms ∧ (registrations ms).Perm (Move.tagsOfList moves) ∧
          ∀ tag p, .called tag p ∈ ms → p = o) ∧
      ∀ pre x post, r.moments now m = pre ++ x :: post →
        let past := ms ++ pre
        (∀ tag o, x = .called tag o →
          .finished o ∈ past ∧ calls past ++ [tag] <+: registrations past) ∧
        ((∃ s, x = .told s) ∨ (∃ o, x = .published o) →
          calls past = registrations past ∧
            (registrations past).Perm (Move.tagsOfList moves)) := by
  intro first r ms
  obtain ⟨a, ha⟩ : ∃ a, Attended first moves a :=
    attended subject label deadline isFollowed host moves
  -- The stage of the action and its line agree on whether and how it finished.
  have hfinished : ∀ o, r.result? = some (.ok o) ↔ .finished o ∈ ms := by
    intro o
    rw [ha.solo.result?_eq_iff, ha.run.finished_mem_iff rfl, ← Stage.outcome?_eq_some_iff]
    rfl
  refine ⟨ha.seen, hfinished, ?_, ?_, ?_, ?_⟩
  · intro o
    rw [ha.published, ← hfinished, ha.solo.result?_eq_iff, ← Stage.outcome?_eq_some_iff, read?,
      ha.solo.action?, Option.bind_some, ha.solo.atRest.published]
  · intro hnone
    refine ha.run.calls_eq_nil (Option.eq_none_iff_forall_ne_some.mpr fun o ho => hnone o ?_)
    exact (hfinished o).mpr ((ha.run.finished_mem_iff rfl).mpr ho)
  · intro o ho
    obtain ⟨hcalls, hregistered⟩ := ha.finished ((ha.solo.result?_eq_iff o).mp ho)
    refine ⟨hcalls, hregistered, fun tag p hp => ?_⟩
    -- The line has one outcome, and whoever is called is called with it.
    have hline := (ha.run.finished_mem_iff rfl).mp ((hfinished o).mp ho)
    exact Option.some.inj ((ha.run.outcome?_of_called_mem hp).symm.trans hline)
  · intro pre x post hx past
    refine ⟨?_, ?_⟩
    · rintro tag o rfl
      exact ha.called hx
    · rintro (⟨s, rfl⟩ | ⟨o, rfl⟩)
      · exact ha.told rfl (by simp) hx
      · exact ha.told rfl (by simp) hx

/-- The first callback registers another one, and that a third one; they come after the one that was
    registered before the end.  A callback that is registered later is called at once. -/
theorem callbacks_spec_nested :
    let moves : List (Nat × Move String Int (Pool Bench.Tally Int) (Work Unit Bench.Tally Int)) :=
      [(0, .observe ⟨"a", [.observe "b" [.observe "c" []]]⟩),
        (0, .start 7 (Task.work { delay := 5 } (.text "user") 7)), (0, .settle),
        (3, .observe ⟨"d", [.cancel]⟩), (5, .settle), (6, .observe ⟨"e", [.observe "f" []]⟩)]
    let first := solo (ρ := Int) (.text "user") "work" none true
      ({ shared := {} } : Pool Bench.Tally Int)
    (play moves first).1.result? = some (.ok (.succeeded 13)) ∧
      calls (chronicle moves first) = ["a", "d", "b", "c", "e", "f"] := by
  intro moves first
  have h : (play moves first).1.result? = some (.ok (.succeeded 13)) := by decide +kernel
  have hregistrations : registrations (chronicle moves first) =
      ["a", "d", "b", "c", "e", "f"] := by decide +kernel
  exact ⟨h, ((callbacks_spec _ _ _ _ _ moves 7 .wait).2.2.2.2.1 _ h).1.trans hregistrations⟩

end Federation.Roster
