import Federation.Proofs.Action.Scene

/-!
# The sections of calls

A deed done to an action by a single caller is a run of sections.  They follow the definition of the
deed step by step: the callbacks are taken out of the queue one by one, and between two of them come
the sections of whatever the first one calls.  So the fields of an action fit together not only
after each deed, but also between its sections, and however the sections of several callers mix.

## Key results

- `AtRest.run_sections`: a deed is made of its sections
- `Solo.run_sections`: so is a whole history
- `sections_spec`: how the fields of an action fit together in the course of any sections
-/

namespace Federation

variable {τ π ρ κ ω : Type}

/-! ## The sections of deeds -/

namespace Action

variable [DecidableEq π]

mutual
/-- The sections of a reaction. -/
def reactSections (now : Nat) (a : Action τ π ρ) : Reaction τ π → List (Section τ π ρ)
  | .observe tag rs =>
    match a.stage, a.isNotifying with
    | .finished _, false => .observe ⟨tag, rs⟩ :: reactAllSections now a rs
    | _, _ => [.observe ⟨tag, rs⟩]
  | .cancel => [.cancel now]
  | .start p | .run p => [.start now p]
  | .startOrJoin p => if (a.join? p).isSome then [] else [.start now p]
  | .status | .result | .wait => []
/-- The sections of some reactions. -/
def reactAllSections (now : Nat) (a : Action τ π ρ) :
    List (Reaction τ π) → List (Section τ π ρ)
  | [] => []
  | x :: xs => reactSections now a x ++ reactAllSections now (react now a x).1 xs
end

/-- The sections in which the callbacks are told, by the only one who tells them. -/
def deliverSections (now : Nat) (a : Action τ π ρ) : List (Section τ π ρ) :=
  match _h : a.callbacks with
  | [] => [.tell 0]
  | c :: rest =>
    let b := { a with callbacks := rest }
    .tell 0 :: reactAllSections now b c.reactions ++
      deliverSections now (reactAll now b c.reactions).1
termination_by a.pending
decreasing_by exact pending_reactAll_lt now _h

/-- The sections of a completion. -/
def completeSections (now : Nat) (o : Outcome ρ) (a : Action τ π ρ) : List (Section τ π ρ) :=
  .complete now o ::
    match a.tryFinish now o with
    | (b, true) => b.deliverSections now ++ [.tell 0]
    | (_, false) => []

/-- The sections of a deed, by someone who is alone with the action. -/
def sections (now : Nat) (a : Action τ π ρ) : Deed τ π ρ → List (Section τ π ρ)
  | .nothing => []
  | .start p => [.start now p]
  | .startUnattended p =>
    .start now p ::
      match a.start now p with
      | (b, _, .ok .started) => b.completeSections now (.failed unattended)
      | _ => []
  | .complete o => a.completeSections now o
  | .observe c => reactSections now a (.observe c.tag c.reactions)

variable {a : Action τ π ρ} {o : Outcome ρ}

mutual
/-- A reaction of an action that has finished is made of its sections. -/
theorem run_reactSections {a : Action τ π ρ} {o : Outcome ρ} (now : Nat)
    (ts : List (Teller ρ)) (h : a.stage = .finished o) (x : Reaction τ π) :
    Scene.run ⟨a, ts⟩ (reactSections now a x) = ⟨(react now a x).1, ts⟩ := by
  have hbegun : a.stage ≠ .idle := by rw [h]; exact nofun
  have hended : a.stage ≠ .running := by rw [h]; exact nofun
  cases x with
  | observe tag rs =>
    cases hn : a.isNotifying with
    | true =>
      -- Callbacks are being told, so this one is put behind them.
      simp only [react, reactSections, h, hn]
      exact Scene.observe_notifying ⟨tag, rs⟩ hn
    | false =>
      -- The callback is called at once, and its own calls come in sections of their own.
      have hsame : Scene.observe ⟨tag, rs⟩ ⟨a, ts⟩ = ⟨a, ts⟩ := Scene.observe_finished _ h hn
      simp only [react, reactSections, h, hn]
      calc Scene.run ⟨a, ts⟩ (.observe ⟨tag, rs⟩ :: reactAllSections now a rs)
          = Scene.run (Scene.observe ⟨tag, rs⟩ ⟨a, ts⟩) (reactAllSections now a rs) := rfl
        _ = Scene.run ⟨a, ts⟩ (reactAllSections now a rs) := by rw [hsame]
        _ = _ := run_reactAllSections now ts h rs
  | cancel =>
    simp only [react, reactSections, tryCancel_finished now h]
    exact Scene.finish_of_not_running now .cancelled hended
  | start p | run p =>
    simp only [react, reactSections, tryStart_finished now p h]
    exact Scene.start_of_not_idle now p hbegun
  | startOrJoin p =>
    simp only [react, reactSections, join?_finished p h, tryStart_finished now p h]
    exact Scene.start_of_not_idle now p hbegun
  | status | result | wait => rfl
/-- Reactions of an action that has finished are made of their sections. -/
theorem run_reactAllSections {a : Action τ π ρ} {o : Outcome ρ} (now : Nat)
    (ts : List (Teller ρ)) (h : a.stage = .finished o) (xs : List (Reaction τ π)) :
    Scene.run ⟨a, ts⟩ (reactAllSections now a xs) = ⟨(reactAll now a xs).1, ts⟩ := by
  cases xs with
  | nil => rfl
  | cons x xs =>
    have hstage := (react_finished now h x).stage_eq.trans h
    calc Scene.run ⟨a, ts⟩ (reactAllSections now a (x :: xs))
        = (Scene.run ⟨a, ts⟩ (reactSections now a x)).run
            (reactAllSections now (react now a x).1 xs) := Scene.run_append ..
      _ = Scene.run ⟨(react now a x).1, ts⟩ (reactAllSections now (react now a x).1 xs) := by
          rw [run_reactSections now ts h x]
      _ = _ := run_reactAllSections now ts hstage xs
end

/-- The only one who tells everyone empties the queue. -/
theorem run_deliverSections (now : Nat) (h : a.stage = .finished o) :
    Scene.run ⟨a, [.calling o]⟩ (a.deliverSections now) =
      ⟨(a.deliver now o).1, [.closing o]⟩ := by
  fun_induction deliverSections now a with
  | case1 a hc =>
    rw [deliver_nil hc]
    exact Scene.tell_nil rfl hc
  | case2 a c rest hc b ih =>
    -- The callback leaves the queue in one section; what it calls comes before the next one.
    have hstage := (reactAll_finished (a := b) now h c.reactions).stage_eq.trans h
    rw [deliver_cons hc]
    calc Scene.run ⟨a, [.calling o]⟩ (.tell 0 :: reactAllSections now b c.reactions ++
            (reactAll now b c.reactions).1.deliverSections now)
        = (Scene.run (Scene.tell 0 ⟨a, [.calling o]⟩) (reactAllSections now b c.reactions)).run
            ((reactAll now b c.reactions).1.deliverSections now) := Scene.run_append ..
      _ = (Scene.run ⟨b, [.calling o]⟩ (reactAllSections now b c.reactions)).run
            ((reactAll now b c.reactions).1.deliverSections now) := by
          rw [Scene.tell_cons rfl hc]
      _ = Scene.run ⟨(reactAll now b c.reactions).1, [.calling o]⟩
            ((reactAll now b c.reactions).1.deliverSections now) := by
          rw [run_reactAllSections (a := b) now _ h c.reactions]
      _ = _ := ih hstage

/-- Whoever completes an action has told everyone in the end. -/
theorem run_completeSections (now : Nat) (o : Outcome ρ) (a : Action τ π ρ) :
    Scene.run ⟨a, []⟩ (a.completeSections now o) = ⟨(a.complete now o).1, []⟩ := by
  by_cases hs : a.stage = .running
  -- An action that does not run is not finished, and nobody is told.
  case neg =>
    rw [completeSections, tryFinish_of_not_running now o hs, complete_of_not_running now o hs]
    exact Scene.finish_of_not_running now o hs
  let b : Action τ π ρ :=
    { a with stage := .finished o, finishedAt := some now, isNotifying := true }
  have htry : a.tryFinish now o = (b, true) := tryFinish_running now o hs
  have hfinish : Scene.finish now o ⟨a, []⟩ = ⟨b, [.calling o]⟩ := Scene.finish_running now o hs
  simp only [completeSections, complete, notify, htry]
  calc Scene.run ⟨a, []⟩ (.complete now o :: (b.deliverSections now ++ [.tell 0]))
      = (Scene.run (Scene.finish now o ⟨a, []⟩) (b.deliverSections now)).run [.tell 0] :=
        Scene.run_append ..
    _ = (Scene.run ⟨b, [.calling o]⟩ (b.deliverSections now)).run [.tell 0] := by rw [hfinish]
    _ = Scene.run ⟨(b.deliver now o).1, [.closing o]⟩ [.tell 0] := by
        rw [run_deliverSections now rfl]
    _ = _ := rfl

/-- A registration is made of its sections, those of a callback that is called at once included. -/
theorem run_observe (h : a.AtRest) (now : Nat) (c : Callback τ π) :
    Scene.run ⟨a, []⟩ (a.sections now (.observe c)) = ⟨(a.observe now c).1, []⟩ := by
  -- After the end the callback is called at once, and its reactions are sections, too.
  cases hs : a.stage.outcome? with
  | some o =>
    have ho := Stage.outcome?_eq_some_iff.mp hs
    rw [sections, run_reactSections now [] ho]
    simp only [react, observe, ho, h.isNotifying]
  | none =>
    have hnot := Stage.ne_finished_of_outcome? hs
    have hsections : reactSections now a (.observe c.tag c.reactions) = [.observe c] := by
      unfold reactSections
      split
      · next o ho _ => exact absurd ho (hnot o)
      · rfl
    rw [sections, hsections, observe_of_not_finished now c hnot]
    exact Scene.observe_of_not_finished c hs

omit [DecidableEq π] in
/-- A start is a single section. -/
theorem run_start (now : Nat) (p : π) (a : Action τ π ρ) :
    Scene.run ⟨a, []⟩ [.start now p] = ⟨(a.start now p).1, []⟩ := by
  have hsame : (a.start now p).1 = (a.tryStart now p).1 := by
    cases hs : a.stage <;> simp only [start, tryStart, hs]
  rw [hsame]
  rfl

/-- A start with nobody to do the work is a start and a completion, in sections. -/
theorem run_startUnattended (now : Nat) (p : π) (a : Action τ π ρ) :
    Scene.run ⟨a, []⟩ (a.sections now (.startUnattended p)) =
      ⟨(a.startUnattended now p).1, []⟩ := by
  by_cases hs : a.stage = .idle
  · let b := (a.start now p).1
    have hsections : a.sections now (.startUnattended p) =
        .start now p :: b.completeSections now (.failed unattended) := by
      simp only [sections, b, start_idle now p hs]
    rw [hsections, (startUnattended_idle now p hs).1]
    calc Scene.run ⟨a, []⟩ (.start now p :: b.completeSections now (.failed unattended))
        = (Scene.run ⟨a, []⟩ [.start now p]).run (b.completeSections now (.failed unattended)) :=
          rfl
      _ = Scene.run ⟨b, []⟩ (b.completeSections now (.failed unattended)) := by
          rw [run_start now p a]
      _ = _ := run_completeSections now _ b
  -- Only the start is tried, in vain.
  · have hsections : a.sections now (.startUnattended p) = [.start now p] := by
      cases hstage : a.stage with
      | idle => exact absurd hstage hs
      | running | finished => simp only [sections, start, tryStart, hstage]
    rw [hsections, run_start, (start_of_not_idle now p hs).1,
      (startUnattended_of_not_idle now p hs).1]

/-- A deed at an action that nobody else is at work on is made of its sections. -/
theorem AtRest.run_sections (h : a.AtRest) (now : Nat) (d : Deed τ π ρ) :
    Scene.run ⟨a, []⟩ (a.sections now d) = ⟨(a.perform now d).1, []⟩ := by
  cases d with
  | nothing => rfl
  | start p => exact run_start now p a
  | startUnattended p => exact run_startUnattended now p a
  | complete o => exact run_completeSections now o a
  | observe c => exact run_observe h now c

end Action

/-! ## The sections of histories -/

namespace Roster

variable [DecidableEq π] [Host κ ω ρ]

/-- The sections of a move with the only action of a roster. -/
def sections (now : Nat) (m : Move τ π κ ω) (r : Roster τ π ρ (Recorder κ ω)) :
    List (Section τ π ρ) :=
  match r.action? 0 with
  | some a => a.sections now (r.deed now m)
  | none => []

/-- The sections of some moves. -/
def sectionsOfList : List (Nat × Move τ π κ ω) → Roster τ π ρ (Recorder κ ω) →
    List (Section τ π ρ)
  | [], _ => []
  | (now, m) :: rest, r => r.sections now m ++ sectionsOfList rest (r.act now m).1

/-- What moves make of an action is what their sections make of it. -/
theorem Solo.run_sections {r : Roster τ π ρ (Recorder κ ω)} {a : Action τ π ρ} (h : Solo r a)
    (moves : List (Nat × Move τ π κ ω)) :
    ∃ b, (Roster.play moves r).1.action? 0 = some b ∧
      Scene.run ⟨a, []⟩ (sectionsOfList moves r) = ⟨b, []⟩ := by
  induction moves generalizing r a with
  | nil => exact ⟨a, h.action?, rfl⟩
  | cons x moves ih =>
    obtain ⟨now, m⟩ := x
    obtain ⟨b, hb, hrun⟩ := ih (h.act now m).1
    refine ⟨b, hb, ?_⟩
    have hsections : r.sections now m = a.sections now (r.deed now m) := by
      simp only [sections, h.action?]
    rw [sectionsOfList, Scene.run_append, hsections, h.atRest.run_sections]
    exact hrun

/-- Whatever callers do with an action in sections, in any order, the fields fit together after each
    of them:

    The instant of the start and the parameters are absent as long as the action is idle, and both
    present afterwards.  The instant of the end is present exactly if the action has finished.
    Callbacks are being told only if it has, and are as long as any of them waits then.  Once the
    outcome is published, it is the one that the action has finished with; nobody waits or is told,
    and all of this stays for ever.

    The calls of any history, with all that callbacks do, are made of such sections. -/
theorem sections_spec (subject : Subject) (label : String) (deadline : Option Nat)
    (isFollowed : Bool) (host : κ) (moves : List (Nat × Move τ π κ ω))
    (xs ys : List (Section τ π ρ)) :
    let first := Scene.first (τ := τ) (π := π) (ρ := ρ) subject label deadline isFollowed
    let r := solo (ρ := ρ) subject label deadline isFollowed host
    let a := (first.run xs).action
    let b := ((first.run xs).run ys).action
    (a.status = .idle ↔ a.startedAt = none ∧ a.latest = none) ∧
      (a.status ≠ .idle → a.startedAt.isSome ∧ a.latest.isSome) ∧
      (a.finishedAt.isSome ↔ a.status.isTerminal) ∧
      (a.isNotifying → a.status.isTerminal) ∧
      (a.status.isTerminal → a.callbacks ≠ [] → a.isNotifying) ∧
      (∀ o, a.published = some o →
        b.published = some o ∧ b.result = .ok o ∧ b.callbacks = [] ∧ b.isNotifying = false) ∧
      ∃ c, (play moves r).1.action? 0 = some c ∧
        first.run (sectionsOfList moves r) = { action := c } := by
  intro first r a b
  have h : (first.run xs).Coherent := (Scene.coherent_first ..).run xs
  -- The fields fit together after any sections; the status is read off the stage.
  have hidle : a.status = .idle ↔ a.stage = .idle := Stage.status_eq_idle_iff
  have hterminal : a.status.isTerminal = true ↔ a.stage.outcome? ≠ none :=
    Stage.isTerminal_status_iff
  refine ⟨?_, ?_, ?_, ?_, ?_, ?_, ?_⟩
  · rw [hidle]
    exact ⟨fun hs => ⟨h.startedAt.mpr hs, h.latest.mpr hs⟩, fun hs => h.latest.mp hs.2⟩
  · intro hs
    rw [Ne, hidle] at hs
    exact ⟨Option.isSome_iff_ne_none.mpr (h.startedAt.not.mpr hs),
      Option.isSome_iff_ne_none.mpr (h.latest.not.mpr hs)⟩
  · rw [hterminal, Option.isSome_iff_ne_none]
    exact h.finishedAt.not
  · rw [hterminal]
    exact h.outcome_of_notifying
  · rw [hterminal]
    exact h.notifying_of_callbacks
  · intro o ho
    have hb : b = a := congrArg Scene.action (h.run_of_published ho ys)
    obtain ⟨stage, callbacks, isNotifying⟩ := h.stage_of_published ho
    rw [hb]
    exact ⟨ho, (Action.result_eq_ok_iff a o).mpr stage, callbacks, isNotifying⟩
  · exact (solo_solo ..).run_sections moves

/-- The action is cancelled by one caller, while two others register callbacks and its work ends.
    The callback `c` comes when the queue has been found empty and nothing is published yet. -/
theorem sections_spec_overlapping :
    let first := Scene.first (τ := String) (π := Int) (ρ := Int) (.text "user") "work" none true
    let xs := [.observe ⟨"a", [.status]⟩, .start 1 7, .cancel 2, .observe ⟨"b", []⟩, .tell 0,
      .complete 3 (.succeeded 8), .tell 0, .tell 0, .observe ⟨"c", []⟩, .tell 0]
    let ys := [.start 4 9, .observe ⟨"d", []⟩, .complete 5 (.succeeded 8), .tell 0]
    let a := (first.run (xs.take 4)).action
    let b := (first.run xs).action
    (a.status.isTerminal ∧ a.callbacks ≠ [] ∧ a.isNotifying) ∧
      b.published = some .cancelled ∧ ((first.run xs).run ys).action.result = .ok .cancelled := by
  intro first xs ys a b
  have hterminal : a.status.isTerminal := by decide +kernel
  have hwaiting : a.callbacks = [⟨"a", [.status]⟩, ⟨"b", []⟩] := rfl
  have hcallbacks : a.callbacks ≠ [] := by rw [hwaiting]; exact List.cons_ne_nil _ _
  have hpublished : b.published = some .cancelled := by decide +kernel
  have hspec := fun zs => sections_spec (.text "user") "work" none true
    ({ shared := {} } : Pool Bench.Tally Int)
    ([] : List (Nat × Move String Int (Pool Bench.Tally Int) (Work Unit Bench.Tally Int))) zs ys
  obtain ⟨-, -, -, -, hnotifying, -⟩ := hspec (xs.take 4)
  obtain ⟨-, -, -, -, -, hlast, -⟩ := hspec xs
  exact ⟨⟨hterminal, hcallbacks, hnotifying hterminal hcallbacks⟩, hpublished,
    (hlast _ hpublished).2.1⟩

end Roster

end Federation
