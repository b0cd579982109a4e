import Federation.Action.Basic
import Mathlib.Data.List.Basic

/-!
# What a finished action tells

Once an action has finished, nothing moves it any more: a callback that reacts can only register
further callbacks, and everything it is answered follows from the outcome.  So a queue of callbacks
is worked off until it is empty, whatever the callbacks do, and each of them is told the outcome.

## Key results

- `react_finished` / `reactAll_finished`: reactions only make the queue longer
- `deliver_finished`: delivery empties the queue and tells every callback
- `complete_running` / `complete_of_not_running`: what completing an action does
- `observe_finished`: a callback registered after the end is told at once
-/

namespace Federation

variable {τ π ρ : Type}

/-! ## Callbacks and those that they register -/

mutual
/-- The tags of the callbacks that a reaction registers, directly or through them. -/
def Reaction.tags : Reaction τ π → List τ
  | .observe tag rs => tag :: Reaction.tagsOfList rs
  | .cancel | .status | .result | .start _ | .run _ | .startOrJoin _ | .wait => []
/-- The tags of the callbacks that some reactions register. -/
def Reaction.tagsOfList : List (Reaction τ π) → List τ
  | [] => []
  | x :: xs => x.tags ++ Reaction.tagsOfList xs
end

/-- The tags of a callback and of those that it registers. -/
def Callback.tags (c : Callback τ π) : List τ := c.tag :: Reaction.tagsOfList c.reactions

/-! ## Agreement with an outcome -/

/-- An answer fits an action that has finished with an outcome.  Those who are told to wait are told
    nothing about the outcome yet. -/
def Answer.Agrees (o : Outcome ρ) : Answer ρ → Prop
  | .observed | .replied .awaited => True
  | .cancelled moved => moved = false
  | .status s => s = o.status
  | .result r => r = .ok o
  | .started r => r = .ok (.alreadyFinished o)
  | .replied (.known o') => o' = o

/-- What is seen of an action fits that it finishes with an outcome. -/
def Note.Agrees (o : Outcome ρ) : Note τ ρ → Prop
  | .told (.finished _ s) => s = o.status
  | .told _ => True
  | .called _ o' => o' = o
  | .answered a => a.Agrees o

namespace Action

variable {a : Action τ π ρ} {o : Outcome ρ}

/-- An action that has finished is not started again, and tells its outcome. -/
theorem tryStart_finished (now : Nat) (p : π) (h : a.stage = .finished o) :
    a.tryStart now p = (a, .ok (.alreadyFinished o)) := by
  simp [tryStart, h]

/-- A running action finishes with the outcome it is given. -/
theorem tryFinish_running (now : Nat) (o : Outcome ρ) (h : a.stage = .running) :
    a.tryFinish now o =
      ({ a with stage := .finished o, finishedAt := some now, isNotifying := true }, true) := by
  simp only [tryFinish, h]

/-- An action that does not run is not finished. -/
theorem tryFinish_of_not_running (now : Nat) (o : Outcome ρ) (h : a.stage ≠ .running) :
    a.tryFinish now o = (a, false) := by
  cases hs : a.stage with
  | running => exact absurd hs h
  | idle | finished => simp only [tryFinish, hs]

/-- An action that has finished cannot be cancelled. -/
theorem tryCancel_finished (now : Nat) (h : a.stage = .finished o) :
    a.tryCancel now = (a, false) :=
  tryFinish_of_not_running now .cancelled (by rw [h]; exact nofun)

/-- The status of an action that has finished is that of its outcome. -/
theorem status_finished (h : a.stage = .finished o) : a.status = o.status := by
  simp [status, h, Stage.status]

/-- An action is running exactly at the stage of that name. -/
theorem isRunning_iff (a : Action τ π ρ) : a.isRunning = true ↔ a.stage = .running := by
  unfold isRunning status
  cases a.stage with
  | idle => simp [Stage.status]
  | running => simp [Stage.status]
  | finished o => cases o <;> simp [Stage.status, Outcome.status]

/-- The result of an action is an outcome exactly if it has finished with it. -/
theorem result_eq_ok_iff (a : Action τ π ρ) (o : Outcome ρ) :
    a.result = .ok o ↔ a.stage = .finished o := by
  unfold result
  cases a.stage <;> simp

variable [DecidableEq π]

/-- Nobody can join an action that has finished. -/
theorem join?_finished (p : π) (h : a.stage = .finished o) : a.join? p = none := by
  have : ¬a.isRunning = true := by rw [isRunning_iff, h]; exact nofun
  simp [join?, this]

/-! ## Reactions -/

/-- What reactions do to an action that has finished: they may put callbacks behind those that are
    in the queue.  All that is seen agrees with the outcome, and the callbacks of the given tags are
    called or in the queue.  Nothing is put there unless callbacks are being told. -/
structure Reacted (a : Action τ π ρ) (o : Outcome ρ) (tags : List τ)
    (r : Action τ π ρ × List (Note τ ρ)) : Prop where
  queued : ∃ cs, r.1 = { a with callbacks := a.callbacks ++ cs } ∧
    (∀ tag ∈ tags, .called tag o ∈ r.2 ∨ tag ∈ cs.flatMap Callback.tags) ∧
    (a.isNotifying = false → cs = [])
  agrees : ∀ n ∈ r.2, n.Agrees o

omit [DecidableEq π] in
/-- A reaction that registers nothing and is answered in agreement with the outcome. -/
private theorem Reacted.answered {x : Answer ρ} (h : x.Agrees o) :
    Reacted a o [] (a, [.answered x]) where
  queued := ⟨[], by simp, by simp, fun _ => rfl⟩
  agrees := by
    intro n hn
    rw [List.mem_singleton] at hn
    exact hn ▸ h

omit [DecidableEq π] in
/-- The stage does not change by reactions. -/
theorem Reacted.stage_eq {tags : List τ} {r : Action τ π ρ × List (Note τ ρ)}
    (h : Reacted a o tags r) : r.1.stage = a.stage := by
  obtain ⟨cs, hr, -⟩ := h.queued
  rw [hr]

omit [DecidableEq π] in
/-- One reaction after others. -/
private theorem Reacted.append {xs ys : List τ} {r s : Action τ π ρ × List (Note τ ρ)}
    (hr : Reacted a o xs r) (hs : Reacted r.1 o ys s) :
    Reacted a o (xs ++ ys) (s.1, r.2 ++ s.2) := by
  obtain ⟨⟨cs, hra, hcs, hidle⟩, hagree⟩ := hr
  obtain ⟨⟨ds, hsa, hds, hidle'⟩, hagree'⟩ := hs
  rw [hra] at hsa hidle'
  -- The callbacks registered by the second reaction wait behind those of the first.
  refine ⟨⟨cs ++ ds, by simp [hsa], ?_, ?_⟩, ?_⟩
  · intro tag htag
    rw [List.flatMap_append]
    rcases List.mem_append.mp htag with h | h
    · rcases hcs tag h with h | h
      · exact .inl (List.mem_append_left _ h)
      · exact .inr (List.mem_append_left _ h)
    · rcases hds tag h with h | h
      · exact .inl (List.mem_append_right _ h)
      · exact .inr (List.mem_append_right _ h)
  · intro hn
    rw [hidle hn, hidle' hn, List.append_nil]
  · intro n hn
    rcases List.mem_append.mp hn with h | h
    · exact hagree n h
    · exact hagree' n h

mutual
/-- What a reaction does to an action that has finished. -/
theorem react_finished {a : Action τ π ρ} {o : Outcome ρ} (now : Nat) (h : a.stage = .finished o)
    (x : Reaction τ π) :
    Reacted a o x.tags (react now a x) := by
  cases x with
  | observe tag rs =>
    cases hn : a.isNotifying with
    | false =>
      -- Nobody is being told, so the callback is called at once.
      obtain ⟨⟨cs, ha, hcs, hidle⟩, hagree⟩ := reactAll_finished now h rs
      simp only [react, h, hn]
      refine ⟨⟨cs, ha, ?_, hidle⟩, ?_⟩
      · intro t ht
        rcases List.mem_cons.mp ht with rfl | ht
        · exact .inl (by simp)
        · rcases hcs t ht with h | h
          · exact .inl (by simp [h])
          · exact .inr h
      · intro n hm
        simp only [List.cons_append, List.mem_cons, List.mem_append, List.not_mem_nil,
          or_false] at hm
        rcases hm with rfl | hm | rfl
        · rfl
        · exact hagree n hm
        · trivial
    | true =>
      -- Callbacks are being told, so this one is put behind them.
      simp only [react, h, hn]
      refine ⟨⟨[⟨tag, rs⟩], rfl, ?_, fun hf => nomatch hn.symm.trans hf⟩, ?_⟩
      · intro t ht
        exact .inr (by simpa [Callback.tags, Reaction.tags] using ht)
      · intro n hm
        rw [List.mem_singleton] at hm
        subst hm
        trivial
  | cancel =>
    simp only [react, tryCancel_finished now h]
    exact .answered rfl
  | status => exact .answered (status_finished h)
  | result => exact .answered ((result_eq_ok_iff a o).mpr h)
  | start p =>
    simp only [react, tryStart_finished now p h]
    exact .answered rfl
  | run p =>
    simp only [react, tryStart_finished now p h, Reply.ofLaunch]
    exact .answered rfl
  | startOrJoin p =>
    simp only [react, join?_finished p h, tryStart_finished now p h, Reply.ofLaunch]
    exact .answered rfl
  | wait => exact .answered trivial
/-- What some reactions do to an action that has finished. -/
theorem reactAll_finished {a : Action τ π ρ} {o : Outcome ρ} (now : Nat)
    (h : a.stage = .finished o) (xs : List (Reaction τ π)) :
    Reacted a o (Reaction.tagsOfList xs) (reactAll now a xs) := by
  cases xs with
  | nil => exact ⟨⟨[], by simp [reactAll], by simp [Reaction.tagsOfList], fun _ => rfl⟩, nofun⟩
  | cons x xs =>
    have hx := react_finished now h x
    have hxs := reactAll_finished now (hx.stage_eq.trans h) xs
    exact hx.append hxs
end

/-! ## Delivery -/

/-- What is seen when callbacks of the given tags are told the outcome. -/
structure Told (o : Outcome ρ) (tags : List τ) (notes : List (Note τ ρ)) : Prop where
  called : ∀ tag ∈ tags, .called tag o ∈ notes
  agrees : ∀ n ∈ notes, n.Agrees o

/-- Delivery empties the queue, and every callback in it is told the outcome, as are those that
    callbacks register meanwhile. -/
theorem deliver_finished (now : Nat) (h : a.stage = .finished o) :
    (a.deliver now o).1 = { a with callbacks := [], isNotifying := false } ∧
      Told o (a.callbacks.flatMap Callback.tags) (a.deliver now o).2 := by
  -- Induction on the weight of the queue, as callbacks may register others.
  induction hn : a.pending using Nat.strongRecOn generalizing a with
  | _ n ih =>
    cases hc : a.callbacks with
    | nil =>
      rw [deliver_nil hc]
      exact ⟨by rw [← hc], ⟨nofun, nofun⟩⟩
    | cons c rest =>
      rw [deliver_cons hc]
      have hless := hn ▸ pending_reactAll_lt now hc
      have hr : Reacted { a with callbacks := rest } o (Reaction.tagsOfList c.reactions)
          (reactAll now { a with callbacks := rest } c.reactions) :=
        reactAll_finished (a := { a with callbacks := rest }) now h c.reactions
      have hstage := hr.stage_eq.trans h
      obtain ⟨⟨cs, ha, hcs, -⟩, hagree⟩ := hr
      obtain ⟨hd, htold⟩ := ih _ hless hstage rfl
      refine ⟨?_, ?_, ?_⟩
      · simp only [hd]
        rw [ha]
      · intro tag htag
        simp only [List.flatMap_cons, Callback.tags, List.cons_append, List.mem_cons,
          List.mem_append] at htag ⊢
        rw [ha] at htold
        -- The tag is that of the first callback, of one that it registers, or of one that waits
        -- behind.
        rcases htag with rfl | htag | htag
        · exact .inl rfl
        · rcases hcs tag htag with h | h
          · exact .inr (.inl h)
          · exact .inr (.inr (ha ▸ htold.called tag (by simp [h])))
        · exact .inr (.inr (ha ▸ htold.called tag (by simp [htag])))
      · intro n hm
        simp only [List.cons_append, List.mem_cons, List.mem_append] at hm
        rcases hm with rfl | hm | hm
        · rfl
        · exact hagree n hm
        · exact htold.agrees n hm

/-! ## Calls -/

omit [DecidableEq π] in
/-- What is seen when an observer of the federation is told of the end. -/
private theorem agrees_of_mem_tell {n : Note τ ρ} (s : Subject)
    (h : n ∈ a.tell (.finished s o.status)) : n.Agrees o := by
  unfold tell at h
  split at h
  · rw [List.mem_singleton] at h
    subst h
    rfl
  · exact absurd h List.not_mem_nil

/-- An action that has finished notifies everyone: the queue is empty then, and the outcome is
    published. -/
theorem notify_finished (now : Nat) (h : a.stage = .finished o) :
    (a.notify now o).1 =
        { a with callbacks := [], isNotifying := false, published := some o } ∧
      Told o (a.callbacks.flatMap Callback.tags) (a.notify now o).2 := by
  obtain ⟨hd, htold⟩ := deliver_finished now h
  refine ⟨by simp only [notify, hd], ?_, ?_⟩
  · intro tag htag
    exact List.mem_append_left _ (htold.called tag htag)
  · intro n hn
    rcases List.mem_append.mp hn with hn | hn
    · exact htold.agrees n hn
    · exact agrees_of_mem_tell _ hn

/-- Completing an action that runs finishes it and notifies everyone. -/
theorem complete_running (now : Nat) (o : Outcome ρ) (h : a.stage = .running) :
    (a.complete now o).1 =
        { a with
          stage := .finished o, finishedAt := some now
          callbacks := [], isNotifying := false, published := some o } ∧
      Told o (a.callbacks.flatMap Callback.tags) (a.complete now o).2.1 ∧
      (a.complete now o).2.2 = true := by
  let b : Action τ π ρ :=
    { a with stage := .finished o, finishedAt := some now, isNotifying := true }
  have hb : a.tryFinish now o = (b, true) := tryFinish_running now o h
  obtain ⟨hn, htold⟩ := notify_finished (a := b) now rfl
  simp only [complete, hb]
  exact ⟨hn, htold, trivial⟩

/-- Completing an action that does not run does nothing. -/
theorem complete_of_not_running (now : Nat) (o : Outcome ρ) (h : a.stage ≠ .running) :
    a.complete now o = (a, [], false) := by
  simp only [complete, tryFinish_of_not_running now o h]

/-- An action without callbacks tells the observer alone that it has finished. -/
theorem complete_of_callbacks_nil (now : Nat) (o : Outcome ρ) (h : a.stage = .running)
    (ha : a.callbacks = []) :
    a.complete now o =
      ({ a with
          stage := .finished o, finishedAt := some now, isNotifying := false, published := some o },
        a.tell (.finished a.subject o.status), true) := by
  let b : Action τ π ρ :=
    { a with stage := .finished o, finishedAt := some now, isNotifying := true }
  have hb : a.tryFinish now o = (b, true) := tryFinish_running now o h
  have hdeliver : b.deliver now o = ({ b with isNotifying := false }, []) := deliver_nil ha
  simp only [complete, hb, notify, hdeliver]
  rfl

/-- A callback that is registered after everyone has been notified is told at once, and nothing
    else changes. -/
theorem observe_finished (now : Nat) (c : Callback τ π) (h : a.stage = .finished o)
    (hidle : a.isNotifying = false) :
    (a.observe now c).1 = a ∧ Told o c.tags (a.observe now c).2 := by
  -- Nobody is being told any more, so the queue stays empty.
  obtain ⟨⟨cs, ha, hcs, hnone⟩, hagree⟩ := reactAll_finished now h c.reactions
  rw [hnone hidle] at ha hcs
  rw [List.append_nil] at ha
  simp only [observe, h, hidle]
  refine ⟨ha, ?_, ?_⟩
  · intro tag htag
    rcases List.mem_cons.mp htag with rfl | htag
    · exact List.mem_cons_self
    · rcases hcs tag htag with h | h
      · exact List.mem_cons_of_mem _ h
      · exact absurd h List.not_mem_nil
  · intro n hn
    rcases List.mem_cons.mp hn with rfl | hn
    · rfl
    · exact hagree n hn

/-- A callback that is registered before the end joins the queue. -/
theorem observe_of_not_finished (now : Nat) (c : Callback τ π) (h : ∀ o, a.stage ≠ .finished o) :
    a.observe now c = (a.enqueue c, []) := by
  unfold observe
  split
  · next ho _ => exact absurd ho (h _)
  · rfl

end Action

end Federation
