import Federation.Proofs.Action.Heat

/-!
# The race between work, deadline and cancellation

An action is started with work that may wait any number of times, and it may be cancelled at any
instants.  Time is kept as a clock keeps it: nothing that is due is passed over, and time goes on
only when everything has happened.

## Key results

- `Race.play`: what is known of an action as long as time is kept
- `Race.exists_punctual`: whatever is to be done with it, and whenever, time can be kept
- `race_spec`: the earliest of the three decides how the action ends
-/

namespace Federation

variable {τ π ρ κ ω σ : Type}

/-- Whether a move leaves the host to itself. -/
def Move.isOrderly : Move τ π κ ω → Bool
  | evolve _ => false
  | _ => true

/-- Whether a move is that the roster settles. -/
def Move.isSettle : Move τ π κ ω → Bool
  | settle => true
  | _ => false

/-- Settling is the move of that name. -/
@[simp]
theorem Move.isSettle_settle : (settle : Move τ π κ ω).isSettle = true := rfl

/-- The instants at which some moves cancel the action. -/
def Move.cancels (moves : List (Nat × Move τ π κ ω)) : List Nat :=
  moves.filterMap fun m => match m.2 with
    | cancel => some m.1
    | _ => none

namespace Roster

variable [DecidableEq π] {label : String} {deadline : Option Nat} {w : Errand σ ρ}
  {start now t : Nat} {cancels : List Nat} {r : Track τ π ρ σ}

/-- A roster has come to an instant, and everything may have happened then. -/
structure Race (label : String) (deadline : Option Nat) (w : Errand σ ρ) (start : Nat)
    (cancels : List Nat) (now : Nat) (isRested : Bool) (r : Track τ π ρ σ) : Prop where
  solo : ∃ a, Solo r a
  runs : Runs label deadline w start cancels now r
  rested : isRested = true → Rested now r

/-- Whether moves keep to time and leave the host to itself: time goes on only when everything has
    happened at an instant, and then not beyond the next instant at which something is due. -/
def isPunctual (now : Nat) (isRested : Bool) :
    List (Nat × Move τ π (Errands σ ρ) (Errand σ ρ)) → Track τ π ρ σ → Bool
  | [], _ => true
  | (t, m) :: moves, r =>
    (t = now || isRested && now ≤ t && (Timed.next? r).all (t ≤ ·)) && m.isOrderly &&
      isPunctual t m.isSettle moves (r.act t m).1

variable {isRested : Bool} {m : Move τ π (Errands σ ρ) (Errand σ ρ)}

/-- Time is kept by a first move and by those that follow. -/
theorem isPunctual_cons {moves : List (Nat × Move τ π (Errands σ ρ) (Errand σ ρ))} :
    r.isPunctual now isRested ((t, m) :: moves) = true ↔
      (t = now ∨ isRested = true ∧ now ≤ t ∧ ∀ u, Timed.next? r = some u → t ≤ u) ∧
        m.isOrderly = true ∧ (r.act t m).1.isPunctual t m.isSettle moves = true := by
  simp [isPunctual, Option.all_eq_true, and_assoc]

/-- What is known after a move. -/
theorem Race.act (h : Race label deadline w start cancels now isRested r)
    (onTime : t = now ∨ isRested = true ∧ now ≤ t ∧ ∀ u, Timed.next? r = some u → t ≤ u)
    (orderly : m.isOrderly = true) :
    Race label deadline w start (cancels ++ Move.cancels [(t, m)]) t m.isSettle
      (r.act t m).1 := by
  obtain ⟨a, solo⟩ := h.solo
  have runs : Runs label deadline w start cancels t r := by
    rcases onTime with rfl | ⟨rested, le, next⟩
    · exact h.runs
    · exact h.runs.later (h.rested rested) le next
  -- A move that is neither a cancellation nor the settling leaves the instant open.
  have other : Move.cancels [(t, m)] = [] → m.isSettle = false →
      Runs label deadline w start cancels t (r.act t m).1 →
      Race label deadline w start (cancels ++ Move.cancels [(t, m)]) t m.isSettle
        (r.act t m).1 := by
    intro none unsettled runs
    rw [none, List.append_nil, unsettled]
    exact ⟨⟨_, (solo.act t m).1⟩, runs, nofun⟩
  cases m with
  | start p request | startUnattended p | run p request | startOrJoin p request =>
    refine other rfl rfl ?_
    rw [act_of_not_idle solo (runs.stage_ne_idle solo) t rfl]
    exact runs
  | cancel => exact ⟨⟨_, (solo.act t .cancel).1⟩, runs.cancel, nofun⟩
  | observe c => exact other rfl rfl (runs.observe solo c)
  | wait | result | status => exact other rfl rfl runs
  | settle =>
    obtain ⟨settled, rested⟩ := runs.settle
    refine ⟨⟨_, (solo.act t .settle).1⟩, ?_, fun _ => rested⟩
    exact (List.append_nil cancels).symm ▸ settled
  | evolve f => exact nomatch orderly

/-- What is known after moves that keep to time, when everything has happened. -/
theorem Race.play {moves : List (Nat × Move τ π (Errands σ ρ) (Errand σ ρ))}
    (h : Race label deadline w start cancels now isRested r)
    (punctual : r.isPunctual now isRested (moves ++ [(t, .settle)]) = true) :
    Race label deadline w start (cancels ++ Move.cancels moves) t true
      (play (moves ++ [(t, .settle)]) r).1 := by
  induction moves generalizing now isRested cancels r with
  | nil =>
    obtain ⟨onTime, orderly, -⟩ := isPunctual_cons.mp punctual
    exact h.act onTime orderly
  | cons x moves ih =>
    obtain ⟨u, m⟩ := x
    obtain ⟨onTime, orderly, rest⟩ := isPunctual_cons.mp punctual
    have played := ih (h.act onTime orderly) rest
    have cancels' : Move.cancels ((u, m) :: moves) = Move.cancels [(u, m)] ++ Move.cancels moves :=
      List.filterMap_append (l := [(u, m)])
    rw [cancels', ← List.append_assoc]
    exact played

/-! ## Keeping time -/

/-- Once everything has happened at an instant, time can be kept until any later one. -/
private theorem Race.wait_of_rested (gap : Nat)
    (h : Race label deadline w start cancels now true r) (le : now ≤ t) (gap_eq : t - now = gap) :
    ∃ moves : List (Nat × Move τ π (Errands σ ρ) (Errand σ ρ)),
      (∀ x ∈ moves, x.2 = .settle) ∧
        r.isPunctual now true (moves ++ [(t, .settle)]) = true := by
  induction gap using Nat.strongRecOn generalizing now cancels r with
  | ind gap ih =>
    by_cases due : ∃ u, Timed.next? r = some u ∧ u < t
    -- The roster settles at the next instant at which something is due, and there is less to wait.
    · obtain ⟨u, next, lt⟩ := due
      obtain ⟨j, jobs, -⟩ := h.runs
      have later : now < u := (h.rested rfl).lt_next jobs next
      have onTime : u = now ∨ true = true ∧ now ≤ u ∧ ∀ v, Timed.next? r = some v → u ≤ v :=
        .inr ⟨rfl, Nat.le_of_lt later,
          fun v next' => Nat.le_of_eq (Option.some.inj (next.symm.trans next'))⟩
      have settled := h.act (m := .settle) onTime rfl
      obtain ⟨moves, settles, punctual⟩ := ih (t - u) (by omega) settled (Nat.le_of_lt lt) rfl
      exact ⟨(u, .settle) :: moves, List.forall_mem_cons.mpr ⟨rfl, settles⟩,
        isPunctual_cons.mpr ⟨onTime, rfl, punctual⟩⟩
    · refine ⟨[], nofun, isPunctual_cons.mpr ⟨.inr ⟨rfl, le, fun u next => ?_⟩, rfl, rfl⟩⟩
      exact Nat.le_of_not_lt fun lt => due ⟨u, next, lt⟩

/-- Time can be kept until any later instant. -/
theorem Race.wait (h : Race label deadline w start cancels now isRested r) (le : now ≤ t) :
    ∃ moves : List (Nat × Move τ π (Errands σ ρ) (Errand σ ρ)),
      (∀ x ∈ moves, x.2 = .settle) ∧
        r.isPunctual now isRested (moves ++ [(t, .settle)]) = true := by
  obtain ⟨moves, settles, punctual⟩ :=
    (h.act (m := .settle) (.inl rfl) rfl).wait_of_rested _ le rfl
  exact ⟨(now, .settle) :: moves, List.forall_mem_cons.mpr ⟨rfl, settles⟩,
    isPunctual_cons.mpr ⟨.inl rfl, rfl, punctual⟩⟩

/-- Time is kept up to a settling and from there on. -/
theorem isPunctual_append {xs ys : List (Nat × Move τ π (Errands σ ρ) (Errand σ ρ))} :
    r.isPunctual now isRested (xs ++ (t, .settle) :: ys) = true ↔
      r.isPunctual now isRested (xs ++ [(t, .settle)]) = true ∧
        (play (xs ++ [(t, .settle)]) r).1.isPunctual t true ys = true := by
  induction xs generalizing now isRested r with
  | nil => simp [isPunctual, play, and_assoc]
  | cons x xs ih =>
    obtain ⟨u, m⟩ := x
    simp [isPunctual_cons, ih, play, and_assoc]

/-- Whatever is to be done with the action, and at whatever instants, there is a history in which it
    is done and time is kept. -/
theorem Race.exists_punctual (h : Race label deadline w start cancels now isRested r)
    (calls : List (Nat × Move τ π (Errands σ ρ) (Errand σ ρ)))
    (own : ∀ x ∈ calls, x.2.isOrderly = true ∧ x.2.isSettle = false)
    (inOrder : (now :: (calls.map Prod.fst ++ [t])).Pairwise (· ≤ ·)) :
    ∃ moves : List (Nat × Move τ π (Errands σ ρ) (Errand σ ρ)),
      moves.filter (fun x => !x.2.isSettle) = calls ∧
        r.isPunctual now isRested (moves ++ [(t, .settle)]) = true := by
  have settling : ∀ {moves : List (Nat × Move τ π (Errands σ ρ) (Errand σ ρ))},
      (∀ x ∈ moves, x.2 = .settle) → moves.filter (fun x => !x.2.isSettle) = [] := by
    intro moves settles
    refine List.filter_eq_nil_iff.mpr fun x mem => ?_
    simp [settles x mem]
  -- Before each call one waits until its instant, and settles there.
  induction calls generalizing now isRested cancels r with
  | nil =>
    have le : now ≤ t := (List.pairwise_cons.mp inOrder).1 t List.mem_cons_self
    obtain ⟨moves, settles, punctual⟩ := h.wait le
    exact ⟨moves, settling settles, punctual⟩
  | cons x calls ih =>
    obtain ⟨u, m⟩ := x
    obtain ⟨⟨orderly, unsettled⟩, own⟩ := List.forall_mem_cons.mp own
    obtain ⟨le, inOrder⟩ := List.pairwise_cons.mp inOrder
    obtain ⟨waiting, settles, punctual⟩ := h.wait (t := u) (le u List.mem_cons_self)
    have called := (h.play punctual).act (m := m) (.inl rfl) orderly
    obtain ⟨moves, same, rest⟩ := ih called own inOrder
    refine ⟨waiting ++ (u, .settle) :: (u, m) :: moves, ?_, ?_⟩
    · simp [settling settles, unsettled, same]
    · rw [List.append_assoc, List.cons_append, isPunctual_append]
      exact ⟨punctual, isPunctual_cons.mpr ⟨.inl rfl, orderly, rest⟩⟩

/-! ## Before the start -/

/-- Nothing has been done yet with an action and its host, but that callbacks may wait. -/
structure Blank (label : String) (deadline : Option Nat) (r : Track τ π ρ σ) : Prop where
  job : ∃ j, r.jobs = [j] ∧ j.runner = .absent ∧ j.action.stage = .idle ∧
    j.action.label = label ∧ j.action.deadline = deadline
  host : r.host.host = {}

omit [DecidableEq π] in
/-- Nobody watches over an action that has not been started. -/
theorem Blank.verdicts (h : Blank label deadline r) (now : Nat) : r.verdicts now = [] := by
  obtain ⟨j, jobs, absent, -⟩ := h.job
  rw [verdicts_singleton jobs]
  simp [Job.verdict?, absent, Runner.isActive]

omit [DecidableEq π] in
/-- An action that has not been started is left alone when the host goes on. -/
theorem Blank.goOn (h : Blank label deadline r) (now : Nat) :
    Blank label deadline (r.goOn now) := by
  obtain ⟨⟨action, runner⟩, jobs, absent, terms⟩ := h.job
  obtain rfl : runner = .absent := absent
  refine ⟨⟨_, ?_, rfl, terms⟩, ?_⟩
  · rw [Roster.goOn, jobs]
    rfl
  · have calls : r.host.host.calls = [] := by rw [h.host]
    exact (Errands.settle_of_calls calls now).trans h.host

/-- What is no call leaves an action alone that has not been started. -/
theorem Blank.act (h : Blank label deadline r) (now : Nat) (other : m.params? = none)
    (orderly : m.isOrderly = true) : Blank label deadline (r.act now m).1 := by
  obtain ⟨j, jobs, absent, stage, terms⟩ := h.job
  have notRunning : j.action.stage ≠ .running := by rw [stage]; exact nofun
  have notFinished : ∀ o, j.action.stage ≠ .finished o := by rw [stage]; exact nofun
  -- A cancellation finds nothing to cancel, a callback waits, and settling finds no verdict.
  cases m with
  | cancel =>
    have same := Action.complete_of_not_running now .cancelled notRunning
    refine ⟨⟨j, ?_, absent, stage, terms⟩, ?_⟩
    · simp [Roster.act, Roster.cancel, Action.cancel, record, jobs, same]
    · simpa [Roster.act, Roster.cancel, record, jobs] using h.host
  | observe c =>
    have queued := Action.observe_of_not_finished now c notFinished
    refine ⟨⟨{ j with action := j.action.enqueue c }, ?_, absent, stage, terms⟩, ?_⟩
    · simp [Roster.act, Roster.observe, record, jobs, queued]
    · simpa [Roster.act, Roster.observe, record, jobs] using h.host
  | settle =>
    refine settle_phases (P := Blank label deadline) (fun s vs hvs hs => ?_) (fun s hs => ?_)
      (fun s hs => hs.goOn now) h
    · rw [hs.verdicts, List.sublist_nil] at hvs
      exact hvs ▸ hs
    · have calls : s.host.host.calls = [] := by rw [hs.host]
      exact ⟨hs.job, (Errands.ripen_of_calls calls now).trans hs.host⟩
  | wait | result | status => exact h
  | evolve f => cases orderly
  | _ => cases other

/-- What is no call leaves an action alone that has not been started. -/
theorem Blank.play {moves : List (Nat × Move τ π (Errands σ ρ) (Errand σ ρ))}
    (h : Blank label deadline r)
    (others : ∀ x ∈ moves, x.2.params? = none ∧ x.2.isOrderly = true) :
    Blank label deadline (play moves r).1 := by
  induction moves generalizing r with
  | nil => exact h
  | cons x moves ih =>
    obtain ⟨⟨other, orderly⟩, others⟩ := List.forall_mem_cons.mp others
    exact ih (h.act x.1 other orderly) others

/-- The call that finds the action idle begins the race. -/
theorem Blank.launch {a : Action τ π ρ} {p : π} (h : Blank label deadline r) (solo : Solo r a)
    (now : Nat) (call : m.launch? = some (p, w)) :
    Race label deadline w now [] now false (r.act now m).1 := by
  obtain ⟨j, jobs, -, idle, label', deadline'⟩ := h.job
  obtain rfl := solo.action_eq jobs
  obtain ⟨host, started, -⟩ := start_of_idle solo idle now p w
  -- The host had no calls, so this is its only one.
  have host' : (r.start now 0 p w).1.host.host = { calls := [⟨0, w, .made⟩] } := by
    rw [host]
    show Host.submit 0 w r.host.host = _
    rw [h.host]
    rfl
  refine ⟨⟨_, (solo.act now m).1⟩, ?_, nofun⟩
  rw [(act_of_idle solo idle now call).1]
  refine ⟨_, started, .running rfl rfl (by rw [← deadline']; rfl) ⟨label', deadline'⟩ rfl ?_ ?_⟩
  · exact fun d _ => Nat.le_add_right now d
  · rw [host']
    exact .made rfl

omit [DecidableEq π] in
/-- What is known when everything has happened at an instant: either nothing has come yet, or the
    first of the three has decided. -/
theorem Race.decided (h : Race label deadline w start cancels now true r) :
    (r.status = .running ∧ ∀ v p, Contender label deadline w start cancels v p → now < v) ∨
    ∃ u o, r.result? = some (.ok o) ∧ (r.action? 0).bind Action.finishedAt = some u ∧ u ≤ now ∧
      Wins label deadline w start cancels u o ∧ ∀ i ∈ r.host.host.steps, i.2 ≤ u := by
  obtain ⟨a, solo⟩ := h.solo
  obtain ⟨j, jobs, heat⟩ := h.runs
  obtain rfl := solo.action_eq jobs
  have rested := h.rested rfl
  rcases heat.of_waits (rested.waits jobs) rested.rests with
    ⟨stage, ahead⟩ | ⟨u, o, stage, finishedAt, le, wins, steps⟩
  · refine .inl ⟨?_, ahead⟩
    rw [solo.status, Action.status, stage]
    rfl
  · refine .inr ⟨u, o, (solo.result?_eq_iff o).mpr stage, ?_, le, wins, steps⟩
    rw [solo.action?, Option.bind_some, finishedAt]

/-- Somebody starts an action at an instant, with work that may wait any number of times, after any
    moves that are no calls.  Whatever is to be done then with the action, and at whatever instants,
    time can be kept meanwhile.  As long as it is kept, when everything has happened at an instant,
    either the action still runs, and neither the end of its work nor its deadline nor a cancellation
    has come yet; or it finished at the instant of the earliest of the three, with the outcome that
    belongs to it, and its work has done no step after that instant. -/
theorem race_spec (subject : Subject) (label : String) (deadline : Option Nat)
    (isFollowed : Bool) (before : List (Nat × Move τ π (Errands σ ρ) (Errand σ ρ))) (start : Nat)
    {p : π} (first : ∀ x ∈ before, x.2.params? = none ∧ x.2.isOrderly = true)
    (call : m.launch? = some (p, w)) :
    let x := (play before (solo (ρ := ρ) subject label deadline isFollowed {})).1
    let y := (x.act start m).1
    (∀ calls now, (∀ c ∈ calls, c.2.isOrderly = true ∧ c.2.isSettle = false) →
      (start :: (calls.map Prod.fst ++ [now])).Pairwise (· ≤ ·) →
      ∃ later, later.filter (fun c => !c.2.isSettle) = calls ∧
        y.isPunctual start false (later ++ [(now, .settle)]) = true) ∧
    ∀ later now, y.isPunctual start false (later ++ [(now, .settle)]) = true →
      let z := (play (later ++ [(now, .settle)]) y).1
      (z.status = .running ∧
        ∀ v o, Contender label deadline w start (Move.cancels later) v o → now < v) ∨
      ∃ u o, z.result? = some (.ok o) ∧ (z.action? 0).bind Action.finishedAt = some u ∧ u ≤ now ∧
        Wins label deadline w start (Move.cancels later) u o ∧
        ∀ i ∈ z.host.host.steps, i.2 ≤ u := by
  intro x y
  -- Before the start there is nothing that could race; the start begins the race.
  have blank : Blank label deadline x :=
    Blank.play ⟨⟨_, rfl, rfl, rfl, rfl, rfl⟩, rfl⟩ first
  obtain ⟨a, solo⟩ : ∃ a, Solo x a := (solo_solo ..).play before
  have race : Race label deadline w start [] start false y := blank.launch solo start call
  exact ⟨fun calls now => race.exists_punctual calls,
    fun later now punctual => (race.play punctual).decided⟩

/-- Work that ends after six milliseconds does not come up to its deadline of five.  A cancellation
    before the start does not matter, and neither does one that comes later. -/
theorem race_spec_deadline :
    let w : Errand Nat Int :=
      ⟨3, fun _ n => if n = 0 then .ends (.returned (.ok 7)) else .waits (some 1) (n - 1)⟩
    let x : Track String Int Int Nat :=
      (play [(0, .cancel)] (solo (.text "user") "work" (some 5) false {})).1
    let y := (x.act 0 (.start 1 w)).1
    let z := (play [(0, .settle), (2, .settle), (4, .settle), (5, .settle), (9, .cancel),
      (9, .settle)] y).1
    z.host.host.steps = [(0, 0), (0, 2), (0, 4)] ∧
      Wins "work" (some 5) w 0 [9] 5 (.failed (.timeout "work" (.ofMillis 5))) := by
  intro w x y z
  have result : z.result? = some (.ok (.failed (.timeout "work" (.ofMillis 5)))) := by
    decide +kernel
  have finishedAt : (z.action? 0).bind Action.finishedAt = some 5 := by decide +kernel
  refine ⟨by decide +kernel, ?_⟩
  obtain ⟨-, decided⟩ := race_spec (τ := String) (π := Int) (.text "user") "work" (some 5) false
    [(0, .cancel)] 0 (m := .start 1 w) (by simp [Move.params?, Move.isOrderly]) rfl
  rcases decided [(0, .settle), (2, .settle), (4, .settle), (5, .settle), (9, .cancel)] 9
    (by decide +kernel) with ⟨-, ahead⟩ | ⟨u, o, result', finishedAt', -, wins, -⟩
  · exact absurd (ahead 5 _ (.deadline rfl)) (by decide)
  · obtain rfl := Option.some.inj (finishedAt.symm.trans finishedAt')
    obtain rfl := Except.ok.inj (Option.some.inj (result.symm.trans result'))
    exact wins

end Roster

end Federation
