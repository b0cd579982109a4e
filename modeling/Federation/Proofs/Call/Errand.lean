import Federation.Call.Host
import Federation.Proofs.Timed

/-!
# Work with any number of waits

An `Errand` is a piece of work that does one step, waits, does the next step, and so on, until it
ends with a step or waits for ever.  What a step does may depend on the clock and on all the steps
before it.  `Errands` is a host of such calls that writes down each step with its instant.

Left alone, an errand that begins at an instant ends at a certain instant in a certain way, or never:
this is `Errand.Ends`, which knows nothing of hosts.

## Key results

- `Errand.Ends.unique`: an errand that is left alone has one end
- `Underway.ripen`, `Underway.settle`: whatever a host does at an instant, the only errand is on its
  way to the end that it would have alone
- `Underway.later`: time may pass until its next step is due
-/

namespace Federation

/-- What work comes to with a step. -/
inductive Errand.Next (σ α : Type) where
  /-- It waits for one millisecond and some more, or for ever. -/
  | waits (more : Option Nat) (state : σ)
  | ends (e : Ending α)

/-- Work with any number of waits. -/
structure Errand (σ α : Type) where
  state : σ
  step : (now : Nat) → σ → Errand.Next σ α

variable {σ α : Type}

namespace Errand

/-- The work, which does its next step at an instant and is left alone, ends at another instant like
    this. -/
inductive Ends (w : Errand σ α) : (now : Nat) → σ → Nat → Ending α → Prop
  | now {now : Nat} {x : σ} {e : Ending α} (h : w.step now x = .ends e) : Ends w now x now e
  | later {now more t : Nat} {x y : σ} {e : Ending α} (h : w.step now x = .waits (some more) y)
      (rest : Ends w (now + 1 + more) y t e) : Ends w now x t e

variable {w : Errand σ α} {now more t u : Nat} {x y : σ} {e e' : Ending α}

/-- Work does not end before it is begun. -/
theorem Ends.le (h : w.Ends now x t e) : now ≤ t := by
  induction h with
  | now => exact Nat.le_refl _
  | later _ _ ih => omega

/-- Work whose next step is the last ends there and then. -/
theorem ends_iff_of_ends (h : w.step now x = .ends e') : w.Ends now x t e ↔ t = now ∧ e = e' := by
  constructor
  · intro ends
    cases ends with
    | now h' => exact ⟨rfl, Next.ends.inj (h'.symm.trans h)⟩
    | later h' => exact nomatch h'.symm.trans h
  · rintro ⟨rfl, rfl⟩
    exact .now h

/-- Work that waits after its next step ends as it does when it goes on, which it never does if it
    waits forever. -/
theorem ends_iff_of_waits {more : Option Nat} (h : w.step now x = .waits more y) :
    w.Ends now x t e ↔ ∃ n, more = some n ∧ w.Ends (now + 1 + n) y t e := by
  constructor
  · intro ends
    -- The step is known, so the work does not end with it.
    cases ends with
    | now h' => exact nomatch h'.symm.trans h
    | later h' rest =>
      obtain ⟨rfl, rfl⟩ := Next.waits.inj (h.symm.trans h')
      exact ⟨_, rfl, rest⟩
  · rintro ⟨n, rfl, rest⟩
    exact .later h rest

/-- Work that is left alone has one end. -/
theorem Ends.unique (h : w.Ends now x t e) (h' : w.Ends now x u e') : u = t ∧ e' = e := by
  induction h with
  | now h => exact (ends_iff_of_ends h).mp h'
  | later h _ ih =>
    obtain ⟨n, more, rest⟩ := (ends_iff_of_waits h).mp h'
    obtain rfl := Option.some.inj more
    exact ih rest

end Errand

/-! ## The host -/

namespace Errands

/-- How far a call has come. -/
inductive Stage (σ : Type) where
  /-- The work has not begun. -/
  | made
  /-- The work waits until an instant, or for ever if there is none. -/
  | waiting (state : σ) (due : Option Nat)

/-- A call that has not ended. -/
structure Call (σ α : Type) where
  id : Nat
  work : Errand σ α
  stage : Stage σ

end Errands

/-- Calls whose work may wait any number of times. -/
structure Errands (σ α : Type) where
  calls : List (Errands.Call σ α) := []
  ended : List (Ended α) := []
  /-- The steps that were done: the number of the call, and the instant. -/
  steps : List (Nat × Nat) := []

namespace Errands

/-- A call does a step. -/
def advance (now : Nat) (c : Call σ α) (x : σ) (k : Errands σ α) : Errands σ α :=
  let k := { k with steps := k.steps ++ [(c.id, now)] }
  match c.work.step now x with
  | .ends e => { k with ended := k.ended ++ [⟨c.id, now, e⟩] }
  | .waits more y =>
    { k with calls := k.calls ++ [{ c with stage := .waiting y (more.map (now + 1 + ·)) }] }

/-- A call that has begun does a step if its wait is over. -/
def goOn (now : Nat) (k : Errands σ α) (c : Call σ α) : Errands σ α :=
  match c.stage with
  | .made => { k with calls := k.calls ++ [c] }
  | .waiting x due =>
    if Timed.isDue due now then k.advance now c x else { k with calls := k.calls ++ [c] }

/-- A call does a step if it has not begun, or if its wait is over. -/
def turn (now : Nat) (k : Errands σ α) (c : Call σ α) : Errands σ α :=
  match c.stage with
  | .made => k.advance now c c.work.state
  | .waiting .. => k.goOn now c

/-- The instant at which the wait of a call is over. -/
def Call.due? (c : Call σ α) : Option Nat :=
  match c.stage with
  | .made => none
  | .waiting _ due => due

instance : Host (Errands σ α) (Errand σ α) α where
  settle now k := k.calls.foldl (turn now) { k with calls := [] }
  next? k := Timed.earliest (k.calls.map Call.due?)
  load k := k.calls.length
  submit id w k := { k with calls := k.calls ++ [⟨id, w, .made⟩] }
  ripen now k := k.calls.foldl (goOn now) { k with calls := [] }
  due? k id := (k.calls.find? fun c => c.id = id).bind Call.due?
  abort id k := { k with calls := k.calls.filter fun c => c.id ≠ id }
  ended? k := Federation.ended? k.ended

/-! ## The only errand of a host -/

/-- An errand, which is the only one of its host and began at an instant, is on its way, or has just
    ended. -/
inductive Underway (w : Errand σ α) (start now : Nat) : Errands σ α → Prop
  | made (begins : start = now) : Underway w start now { calls := [⟨0, w, .made⟩] }
  | waiting {steps : List (Nat × Nat)} {x : σ} {due : Option Nat}
      (ahead : ∀ t, due = some t → now ≤ t)
      (way : ∀ t e, w.Ends start w.state t e ↔ ∃ d, due = some d ∧ w.Ends d x t e)
      (done : ∀ i ∈ steps, i.2 ≤ now) :
      Underway w start now { calls := [⟨0, w, .waiting x due⟩], steps := steps }
  | ended {steps : List (Nat × Nat)} {e : Ending α} (ends : w.Ends start w.state now e)
      (done : ∀ i ∈ steps, i.2 ≤ now) :
      Underway w start now { ended := [⟨0, now, e⟩], steps := steps }

/-- Nothing is left to do at an instant for the errands of a host: they wait for longer. -/
def Rests (now : Nat) (k : Errands σ α) : Prop :=
  ∀ c ∈ k.calls, ∃ x due, c.stage = .waiting x due ∧ ∀ t, due = some t → now < t

variable {w : Errand σ α} {start now : Nat} {k : Errands σ α}

/-- What is due next when the errands of a host wait is due later. -/
theorem Rests.lt_next {u : Nat} (h : Rests now k) (next : Timed.next? k = some u) : now < u := by
  obtain ⟨c, mem, due⟩ := List.mem_map.mp (Timed.mem_of_earliest next)
  obtain ⟨x, due', stage, lt⟩ := h c mem
  refine lt u ?_
  rw [← due, Call.due?, stage]

/-- Nothing happens where there is no errand. -/
theorem settle_of_calls (h : k.calls = []) (now : Nat) : Timed.settle now k = k := by
  obtain ⟨calls, ended, steps⟩ := k
  obtain rfl : calls = [] := h
  rfl

/-- No wait ends where there is no errand. -/
theorem ripen_of_calls (h : k.calls = []) (now : Nat) : Host.ripen now k = k := by
  obtain ⟨calls, ended, steps⟩ := k
  obtain rfl : calls = [] := h
  rfl

/-- A step takes the errand on, or ends it, as it would alone. -/
theorem underway_advance {steps : List (Nat × Nat)} {x : σ} (stage : Stage σ)
    (way : ∀ t e, w.Ends start w.state t e ↔ w.Ends now x t e)
    (done : ∀ i ∈ steps, i.2 ≤ now) :
    Underway w start now (({ steps := steps } : Errands σ α).advance now ⟨0, w, stage⟩ x) ∧
      Rests now (({ steps := steps } : Errands σ α).advance now ⟨0, w, stage⟩ x) := by
  have done' : ∀ i ∈ steps ++ [(0, now)], i.2 ≤ now := by
    intro i mem
    rcases List.mem_append.mp mem with mem | mem
    · exact done i mem
    · exact Nat.le_of_eq (congrArg Prod.snd (List.mem_singleton.mp mem))
  -- The step is the last one, or a wait follows, which is over later than now.
  cases h : w.step now x with
  | ends e =>
    have ends : w.Ends start w.state now e := (way now e).mpr (.now h)
    simp only [advance, h]
    exact ⟨.ended ends done', nofun⟩
  | waits more y =>
    simp only [advance, h]
    refine ⟨.waiting ?_ ?_ done', ?_⟩
    · intro t due
      obtain ⟨n, -, rfl⟩ := Option.map_eq_some_iff.mp due
      omega
    · intro t e
      rw [way, Errand.ends_iff_of_waits h]
      simp only [Option.map_eq_some_iff, exists_exists_and_eq_and]
    · intro c mem
      obtain rfl := List.mem_singleton.mp mem
      refine ⟨y, _, rfl, fun t due => ?_⟩
      obtain ⟨n, -, rfl⟩ := Option.map_eq_some_iff.mp due
      omega

/-- An errand that waits goes on if its wait is over. -/
private theorem underway_goOn {steps : List (Nat × Nat)} {x : σ} {due : Option Nat}
    (ahead : ∀ t, due = some t → now ≤ t)
    (way : ∀ t e, w.Ends start w.state t e ↔ ∃ d, due = some d ∧ w.Ends d x t e)
    (done : ∀ i ∈ steps, i.2 ≤ now) :
    Underway w start now
        (({ steps := steps } : Errands σ α).goOn now ⟨0, w, .waiting x due⟩) ∧
      Rests now (({ steps := steps } : Errands σ α).goOn now ⟨0, w, .waiting x due⟩) := by
  unfold goOn
  dsimp only
  -- The wait is over, which can only be at its very instant, or it goes on.
  split
  · next isDue =>
    obtain ⟨d, rfl, le⟩ := Timed.isDue_iff.mp isDue
    obtain rfl : d = now := Nat.le_antisymm le (ahead d rfl)
    refine underway_advance _ (fun t e => ?_) done
    rw [way]
    simp only [Option.some.injEq, exists_eq_left']
  · next isDue =>
    refine ⟨.waiting ahead way done, fun c mem => ?_⟩
    obtain rfl := List.mem_singleton.mp mem
    refine ⟨x, due, rfl, fun t ht => Nat.lt_of_not_le fun le => isDue ?_⟩
    exact Timed.isDue_iff.mpr ⟨t, ht, le⟩

/-- When a host ripens, the errand does a step if its wait is over. -/
theorem Underway.ripen (h : Underway w start now k) : Underway w start now (Host.ripen now k) := by
  cases h with
  | made begins => exact .made begins
  | waiting ahead way done => exact (underway_goOn ahead way done).1
  | ended ends done => exact .ended ends done

/-- When a host settles, the errand does a step if it has not begun or if its wait is over, and then
    it waits for longer. -/
theorem Underway.settle (h : Underway w start now k) :
    Underway w start now (Timed.settle now k) ∧ Rests now (Timed.settle now k) := by
  cases h with
  | made begins => exact underway_advance .made (by simp [begins]) nofun
  | waiting ahead way done => exact underway_goOn ahead way done
  | ended ends done => exact ⟨.ended ends done, nofun⟩

/-- Time passes until the next step is due. -/
theorem Underway.later {t : Nat} (h : Underway w start now k)
    (lasting : Host.ended? k 0 = none) (rests : Rests now k) (le : now ≤ t)
    (next : ∀ u, Timed.next? k = some u → t ≤ u) : Underway w start t k := by
  -- An errand that rests waits: it would have made its first step otherwise.
  cases h with
  | made =>
    obtain ⟨x, due, stage, -⟩ := rests _ List.mem_cons_self
    exact nomatch stage
  | ended => exact nomatch lasting
  | @waiting steps x due ahead way done =>
    refine .waiting (fun u hu => next u ?_) way fun i mem => Nat.le_trans (done i mem) le
    rw [hu]
    rfl

/-- Left alone, the errand does not end before now. -/
theorem Underway.le_of_ends {t : Nat} {e : Ending α} (h : Underway w start now k)
    (ends : w.Ends start w.state t e) : now ≤ t := by
  cases h with
  | made begins => exact begins ▸ ends.le
  | waiting ahead way =>
    obtain ⟨d, due, rest⟩ := (way t e).mp ends
    exact Nat.le_trans (ahead d due) rest.le
  | ended ends' => exact Nat.le_of_eq (ends'.unique ends).1.symm

/-- An errand that rests does not end now. -/
theorem Underway.lt_of_ends {t : Nat} {e : Ending α} (h : Underway w start now k)
    (lasting : Host.ended? k 0 = none) (rests : Rests now k)
    (ends : w.Ends start w.state t e) : now < t := by
  cases h with
  | made =>
    obtain ⟨x, due, stage, -⟩ := rests _ List.mem_cons_self
    exact nomatch stage
  | ended => exact nomatch lasting
  | waiting ahead way =>
    -- It goes on only when its wait is over, which is not now.
    obtain ⟨d, due, rest⟩ := (way t e).mp ends
    obtain ⟨x, due', stage, lt⟩ := rests _ List.mem_cons_self
    obtain ⟨rfl, rfl⟩ := Stage.waiting.inj stage
    exact Nat.lt_of_lt_of_le (lt d due) rest.le

/-- If the errand has ended, it has done so now, as it would alone. -/
theorem Underway.ends_of_ended? {x : Ended α} (h : Underway w start now k)
    (ended : Host.ended? k 0 = some x) : w.Ends start w.state now x.ending := by
  cases h with
  | made | waiting => exact nomatch ended
  | ended ends =>
    obtain rfl := Option.some.inj ended
    exact ends

/-- All steps that were done were done by now. -/
theorem Underway.steps_le (h : Underway w start now k) : ∀ i ∈ k.steps, i.2 ≤ now := by
  cases h with
  | made => exact nofun
  | waiting _ _ done | ended _ done => exact done

/-- An errand that is given up does not do anything any more. -/
theorem Underway.abort (h : Underway w start now k) : (Host.abort 0 k).calls = [] := by
  cases h <;> rfl

end Errands

end Federation
