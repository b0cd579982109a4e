/-! # Machines in time

A `Timed` machine has things that are due at certain instants.  Computation takes no time, so a
machine is moved from instant to instant: everything due at an instant happens there, and between
two such instants nothing does.  Instants are counted in milliseconds.

* `runUntil_of_stop` — a run that may stop at once changes nothing.
* `advanceTo_of_idle` — a machine in which nothing is due stays as it is.
* `meeting?_of_forall` — nothing has to be waited for that has happened everywhere. -/

namespace Federation

/-- A machine in which things happen at certain instants. -/
class Timed (κ : Type) where
  /-- Let everything happen that can happen at an instant. -/
  settle : (now : Nat) → κ → κ
  /-- The next instant at which something is due. -/
  next? : κ → Option Nat
  /-- How many instants there can still be at which something is due. -/
  load : κ → Nat

namespace Timed

variable {κ : Type}

/-- Make moves until there is none, at most as many as given. -/
def exhaust (move : κ → Option κ) : (most : Nat) → κ → κ
  | 0, k => k
  | most + 1, k =>
    match move k with
    | some k' => exhaust move most k'
    | none => k

theorem exhaust_of_none {move : κ → Option κ} {k : κ} (h : move k = none) (most : Nat) :
    exhaust move most k = k := by
  cases most <;> simp [exhaust, h]

variable [Timed κ]

/-- Move on from instant to instant until `stop` holds, but not beyond `limit`; also tell at which
    instant it came to hold. -/
def runFor (stop : κ → Bool) (limit : Nat) : (most now : Nat) → κ → κ × Option Nat
  | most, now, k =>
    if stop k then (k, some now)
    else
      match most, next? k with
      | most + 1, some t =>
        if t ≤ limit then runFor stop limit most t (settle t k) else (k, none)
      | _, _ => (k, none)

/-- Move on until `stop` holds, but not beyond `limit`. -/
def runUntil (stop : κ → Bool) (limit now : Nat) (k : κ) : κ × Option Nat :=
  runFor stop limit (load k) now k

/-- Let everything happen up to and including `limit`. -/
def advanceTo (limit : Nat) (k : κ) : κ := (runUntil (fun _ => false) limit 0 k).1

theorem runFor_of_stop {stop : κ → Bool} {k : κ} (h : stop k = true) (limit most now : Nat) :
    runFor stop limit most now k = (k, some now) := by
  unfold runFor; simp [h]

theorem runUntil_of_stop {stop : κ → Bool} {k : κ} (h : stop k = true) (limit now : Nat) :
    runUntil stop limit now k = (k, some now) :=
  runFor_of_stop h limit (load k) now

theorem advanceTo_of_idle {k : κ} (h : next? k = none) (limit : Nat) : advanceTo limit k = k := by
  unfold advanceTo runUntil runFor; simp [h]

/-! ## Several machines -/

/-- Let everything happen in several machines up to and including `limit`.  They share nothing but
    the clock. -/
def advanceAll (limit : Nat) (ks : List κ) : List κ := ks.map (advanceTo limit)

/-- The instant at which `stop` holds in all machines, if it is not beyond `limit`: the latest of the
    instants at which it comes to hold in each. -/
def meeting? (stop : κ → Bool) (limit now : Nat) : List κ → Option Nat
  | [] => some now
  | k :: ks =>
    match (runUntil stop limit now k).2, meeting? stop limit now ks with
    | some t, some u => some (max t u)
    | _, _ => none

theorem meeting?_of_forall {stop : κ → Bool} {ks : List κ} (h : ∀ k ∈ ks, stop k = true)
    (limit now : Nat) : meeting? stop limit now ks = some now := by
  induction ks with
  | nil => rfl
  | cons k ks ih =>
    have hk := h k (by simp)
    have := ih fun k' hk' => h k' (by simp [hk'])
    simp [meeting?, runUntil_of_stop hk, this]

/-! ## Instants -/

/-- What happened at certain instants, in the order of the instants. -/
def chronicle {ν : Type} (es : List (Nat × ν)) : List (Nat × ν) :=
  es.mergeSort fun a b => a.1 ≤ b.1

theorem chronicle_perm {ν : Type} (es : List (Nat × ν)) : (chronicle es).Perm es :=
  List.mergeSort_perm es _

/-- The earlier of two instants, of which either may be missing. -/
def earlier : Option Nat → Option Nat → Option Nat
  | some a, some b => some (min a b)
  | some a, none => some a
  | none, b => b

/-- The earliest of some instants. -/
def earliest (ts : List (Option Nat)) : Option Nat := ts.foldl earlier none

/-- Whether something is due at an instant. -/
def isDue (due : Option Nat) (now : Nat) : Bool := due.any (· ≤ now)

end Timed

end Federation
