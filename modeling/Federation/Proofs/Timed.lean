import Federation.Timed
import Mathlib.Data.List.Basic
import Mathlib.Order.Basic

/-!
# Runs of machines in time

A machine moves from one instant at which something is due to the next.  If each of these moves uses
up some of its load, and something is due as long as it has not come to a stop, then it comes to a
stop, and the limit up to which one waits for it does not matter as long as it is late enough.

## Key results

- `exhaust_spec`: moves that lower a weight come to an end
- `Steady.runUntil_eq`: a run comes to a stop, at an instant that depends on the machine only
- `Steady.advanceTo_of_moves`: a machine that is moved on passes through every state on its way
- `Steady.advanceTo_moves`: it is moved on until nothing is due any more
- `Steady.advanceTo_induction`, `Steady.runUntil_induction`: what a machine keeps from instant to
  instant
- `le_meeting?`, `meeting?_le`: several machines meet within the time that one waits
- `meeting?_mono`: where several machines meet does not depend on how long one is ready to wait
- `Steady.meeting?_eq`: several machines come to a stop one after the other
-/

namespace Federation.Timed

/-! ## Instants -/

/-- The earlier of two instants is one of them. -/
theorem earlier_eq_some {a b : Option Nat} {t : Nat} (h : earlier a b = some t) :
    a = some t ∨ b = some t := by
  cases a with
  | none => exact .inr h
  | some a =>
    cases b with
    | none => exact .inl h
    | some b =>
      simp only [earlier, Option.some.injEq] at h ⊢
      omega

/-- The earlier of two instants is not later than either. -/
theorem earlier_le {a b : Option Nat} {t : Nat} (h : a = some t ∨ b = some t) :
    ∃ u, earlier a b = some u ∧ u ≤ t := by
  cases a with
  | none =>
    have hb : b = some t := by simpa using h
    exact ⟨t, hb, Nat.le_refl _⟩
  | some a =>
    cases b with
    | none =>
      have ha : a = t := by simpa using h
      exact ⟨a, rfl, Nat.le_of_eq ha⟩
    | some b =>
      simp only [earlier, Option.some.injEq] at h ⊢
      exact ⟨min a b, rfl, by omega⟩

/-- The earliest of some instants, along with one that was found before, is one of them. -/
private theorem foldl_earlier_eq_some {ts : List (Option Nat)} {a : Option Nat} {t : Nat}
    (h : ts.foldl earlier a = some t) : a = some t ∨ some t ∈ ts := by
  induction ts generalizing a with
  | nil => exact .inl h
  | cons b ts ih =>
    rcases ih h with h | h
    · rcases earlier_eq_some h with h | h
      · exact .inl h
      · exact .inr (h ▸ List.mem_cons_self)
    · exact .inr (List.mem_cons_of_mem _ h)

/-- The earliest of some instants is one of them. -/
theorem mem_of_earliest {ts : List (Option Nat)} {t : Nat} (h : earliest ts = some t) :
    some t ∈ ts := by
  rcases foldl_earlier_eq_some h with h | h
  · exact nomatch h
  · exact h

/-- The earliest of some instants, along with one that was found before, is not later than any of
    them. -/
private theorem foldl_earlier_le {ts : List (Option Nat)} {a : Option Nat} {t : Nat}
    (h : a = some t ∨ some t ∈ ts) : ∃ u, ts.foldl earlier a = some u ∧ u ≤ t := by
  induction ts generalizing a t with
  | nil => exact ⟨t, by simpa using h, Nat.le_refl _⟩
  | cons b ts ih =>
    have hab : (a = some t ∨ b = some t) ∨ some t ∈ ts := by
      rcases h with h | h
      · exact .inl (.inl h)
      · rcases List.mem_cons.mp h with h | h
        · exact .inl (.inr h.symm)
        · exact .inr h
    -- hts | Either the instant is one of the first two, of which the earlier is carried on, or it
    -- comes later in the list.
    rcases hab with hab | hts
    · obtain ⟨u, hu, hut⟩ := earlier_le hab
      obtain ⟨v, hv, hvu⟩ := ih (.inl hu)
      exact ⟨v, hv, by omega⟩
    · exact ih (.inr hts)

/-- The earliest of some instants is not later than any of them. -/
theorem earliest_le {ts : List (Option Nat)} {t : Nat} (h : some t ∈ ts) :
    ∃ u, earliest ts = some u ∧ u ≤ t :=
  foldl_earlier_le (.inr h)

/-- Something is due from its instant on. -/
theorem isDue_iff {due : Option Nat} {now : Nat} :
    isDue due now = true ↔ ∃ t, due = some t ∧ t ≤ now := by
  cases due <;> simp [isDue]

/-! ## Exhaustion -/

/-- Moves that keep a property and lower a weight are made until there is none. -/
theorem exhaust_spec {κ : Type} {move : κ → Option κ} {P : κ → Prop} (weight : κ → Nat)
    (step : ∀ k k', P k → move k = some k' → P k' ∧ weight k' < weight k) (most : Nat) {k : κ}
    (hk : P k) (hweight : weight k ≤ most) :
    P (exhaust move most k) ∧ move (exhaust move most k) = none := by
  induction most generalizing k with
  | zero =>
    refine ⟨hk, ?_⟩
    show move k = none
    -- The weight has run out, so a move that lowers it is impossible.
    cases hm : move k with
    | none => rfl
    | some k' =>
      have hless := (step k k' hk hm).2
      omega
  | succ most ih =>
    unfold exhaust
    cases hm : move k with
    | none => exact ⟨hk, hm⟩
    | some k' =>
      obtain ⟨hk', hless⟩ := step k k' hk hm
      exact ih hk' (by omega)

/-- What every move keeps is kept by any number of moves. -/
theorem exhaust_induction {κ : Type} {move : κ → Option κ} {P : κ → Prop}
    (step : ∀ k k', P k → move k = some k' → P k') (most : Nat) {k : κ} (hk : P k) :
    P (exhaust move most k) := by
  induction most generalizing k with
  | zero => exact hk
  | succ most ih =>
    unfold exhaust
    cases hm : move k with
    | none => exact hk
    | some k' => exact ih (step k k' hk hm)

/-! ## Moves -/

variable {κ : Type} [Timed κ]

/-- What a machine keeps at every instant, it keeps in time. -/
theorem runFor_induction {P : κ → Prop} (step : ∀ t k, P k → P (settle t k)) (stop : κ → Bool)
    (limit most now : Nat) {k : κ} (hk : P k) : P (runFor stop limit most now k).1 := by
  -- Induction on the number of instants that are left, along the recursion of the run.
  induction most generalizing now k with
  | zero =>
    unfold runFor
    split <;> exact hk
  | succ most ih =>
    unfold runFor
    split
    · exact hk
    · split
      · next m t hm hn =>
        split
        · obtain rfl := Nat.succ.inj hm
          exact ih t (step t k hk)
        · exact hk
      · exact hk

/-- A run that does not stop goes on to the next instant, if that is within its limit. -/
theorem runFor_step {stop : κ → Bool} {k : κ} {t limit : Nat} (hstop : stop k = false)
    (hn : next? k = some t) (ht : t ≤ limit) (most now : Nat) :
    runFor stop limit (most + 1) now k = runFor stop limit most t (settle t k) := by
  conv_lhs => unfold runFor
  simp only [hstop, hn, if_pos ht, Bool.false_eq_true, if_false]

/-- A run ends without a stop if the next instant is beyond its limit. -/
private theorem runFor_late {stop : κ → Bool} {k : κ} {limit : Nat} (hstop : stop k = false)
    (hn : ∀ t, next? k = some t → limit < t) (most now : Nat) :
    runFor stop limit most now k = (k, none) := by
  unfold runFor
  simp only [hstop, Bool.false_eq_true, if_false]
  split
  · next t hnext =>
    have hlt := hn t hnext
    rw [if_neg (by omega)]
  · rfl

/-- A run that has no instants left ends without a stop. -/
private theorem runFor_zero {stop : κ → Bool} {k : κ} (hstop : stop k = false) (limit now : Nat) :
    runFor stop limit 0 now k = (k, none) := by
  unfold runFor
  simp only [hstop, Bool.false_eq_true, if_false]

/-- A run that has come to a stop comes to the same stop if it may go on for longer. -/
private theorem runFor_mono {stop : κ → Bool} {k k' : κ} {limit limit' most now t : Nat}
    (h : runFor stop limit most now k = (k', some t)) (hle : limit ≤ limit') :
    runFor stop limit' most now k = (k', some t) := by
  induction most generalizing now k with
  | zero =>
    cases hstop : stop k with
    | true => rw [runFor_of_stop hstop] at h ⊢; exact h
    | false =>
      rw [runFor_zero hstop] at h
      exact nomatch (Prod.mk.inj h).2
  | succ most ih =>
    cases hstop : stop k with
    | true => rw [runFor_of_stop hstop] at h ⊢; exact h
    | false =>
      by_cases hn : ∃ u, next? k = some u ∧ u ≤ limit
      · obtain ⟨u, hn, hu⟩ := hn
        rw [runFor_step hstop hn hu] at h
        rw [runFor_step hstop hn (by omega)]
        exact ih h
      -- What is due next is due too late, so the run has not come to a stop.
      · have hlate : ∀ u, next? k = some u → limit < u := fun u hu =>
          Nat.lt_of_not_le fun hle => hn ⟨u, hu, hle⟩
        rw [runFor_late hstop hlate] at h
        exact nomatch (Prod.mk.inj h).2

/-- A run comes to a stop within its limit. -/
private theorem runFor_le {stop : κ → Bool} {limit most now t : Nat} {k k' : κ}
    (h : runFor stop limit most now k = (k', some t)) (hnow : now ≤ limit) : t ≤ limit := by
  induction most generalizing now k with
  | zero =>
    cases hstop : stop k with
    | true =>
      rw [runFor_of_stop hstop] at h
      exact Option.some.inj (Prod.mk.inj h).2 ▸ hnow
    | false =>
      rw [runFor_zero hstop] at h
      exact nomatch (Prod.mk.inj h).2
  | succ most ih =>
    cases hstop : stop k with
    | true =>
      rw [runFor_of_stop hstop] at h
      exact Option.some.inj (Prod.mk.inj h).2 ▸ hnow
    | false =>
      -- Only if the next instant is within the limit does the run go on.
      by_cases hn : ∃ u, next? k = some u ∧ u ≤ limit
      · obtain ⟨u, hn, hu⟩ := hn
        rw [runFor_step hstop hn hu] at h
        exact ih h hu
      · have hlate : ∀ u, next? k = some u → limit < u := fun u hu =>
          Nat.lt_of_not_le fun hle => hn ⟨u, hu, hle⟩
        rw [runFor_late hstop hlate] at h
        exact nomatch (Prod.mk.inj h).2

/-- Several machines meet within the limit. -/
theorem meeting?_le {stop : κ → Bool} {ks : List κ} {limit now t : Nat}
    (h : meeting? stop limit now ks = some t) (hnow : now ≤ limit) : t ≤ limit := by
  induction ks generalizing t with
  | nil => exact Option.some.inj h ▸ hnow
  | cons k ks ih =>
    unfold meeting? at h
    split at h
    · next u v hu hv =>
      obtain rfl := Option.some.inj h
      exact Nat.max_le.mpr ⟨runFor_le (Prod.ext rfl hu) hnow, ih hv⟩
    · exact nomatch h

/-- Several machines do not meet before one begins to wait. -/
theorem le_meeting? {stop : κ → Bool} {ks : List κ} {limit now t : Nat}
    (h : meeting? stop limit now ks = some t) : now ≤ t := by
  induction ks generalizing t with
  | nil => exact Nat.le_of_eq (Option.some.inj h)
  | cons k ks ih =>
    unfold meeting? at h
    split at h
    · next u v hu hv =>
      obtain rfl := Option.some.inj h
      exact Nat.le_trans (ih hv) (Nat.le_max_right u v)
    · exact nomatch h

/-- Several machines meet at the same instant if one is ready to wait for longer. -/
theorem meeting?_mono {stop : κ → Bool} {ks : List κ} {limit limit' now t : Nat}
    (h : meeting? stop limit now ks = some t) (hle : limit ≤ limit') :
    meeting? stop limit' now ks = some t := by
  -- Induction on the machines: each of them stops where it did, since its run did not come to the
  -- limit.
  induction ks generalizing t with
  | nil => exact h
  | cons k ks ih =>
    unfold meeting? at h ⊢
    cases hrun : runUntil stop limit now k with
    | mk k' u? =>
      rw [hrun] at h
      cases u? with
      | none => cases h
      | some u =>
        cases hmeet : meeting? stop limit now ks with
        | none => rw [hmeet] at h; cases h
        | some v =>
          have hrun' : runUntil stop limit' now k = (k', some u) := runFor_mono hrun hle
          rw [hmeet] at h
          rw [hrun', ih hmeet]
          exact h

/-- A machine gets from an instant to another by moves to the instants at which something is due. -/
inductive Moves : Nat → κ → Nat → κ → Prop
  | refl (now : Nat) (k : κ) : Moves now k now k
  | step {now t u : Nat} {k k' : κ} (next : next? k = some t) (rest : Moves t (settle t k) u k') :
      Moves now k u k'

/-- What holds of a machine that has settled at an instant, if it goes on from there as it
    should. -/
structure Steady (settled : Nat → κ → Prop) : Prop where
  next : ∀ {now t : Nat} {k : κ}, settled now k → next? k = some t →
    now < t ∧ settled t (settle t k) ∧ load (settle t k) < load k

namespace Steady

variable {settled : Nat → κ → Prop} {now t u : Nat} {k k' : κ}

/-- Moves end in a settled state, and not earlier than they began. -/
theorem moves (h : Steady settled) (hk : settled now k) (hm : Moves now k u k') :
    settled u k' ∧ now ≤ u := by
  induction hm with
  | refl => exact ⟨hk, Nat.le_refl _⟩
  | step next _ ih =>
    obtain ⟨hlt, hs, -⟩ := h.next hk next
    obtain ⟨hs', hle⟩ := ih hs
    exact ⟨hs', by omega⟩

/-- A run comes to a stop, if something is due as long as it has not. -/
private theorem runFor_eq (h : Steady settled) {stop : κ → Bool}
    (due : ∀ now k, settled now k → stop k = false → ∃ t, next? k = some t) (most : Nat)
    (hk : settled now k) (hload : load k ≤ most) :
    ∃ u k', Moves now k u k' ∧ stop k' = true ∧
      ∀ limit, u ≤ limit → runFor stop limit most now k = (k', some u) := by
  -- Induction on the fuel, of which there is at least as much as there is load.
  induction most generalizing now k with
  | zero =>
    cases hstop : stop k with
    | true => exact ⟨now, k, .refl now k, hstop, fun _ _ => runFor_of_stop hstop ..⟩
    | false =>
      obtain ⟨t, ht⟩ := due now k hk hstop
      -- What is due would lower a load that is zero.
      have hless := (h.next hk ht).2.2
      omega
  | succ most ih =>
    cases hstop : stop k with
    | true => exact ⟨now, k, .refl now k, hstop, fun _ _ => runFor_of_stop hstop ..⟩
    | false =>
      obtain ⟨t, ht⟩ := due now k hk hstop
      obtain ⟨hlt, hs, hless⟩ := h.next hk ht
      obtain ⟨u, k', hm, hk', hrun⟩ := ih hs (by omega)
      have htu : t ≤ u := (h.moves hs hm).2
      refine ⟨u, k', .step ht hm, hk', fun limit hl => ?_⟩
      rw [runFor_step hstop ht (by omega)]
      exact hrun limit hl

/-- A machine in which something is due as long as it has not come to a stop does come to a stop, at
    an instant that does not depend on how long one waits. -/
theorem runUntil_eq (h : Steady settled) {stop : κ → Bool}
    (due : ∀ now k, settled now k → stop k = false → ∃ t, next? k = some t)
    (hk : settled now k) :
    ∃ u k', Moves now k u k' ∧ stop k' = true ∧
      ∀ limit, u ≤ limit → runUntil stop limit now k = (k', some u) :=
  h.runFor_eq due (load k) hk (Nat.le_refl _)

/-- A run makes moves until it comes to a stop or has made all that are due. -/
private theorem runFor_moves (h : Steady settled) (stop : κ → Bool) {limit : Nat} (most m : Nat)
    (hk : settled now k) (hload : load k ≤ most) (hnow : now ≤ limit) :
    ∃ v, Moves now k v (runFor stop limit most m k).1 ∧ v ≤ limit ∧
      (∀ u, m = now → (runFor stop limit most m k).2 = some u → u = v) ∧
      ((runFor stop limit most m k).2 = none →
        ∀ t, next? (runFor stop limit most m k).1 = some t → limit < t) := by
  induction most generalizing now k m with
  | zero =>
    cases hstop : stop k with
    | true =>
      rw [runFor_of_stop hstop]
      exact ⟨now, .refl now k, hnow, fun u hm hu => hm ▸ (Option.some.inj hu).symm, nofun⟩
    | false =>
      rw [runFor_zero hstop]
      refine ⟨now, .refl now k, hnow, nofun, fun _ t ht => ?_⟩
      have hless := (h.next hk ht).2.2
      omega
  | succ most ih =>
    cases hstop : stop k with
    | true =>
      rw [runFor_of_stop hstop]
      exact ⟨now, .refl now k, hnow, fun u hm hu => hm ▸ (Option.some.inj hu).symm, nofun⟩
    | false =>
      by_cases hn : ∃ t, next? k = some t ∧ t ≤ limit
      · obtain ⟨t, hn, ht⟩ := hn
        obtain ⟨-, hs, hless⟩ := h.next hk hn
        obtain ⟨v, hm, hv, hclock, hlast⟩ := ih t hs (by omega) ht
        rw [runFor_step hstop hn ht]
        exact ⟨v, .step hn hm, hv, fun u _ => hclock u rfl, hlast⟩
      · have hlate : ∀ t, next? k = some t → limit < t := fun t ht =>
          Nat.lt_of_not_le fun hle => hn ⟨t, ht, hle⟩
        -- Nothing is due before the limit, so the run ends here.
        rw [runFor_late hstop hlate]
        exact ⟨now, .refl now k, hnow, nofun, fun _ => hlate⟩

/-- A machine that runs until it is to stop makes moves up to that instant, or all that are due
    within the limit. -/
theorem runUntil_moves (h : Steady settled) (stop : κ → Bool) {limit : Nat} (hk : settled now k)
    (hnow : now ≤ limit) :
    ∃ v, Moves now k v (runUntil stop limit now k).1 ∧ v ≤ limit ∧
      (∀ u, (runUntil stop limit now k).2 = some u → u = v) ∧
      ((runUntil stop limit now k).2 = none →
        ∀ t, next? (runUntil stop limit now k).1 = some t → limit < t) := by
  obtain ⟨v, hm, hv, hclock, hlast⟩ := h.runFor_moves stop (load k) now hk (Nat.le_refl _) hnow
  exact ⟨v, hm, hv, fun u => hclock u rfl, hlast⟩

/-- Without a stop, all moves are made that are due. -/
private theorem runFor_false (limit most m : Nat) (k : κ) :
    (runFor (fun _ => false) limit most m k).2 = none := by
  induction most generalizing m k with
  | zero => rw [runFor_zero rfl]
  | succ most ih =>
    unfold runFor
    rw [if_neg Bool.false_ne_true]
    split
    · next most' t hmost _ =>
      obtain rfl := Nat.succ.inj hmost
      split
      · exact ih t _
      · rfl
    · rfl

/-- A machine that is moved on to an instant makes all moves that are due until then. -/
theorem advanceTo_moves (h : Steady settled) {limit : Nat} (hk : settled now k)
    (hnow : now ≤ limit) :
    ∃ v, Moves now k v (advanceTo limit k) ∧ v ≤ limit ∧
      ∀ t, next? (advanceTo limit k) = some t → limit < t := by
  obtain ⟨v, hm, hv, -, hlast⟩ :=
    h.runFor_moves (fun _ => false) (load k) 0 hk (Nat.le_refl _) hnow
  exact ⟨v, hm, hv, hlast (runFor_false ..)⟩

/-- A run without a stop makes one more move after those that were made. -/
private theorem runFor_of_moves (h : Steady settled) {limit : Nat} (most m : Nat)
    (hk : settled now k) (hload : load k ≤ most) (hm : Moves now k u k') (hu : u ≤ limit) :
    ∃ v, Moves u k' v (runFor (fun _ => false) limit most m k).1 ∧ v ≤ limit := by
  -- Induction on the moves: each of them is also the next move of the run.
  induction hm generalizing most m with
  | refl =>
    obtain ⟨v, hv, hle, -⟩ := h.runFor_moves (fun _ => false) most m hk hload hu
    exact ⟨v, hv, hle⟩
  | @step now t u k k' next rest ih =>
    obtain ⟨-, hs, hless⟩ := h.next hk next
    have htu : t ≤ u := (h.moves hs rest).2
    cases most with
    | zero => omega
    | succ most =>
      rw [runFor_step rfl next (by omega)]
      exact ih most t hs (by omega) hu

/-- A machine that is moved on to an instant passes through every state on its way. -/
theorem advanceTo_of_moves (h : Steady settled) {limit : Nat} (hk : settled now k)
    (hm : Moves now k u k') (hu : u ≤ limit) :
    ∃ v, Moves u k' v (advanceTo limit k) ∧ v ≤ limit :=
  h.runFor_of_moves (load k) 0 hk (Nat.le_refl _) hm hu

/-- A machine that is moved on passes through the state to which it is moved on in less time. -/
theorem advanceTo_of_le (h : Steady settled) {limit limit' : Nat} (hk : settled now k)
    (hnow : now ≤ limit) (hle : limit ≤ limit') :
    ∃ u v, Moves u (advanceTo limit k) v (advanceTo limit' k) := by
  obtain ⟨u, hm, hu, -⟩ := h.advanceTo_moves hk hnow
  obtain ⟨v, hm', -⟩ := h.advanceTo_of_moves hk hm (Nat.le_trans hu hle)
  exact ⟨u, v, hm'⟩

/-- Machines that come to a stop are waited for until the last of them has. -/
theorem meeting?_eq (h : Steady settled) {stop : κ → Bool}
    (due : ∀ now k, settled now k → stop k = false → ∃ t, next? k = some t) {ks : List κ}
    (hks : ∀ k ∈ ks, settled now k) :
    ∃ t, now ≤ t ∧ (∀ limit, t ≤ limit → meeting? stop limit now ks = some t) ∧
      ∀ k ∈ ks, ∃ u k', Moves now k u k' ∧ stop k' = true ∧ u ≤ t := by
  induction ks with
  | nil => exact ⟨now, Nat.le_refl now, fun _ _ => rfl, nofun⟩
  | cons k ks ih =>
    have hk := hks k List.mem_cons_self
    obtain ⟨u, k', hm, hstop, hrun⟩ := h.runUntil_eq due hk
    obtain ⟨t, hnow, hmeet, hrest⟩ := ih fun l hl => hks l (List.mem_cons_of_mem k hl)
    -- All have come to a stop when the last of them has.
    refine ⟨max u t, by omega, fun limit hl => ?_, fun l hl => ?_⟩
    · simp only [meeting?, hrun limit (by omega), hmeet limit (by omega)]
    · rcases List.mem_cons.mp hl with rfl | hl
      · exact ⟨u, k', hm, hstop, Nat.le_max_left u t⟩
      · obtain ⟨v, l', hv, hstop', hle⟩ := hrest l hl
        exact ⟨v, l', hv, hstop', by omega⟩

/-! ## What holds at every instant -/

section

variable {P : Nat → κ → Prop} {limit : Nat}

/-- What a machine keeps while it waits for what is due next, and when it settles, it keeps from move
    to move. -/
theorem moves_induction (h : Steady settled)
    (wait : ∀ {now t k}, settled now k → P now k → now ≤ t → (∀ u, next? k = some u → t ≤ u) → P t k)
    (settles : ∀ {now k}, P now k → P now (settle now k)) (hk : settled now k) (hP : P now k)
    (hm : Moves now k u k') : P u k' := by
  induction hm with
  | refl => exact hP
  | step next _ ih =>
    obtain ⟨hlt, hs, -⟩ := h.next hk next
    refine ih hs (settles (wait hk hP (Nat.le_of_lt hlt) fun v hv => ?_))
    exact Nat.le_of_eq (Option.some.inj (next.symm.trans hv))

/-- What holds of a settled machine, what waiting keeps and what settling keeps, holds at the
    instant to which the machine is advanced. -/
theorem advanceTo_induction (h : Steady settled)
    (wait : ∀ {now t k}, settled now k → P now k → now ≤ t → (∀ u, next? k = some u → t ≤ u) → P t k)
    (settles : ∀ {now k}, P now k → P now (settle now k)) (hk : settled now k) (hP : P now k)
    (hnow : now ≤ limit) : P limit (advanceTo limit k) := by
  obtain ⟨v, hm, hv, hlast⟩ := h.advanceTo_moves hk hnow
  exact wait (h.moves hk hm).1 (h.moves_induction wait settles hk hP hm) hv fun u hu =>
    Nat.le_of_lt (hlast u hu)

/-- What holds of a settled machine, what waiting keeps and what settling keeps, holds where a run
    stops, or at its limit if it does not. -/
theorem runUntil_induction (h : Steady settled) (stop : κ → Bool)
    (wait : ∀ {now t k}, settled now k → P now k → now ≤ t → (∀ u, next? k = some u → t ≤ u) → P t k)
    (settles : ∀ {now k}, P now k → P now (settle now k)) (hk : settled now k) (hP : P now k)
    (hnow : now ≤ limit) :
    P ((runUntil stop limit now k).2.getD limit) (runUntil stop limit now k).1 := by
  obtain ⟨v, hm, hv, hclock, hlast⟩ := h.runUntil_moves stop hk hnow
  have hP' := h.moves_induction wait settles hk hP hm
  cases hr : (runUntil stop limit now k).2 with
  | some u =>
    obtain rfl := hclock u hr
    exact hP'
  -- The run has not come to a stop, so time passes up to the limit.
  | none => exact wait (h.moves hk hm).1 hP' hv fun u hu => Nat.le_of_lt (hlast hr u hu)

end

end Steady

end Federation.Timed
