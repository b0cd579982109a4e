import Federation.Call.Pool
import Federation.Proofs.Lists
import Federation.Proofs.Timed

/-!
# Calls that go alike

Two calls may work in surroundings that differ in something of which no one is to learn.  If whatever
they do keeps the surroundings alike, and they end alike, then nothing else depends on the
difference: neither which calls end, nor when, nor how.

## Key results

- `Visit.Alike`, `Work.Alike`: work that goes alike
- `Mirrors`: machines and hosts that do alike
- `Timed.Mirrors.runFor`, `Timed.Mirrors.advanceTo`, `Timed.Mirrors.meeting?`: they go on alike in
  time
- `Pool.mirrors`: pools of calls that go alike
-/

namespace Federation

variable {η σ α κ ω : Type} {R : σ → σ → Prop}

/-! ## Work -/

/-- Two pieces of work that have begun go on alike. -/
structure Visit.Alike (R : σ → σ → Prop) (v w : Visit η σ α) : Prop where
  pause : w.pause = v.pause
  finish : ∀ h {s t}, R s t → (w.finish h t).1 = (v.finish h s).1 ∧
    R (v.finish h s).2.1 (w.finish h t).2.1 ∧ (w.finish h t).2.2 = (v.finish h s).2.2
  leave : ∀ {s t}, R s t → R (v.leave s) (w.leave t)

/-- Two pieces of work go alike. -/
def Work.Alike (R : σ → σ → Prop) (v w : Work η σ α) : Prop :=
  ∀ h {s t}, R s t → (w h t).1 = (v h s).1 ∧ R (v h s).2.1 (w h t).2.1 ∧
    Visit.Alike R (v h s).2.2 (w h t).2.2

/-! ## Machines -/

namespace Timed

variable [Timed κ] {M : κ → κ → Prop} {k l : κ}

/-- Machines that are alike do alike. -/
structure Mirrors (M : κ → κ → Prop) : Prop where
  settle : ∀ (now : Nat) {k l : κ}, M k l → M (settle now k) (settle now l)
  next? : ∀ {k l : κ}, M k l → next? l = next? k
  load : ∀ {k l : κ}, M k l → load l = load k

/-- Machines that are alike stop at the same instant, and are alike then. -/
theorem Mirrors.runFor (hM : Mirrors M) {stop : κ → Bool}
    (hstop : ∀ {k l}, M k l → stop l = stop k) (limit most now : Nat) (h : M k l) :
    M (runFor stop limit most now k).1 (runFor stop limit most now l).1 ∧
      (runFor stop limit most now l).2 = (runFor stop limit most now k).2 := by
  -- Induction on the number of steps: both stop, or both go on to the same instant.
  induction most generalizing now k l with
  | zero =>
    unfold Timed.runFor
    rw [hstop h]
    split <;> exact ⟨h, rfl⟩
  | succ most ih =>
    unfold Timed.runFor
    rw [hstop h, hM.next? h]
    split
    · exact ⟨h, rfl⟩
    · split
      · next m t hm _ =>
        obtain rfl := Nat.succ.inj hm
        split
        · exact ih t (hM.settle t h)
        · exact ⟨h, rfl⟩
      · exact ⟨h, rfl⟩

/-- So it is with a run that may take as many instants as there are. -/
theorem Mirrors.runUntil (hM : Mirrors M) {stop : κ → Bool}
    (hstop : ∀ {k l}, M k l → stop l = stop k) (limit now : Nat) (h : M k l) :
    M (runUntil stop limit now k).1 (runUntil stop limit now l).1 ∧
      (runUntil stop limit now l).2 = (runUntil stop limit now k).2 := by
  unfold Timed.runUntil
  rw [hM.load h]
  exact hM.runFor hstop limit _ now h

/-- Machines that are alike are alike at any later instant. -/
theorem Mirrors.advanceTo (hM : Mirrors M) (limit : Nat) (h : M k l) :
    M (advanceTo limit k) (advanceTo limit l) := by
  let never : κ → Bool := fun _ => false
  have hnever {k l : κ} (_ : M k l) : never l = never k := rfl
  exact (hM.runUntil hnever limit 0 h).1

/-- Several machines meet at the same instant as others that are alike, one by one. -/
theorem Mirrors.meeting? (hM : Mirrors M) {stop : κ → Bool}
    (hstop : ∀ {k l}, M k l → stop l = stop k) (limit now : Nat) {ks ls : List κ}
    (h : List.Forall₂ M ks ls) : meeting? stop limit now ls = meeting? stop limit now ks := by
  induction h with
  | nil => rfl
  | cons hk _ ih =>
    unfold Timed.meeting?
    rw [(hM.runUntil hstop limit now hk).2, ih]

omit [Timed κ] in
/-- Moves that are alike are made alike. -/
theorem rel_exhaust {move : κ → Option κ} (hmove : ∀ {k l}, M k l → Option.Rel M (move k) (move l))
    (most : Nat) (h : M k l) : M (exhaust move most k) (exhaust move most l) := by
  induction most generalizing k l with
  | zero => exact h
  | succ most ih =>
    unfold exhaust
    have hrel := hmove h
    -- The two moves are known as far as they are related: both are made, or neither can be.
    generalize move k = k', move l = l' at hrel
    cases hrel with
    | none => exact h
    | some h' => exact ih h'

end Timed

/-- Hosts that are alike do alike, and so they do when they are asked for something that is alike. -/
structure Host.Mirrors [Host κ ω α] (Q : ω → ω → Prop) (M : κ → κ → Prop) : Prop
    extends Timed.Mirrors M where
  submit : ∀ (id : Nat) {q r : ω} {k l : κ}, Q q r → M k l →
    M (Host.submit id q k) (Host.submit id r l)
  ripen : ∀ (now : Nat) {k l : κ}, M k l → M (Host.ripen now k) (Host.ripen now l)
  due? : ∀ {k l : κ}, M k l → ∀ id, Host.due? l id = Host.due? k id
  abort : ∀ (id : Nat) {k l : κ}, M k l → M (Host.abort id k) (Host.abort id l)
  ended? : ∀ {k l : κ}, M k l → ∀ id, Host.ended? l id = Host.ended? k id

/-! ## Pools -/

namespace Pool

/-- Two calls have come equally far, and go on alike. -/
inductive Stage.Alike (R : σ → σ → Prop) : Stage σ α → Stage σ α → Prop
  | made {v w : Work Unit σ α} (h : Work.Alike R v w) : Alike R (.made v) (.made w)
  | waiting {v w : Visit Unit σ α} (due : Option Nat) (h : Visit.Alike R v w) :
      Alike R (.waiting v due) (.waiting w due)

structure Call.Alike (R : σ → σ → Prop) (c d : Call σ α) : Prop where
  id : d.id = c.id
  stage : Stage.Alike R c.stage d.stage

/-- The calls of two pools go on alike, and those that have ended have ended alike. -/
structure Alike (R : σ → σ → Prop) (p q : Pool σ α) : Prop where
  shared : R p.shared q.shared
  calls : List.Forall₂ (Call.Alike R) p.calls q.calls
  ended : q.ended = p.ended

variable {p q : Pool σ α} {c d : Call σ α}

/-- Calls that go alike are due at the same instant. -/
theorem Call.Alike.due? (h : Call.Alike R c d) : d.due? = c.due? := by
  obtain ⟨i, x⟩ := c
  obtain ⟨j, y⟩ := d
  obtain ⟨-, hstage⟩ := h
  cases hstage <;> rfl

/-- Calls that go alike have both begun, or neither has. -/
theorem Call.Alike.hasBegun (h : Call.Alike R c d) : d.hasBegun = c.hasBegun := by
  obtain ⟨i, x⟩ := c
  obtain ⟨j, y⟩ := d
  obtain ⟨-, hstage⟩ := h
  cases hstage <;> rfl

/-- Calls that go alike leave what they share alike when they are given up. -/
theorem Call.Alike.leave (h : Call.Alike R c d) {s t : σ} (hs : R s t) :
    R (c.leave s) (d.leave t) := by
  obtain ⟨i, x⟩ := c
  obtain ⟨j, y⟩ := d
  obtain ⟨-, hstage⟩ := h
  cases hstage with
  | made => exact hs
  | waiting _ h => exact h.leave hs

/-- Pools that are alike are alike without their calls. -/
theorem Alike.emptied (h : Alike R p q) : Alike R { p with calls := [] } { q with calls := [] } :=
  ⟨h.shared, .nil, h.ended⟩

/-- Pools that are alike stay so when calls that go alike are added. -/
theorem Alike.push (h : Alike R p q) (hc : Call.Alike R c d) :
    Alike R { p with calls := p.calls ++ [c] } { q with calls := q.calls ++ [d] } :=
  ⟨h.shared, List.rel_append h.calls (.cons hc .nil), h.ended⟩

/-- Visits that go alike end at the same instant and with the same ending, or both go on. -/
theorem Alike.goOn (h : Alike R p q) (now id : Nat) {v w : Visit Unit σ α}
    (hv : Visit.Alike R v w) (due : Option Nat) :
    Alike R (p.goOn now id v due) (q.goOn now id w due) := by
  unfold Pool.goOn
  split
  · obtain ⟨-, hshared, hending⟩ := hv.finish () h.shared
    refine ⟨hshared, h.calls, ?_⟩
    dsimp only
    rw [h.ended, hending]
  · exact h.push ⟨rfl, .waiting due hv⟩

/-- Calls that go alike have turns that go alike. -/
theorem Alike.turn (h : Alike R p q) (now : Nat) (hc : Call.Alike R c d) :
    Alike R (p.turn now c) (q.turn now d) := by
  obtain ⟨i, x⟩ := c
  obtain ⟨j, y⟩ := d
  obtain ⟨hid, hstage⟩ := hc
  obtain rfl : j = i := hid
  -- A call that waits goes on; one that has only been made is begun first.
  cases hstage with
  | waiting due hv => exact h.goOn now j hv due
  | made hw =>
    obtain ⟨-, hshared, hv⟩ := hw () h.shared
    unfold Pool.turn
    dsimp only
    rw [hv.pause]
    exact Alike.goOn (p := { p with shared := _ }) (q := { q with shared := _ })
      ⟨hshared, h.calls, h.ended⟩ now j hv _

/-- Pools of calls that go alike do alike. -/
theorem mirrors (R : σ → σ → Prop) :
    Host.Mirrors (κ := Pool σ α) (Work.Alike R) (Alike R) where
  settle now k l h :=
    List.rel_foldl (P := Alike R) (R := Call.Alike R) (fun _ _ hp _ _ hc => hp.turn now hc) h.emptied
      h.calls
  next? {k l} h := by
    show Timed.earliest (l.calls.map Call.due?) = Timed.earliest (k.calls.map Call.due?)
    rw [map_eq_of_forall₂ (h.calls.imp fun _ _ hc => ⟨hc.due?, hc⟩)]
  load h := h.calls.length_eq.symm
  submit id _ _ _ _ hq h := h.push ⟨rfl, .made hq⟩
  ripen now k l h := by
    -- Calls have their turns one after the other, each of them alike.
    refine List.rel_foldl (P := Alike R) (fun p q hp c d hc => ?_) h.emptied h.calls
    rw [hc.hasBegun]
    split
    · exact hp.turn now hc
    · exact hp.push hc
  due? {k l} h id := by
    have hfind := rel_find? (p := fun c : Call σ α => decide (c.id = id))
      (q := fun c : Call σ α => decide (c.id = id)) (fun hc => by rw [hc.id]) h.calls
    show (l.calls.find? _).bind Call.due? = (k.calls.find? _).bind Call.due?
    generalize k.calls.find? _ = c, l.calls.find? _ = d at hfind ⊢
    cases hfind with
    | none => rfl
    | some hc => exact hc.due?
  abort id k l h := by
    -- Calls that are alike have the same numbers, so the same ones are given up.
    have hfilter (p : Nat → Bool) : List.Forall₂ (Call.Alike R) (k.calls.filter fun c => p c.id)
        (l.calls.filter fun c => p c.id) :=
      List.rel_filter (fun _ d hc => iff_of_eq (congrArg (fun i => p i = true) hc.id.symm)) h.calls
    refine ⟨?_, hfilter fun i => i ≠ id, h.ended⟩
    exact List.rel_foldl (P := R) (fun _ _ hs _ _ hc => hc.leave hs) h.shared
      (hfilter fun i => i = id)
  ended? {k l} h id := by
    show Federation.ended? l.ended id = Federation.ended? k.ended id
    rw [h.ended]

end Pool

end Federation
