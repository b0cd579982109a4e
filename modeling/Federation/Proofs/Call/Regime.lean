import Federation.Proofs.Call.Pool

/-!
# Regimes

Calls share their surroundings, so what holds of these depends on what all calls do.  A `Regime`
says what is to hold of the surroundings and of the ends of calls that were noted, and what calls
may do about it: when they begin, when they end, and when they are given up.  As long as only such
calls are made, it holds whatever the host does.

## Key results

- `Under.submit`, `Under.abort`, `Under.ripen`, `Under.settle`: a pool stays under a regime
- `Under.transfer`: a pool comes under another regime before a call is made that only this one grants
-/

namespace Federation

/-- What holds of surroundings, and what calls may do about it. -/
structure Regime (η σ α : Type) where
  /-- What holds of the surroundings and the calls that have ended. -/
  holds : σ → List (Ended α) → Prop
  /-- The work that a call may begin. -/
  may : Nat → Work η σ α → Prop
  /-- How a call may go on that has begun. -/
  going : Nat → Visit η σ α → Prop
  begins : ∀ {id : Nat} {work : Work η σ α} {s : σ} {es : List (Ended α)} (h : η), may id work →
    holds s es → holds (work h s).2.1 es ∧ going id (work h s).2.2
  finishes : ∀ {id : Nat} {visit : Visit η σ α} {s : σ} {es : List (Ended α)} (h : η) (now : Nat),
    going id visit → holds s es → ended? es id = none →
    holds (visit.finish h s).2.1 (es ++ [⟨id, now, (visit.finish h s).2.2⟩])
  leaves : ∀ {id : Nat} {visit : Visit η σ α} {s : σ} {es : List (Ended α)}, going id visit →
    holds s es → holds (visit.leave s) es
  /-- A call may end without having done its work. -/
  fails : ∀ {id : Nat} {s : σ} {es : List (Ended α)} (now : Nat) (f : Fault), holds s es →
    ended? es id = none → holds s (es ++ [⟨id, now, .returned (.error f)⟩])

/-- A regime that grants every call but one what another regime grants it, and that holds of
    surroundings if the other one does and the one call has not ended. -/
structure Regime.Extends {η σ α : Type} (n : Nat) (s : σ) (R R' : Regime η σ α) : Prop where
  may : ∀ i work, i ≠ n → R.may i work → R'.may i work
  going : ∀ i visit, i ≠ n → R.going i visit → R'.going i visit
  holds : ∀ es, ended? es n = none → R.holds s es → R'.holds s es

/-- The regime under which calls may do anything. -/
def Regime.any (η σ α : Type) : Regime η σ α where
  holds _ _ := True
  may _ _ := True
  going _ _ := True
  begins _ _ _ := ⟨trivial, trivial⟩
  finishes _ _ _ _ _ := trivial
  leaves _ _ := trivial
  fails _ _ _ _ := trivial

/-- The end of a call does not tell of another one. -/
theorem ended?_concat_of_ne {α : Type} {es : List (Ended α)} {e : Ended α} {i : Nat}
    (h : i ≠ e.id) : ended? (es ++ [e]) i = ended? es i := by
  have hne : ended? [e] i = none := ended?_eq_none_iff.mpr (by simpa using h)
  rw [ended?_append, hne, Option.or_none]

/-- The end of a call is told if the call had not ended before. -/
theorem ended?_concat_self {α : Type} {es : List (Ended α)} {e : Ended α}
    (h : ended? es e.id = none) : ended? (es ++ [e]) e.id = some e := by
  rw [ended?_append, h, Option.none_or]
  exact List.find?_cons_of_pos (decide_eq_true rfl)

namespace Pool

variable {σ α : Type} {R R' : Regime Unit σ α} {p : Pool σ α}

/-- A call obeys a regime. -/
def Call.Obeys (R : Regime Unit σ α) (c : Call σ α) : Prop :=
  match c.stage with
  | .made work => R.may c.id work
  | .waiting visit _ => R.going c.id visit

/-- The calls of a pool obey a regime, and it holds. -/
structure Under (R : Regime Unit σ α) (p : Pool σ α) : Prop where
  sound : p.IsSound
  holds : R.holds p.shared p.ended
  obeys : ∀ c ∈ p.calls, c.Obeys R

/-- What a turn of a call does under a regime: the regime holds, and the call obeys it if it goes
    on. -/
structure Governed (R : Regime Unit σ α) (c : Call σ α) (q q' : Pool σ α) : Prop where
  holds : R.holds q'.shared q'.ended
  cases :
    (∃ c' : Call σ α, c'.id = c.id ∧ c'.Obeys R ∧ q'.calls = q.calls ++ [c'] ∧
      q'.ended = q.ended) ∨
    ∃ e : Ended α, e.id = c.id ∧ q'.calls = q.calls ∧ q'.ended = q.ended ++ [e]

/-- A visit that goes on under a regime keeps it. -/
theorem governed_goOn {id : Nat} {visit : Visit Unit σ α} (now : Nat) (due : Option Nat)
    (c : Call σ α) (hc : c.id = id) {q : Pool σ α} (hgoing : R.going id visit)
    (hq : R.holds q.shared q.ended) (hopen : Federation.ended? q.ended id = none) :
    Governed R c q (q.goOn now id visit due) := by
  unfold goOn
  split
  · exact ⟨R.finishes () now hgoing hq hopen, .inr ⟨_, hc.symm, rfl, rfl⟩⟩
  · exact ⟨hq, .inl ⟨⟨id, .waiting visit due⟩, hc.symm, hgoing, rfl, rfl⟩⟩

/-- The turn of a call that obeys a regime keeps it. -/
theorem governed_turn (now : Nat) {c : Call σ α} {q : Pool σ α} (hc : c.Obeys R)
    (hq : R.holds q.shared q.ended) (hopen : Federation.ended? q.ended c.id = none) :
    Governed R c q (q.turn now c) := by
  unfold turn
  unfold Call.Obeys at hc
  split
  · next work hs =>
    rw [hs] at hc
    -- A call that begins may count on the regime, and from then on it is one that goes on.
    obtain ⟨hholds, hgoing⟩ := R.begins () hc hq
    have h := governed_goOn now ((work () q.shared).2.2.pause.map (now + ·)) c rfl
      (q := { q with shared := (work () q.shared).2.1 }) hgoing hholds hopen
    exact ⟨h.holds, h.cases⟩
  · next visit due hs =>
    rw [hs] at hc
    exact governed_goOn now due c rfl hc hq hopen

/-- The regime holds after some calls have had their turns one after the other. -/
theorem governed_foldl {step : Pool σ α → Call σ α → Pool σ α} {cs : List (Call σ α)}
    (hstep : ∀ q, ∀ c ∈ cs, R.holds q.shared q.ended → Federation.ended? q.ended c.id = none →
      Governed R c q (step q c))
    {q : Pool σ α} (hq : R.holds q.shared q.ended) (hcalls : ∀ c ∈ q.calls, c.Obeys R)
    (hnodup : (cs.map Call.id).Nodup)
    (hopen : ∀ c ∈ cs, Federation.ended? q.ended c.id = none) :
    R.holds (cs.foldl step q).shared (cs.foldl step q).ended ∧
      ∀ c ∈ (cs.foldl step q).calls, c.Obeys R := by
  -- Induction on the calls whose turn is yet to come; none of them has ended.
  induction cs generalizing q with
  | nil => exact ⟨hq, hcalls⟩
  | cons c cs ih =>
    obtain ⟨hc, hcs⟩ := List.nodup_cons.mp hnodup
    obtain ⟨hholds, hcases⟩ := hstep q c List.mem_cons_self hq (hopen c List.mem_cons_self)
    have hstep' : ∀ q, ∀ d ∈ cs, _ := fun q d hd => hstep q d (List.mem_cons_of_mem c hd)
    have hopen' : ∀ d ∈ cs, Federation.ended? q.ended d.id = none := fun d hd =>
      hopen d (List.mem_cons_of_mem c hd)
    rw [List.foldl_cons]
    rcases hcases with ⟨c', -, hc', hcalls', hended⟩ | ⟨e, hid, hcalls', hended⟩
    · refine ih hstep' hholds (fun d hd => ?_) hcs fun d hd => hended ▸ hopen' d hd
      rw [hcalls', List.mem_append, List.mem_singleton] at hd
      rcases hd with hd | rfl
      · exact hcalls d hd
      · exact hc'
    · refine ih hstep' hholds (fun d hd => hcalls d (hcalls' ▸ hd)) hcs fun d hd => ?_
      -- The call that has ended is not one of those whose turn is yet to come.
      have hne : d.id ≠ e.id := fun he => hc (hid ▸ he ▸ List.mem_map_of_mem hd)
      rw [hended, ended?_concat_of_ne hne]
      exact hopen' d hd

/-- A call that is in progress has not ended. -/
theorem Under.open (h : p.Under R) {c : Call σ α} (hc : c ∈ p.calls) :
    Federation.ended? p.ended c.id = none :=
  h.sound.areOpen.2 c.id (List.mem_map_of_mem hc)

/-- A pool that settles stays under its regime. -/
theorem Under.settle (h : p.Under R) (now : Nat) : (p.settle now).Under R := by
  obtain ⟨hholds, hobeys⟩ := governed_foldl (q := { p with calls := [] })
    (fun q c hc hq hopen => governed_turn now (h.obeys c hc) hq hopen) h.holds nofun
    h.sound.areOpen.1 fun c hc => h.open hc
  exact ⟨(LawfulHost.settle (κ := Pool σ α) now h.sound).1, hholds, hobeys⟩

/-- A pool stays under its regime when waits end. -/
theorem Under.ripen (h : p.Under R) (now : Nat) : (p.ripen now).Under R := by
  have hstep : ∀ q : Pool σ α, ∀ c ∈ p.calls, R.holds q.shared q.ended →
      Federation.ended? q.ended c.id = none →
      Governed R c q (if c.hasBegun then q.turn now c else { q with calls := q.calls ++ [c] }) := by
    intro q c hc hq hopen
    split
    · exact governed_turn now (h.obeys c hc) hq hopen
    -- A call that has not begun has no turn.
    · exact ⟨hq, .inl ⟨c, rfl, h.obeys c hc, rfl, rfl⟩⟩
  obtain ⟨hholds, hobeys⟩ := governed_foldl (q := { p with calls := [] }) hstep h.holds nofun
    h.sound.areOpen.1 fun c hc => h.open hc
  exact ⟨(LawfulHost.ripen (κ := Pool σ α) now h.sound).1, hholds, hobeys⟩

/-- Calls that are given up leave the surroundings as the regime wants them. -/
theorem holds_foldl_leave {cs : List (Call σ α)} {s : σ} {es : List (Ended α)}
    (hcs : ∀ c ∈ cs, c.Obeys R) (hs : R.holds s es) :
    R.holds (cs.foldl (fun s c => c.leave s) s) es := by
  induction cs generalizing s with
  | nil => exact hs
  | cons c cs ih =>
    have hc := hcs c List.mem_cons_self
    refine ih (fun d hd => hcs d (List.mem_cons_of_mem c hd)) ?_
    show R.holds (c.leave s) es
    -- Only a call that has begun has anything to leave behind.
    unfold Call.leave
    unfold Call.Obeys at hc
    split
    · exact hs
    · next visit due hstage =>
      rw [hstage] at hc
      exact R.leaves hc hs

/-- A pool stays under its regime when a call is given up. -/
theorem Under.abort (h : p.Under R) (i : Nat) : (p.abort i).Under R where
  sound := h.sound.abort i
  holds := holds_foldl_leave (fun c hc => h.obeys c (List.mem_filter.mp hc).1) h.holds
  obeys c hc := h.obeys c (List.mem_filter.mp hc).1

/-- A pool stays under its regime when a call is made that may be made under it. -/
theorem Under.submit (h : p.Under R) {i : Nat} {work : Work Unit σ α}
    (hfinite : ∀ s, (work () s).2.2.pause.isSome = true) (hnew : i ∉ p.ids)
    (hended : Federation.ended? p.ended i = none) (hmay : R.may i work) :
    (p.submit i work).Under R where
  sound := h.sound.submit hfinite hnew hended
  holds := h.holds
  obeys c hc := by
    rcases List.mem_append.mp hc with hc | hc
    · exact h.obeys c hc
    · rw [List.mem_singleton] at hc
      exact hc ▸ hmay

/-- The surroundings are changed from outside. -/
theorem Under.alter (h : p.Under R) {s : σ} (hs : R.holds s p.ended) :
    Under R { p with shared := s } :=
  ⟨⟨h.sound.areOpen, h.sound.isFinite⟩, hs, h.obeys⟩

/-- The calls in progress obey a regime that differs only in a call that is yet to be made. -/
theorem Under.transfer (h : p.Under R) {n : Nat} (hR : R.Extends n p.shared R')
    (hnew : n ∉ p.ids) (hended : Federation.ended? p.ended n = none) : p.Under R' := by
  refine ⟨h.sound, hR.holds _ hended h.holds, fun c hc => ?_⟩
  have hne : c.id ≠ n := fun he => hnew (he ▸ List.mem_map_of_mem hc)
  have hobeys := h.obeys c hc
  unfold Call.Obeys at hobeys ⊢
  split at hobeys
  · next work hs => exact hR.may c.id work hne hobeys
  · next visit due hs => exact hR.going c.id visit hne hobeys

end Pool

end Federation
