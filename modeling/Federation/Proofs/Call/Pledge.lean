import Federation.Proofs.Call.Pool

/-!
# Calls whose end is known in advance

Of some calls it is known as soon as they are made how they end, and when, unless they are given up.
Such is a call in a pool whose work neither looks at what the pool is about, nor at what the other
calls do to it.

## Key results

- `Pool.pledge`: a call in a pool ends as its work says
-/

namespace Federation

/-- What is known of a call that ends as `Q` says: what holds of its host at an instant, `before` or
    `after` what is due then has happened.  As long as the work has not `begun`, no time passes. -/
structure Host.Pledge {κ ω α : Type} [Host κ ω α] [LawfulHost κ] (i : Nat)
    (Q : Nat → Ending α → Prop) (before after : (begun : Prop) → (now : Nat) → κ → Prop) :
    Prop where
  submit : ∀ {b now k x} (w : ω), x ≠ i → before b now k → before b now (Host.submit x w k)
  abort_before : ∀ {b now k} (x : Nat), before b now k → before b now (Host.abort x k)
  abort_after : ∀ {b now k} (x : Nat), after b now k → after b now (Host.abort x k)
  ripen : ∀ {b now k}, LawfulHost.IsSound k → before b now k → after b now (Host.ripen now k)
  settle : ∀ {b now k}, LawfulHost.IsSound k → after b now k →
    after True now (Timed.settle now k)
  stay : ∀ {b now k}, after b now k → before b now k
  rest : ∀ {b now k}, LawfulHost.Rests now k → before b now k → after True now k
  pass : ∀ {now t k}, LawfulHost.IsSound k → after True now k →
    (∀ u, Timed.next? k = some u → t ≤ u) → before True t k
  prompt : ∀ {now k}, LawfulHost.IsSound k → after True now k → LawfulHost.Live k i →
    (Host.due? k i).isSome = true
  late : ∀ {now k}, LawfulHost.IsSound k → after True now k → LawfulHost.Live k i →
    ∃ t e, now < t ∧ Q t e
  ended : ∀ {b now k e}, before b now k → Host.ended? k i = some e → Q e.instant e.ending

namespace Pool

variable {σ α : Type} {i start now : Nat} {Q : Nat → Ending α → Prop} {begun : Prop}
  {bound : Nat → Prop} {p q : Pool σ α} {c : Call σ α}

/-- Whether a call ends as `Q` says, if its work begins at the given instant. -/
def Call.Owes (start : Nat) (Q : Nat → Ending α → Prop) (c : Call σ α) : Prop :=
  match c.stage with
  | .made work => ∀ s, ∃ d, (work () s).2.2.pause = some d ∧
      ∀ s', Q (start + d) ((work () s).2.2.finish () s').2.2
  | .waiting visit due => ∃ t, due = some t ∧ ∀ s, Q t (visit.finish () s).2.2

/-- What is known of the call of a number that ends as `Q` says. -/
structure Owes (i start : Nat) (Q : Nat → Ending α → Prop) (bound : Nat → Prop) (begun : Prop)
    (now : Nat) (p : Pool σ α) : Prop where
  calls : ∀ c ∈ p.calls, c.id = i → c.Owes start Q ∧ (∀ t, c.due? = some t → bound t) ∧
    (c.hasBegun = false → now = start ∧ ¬begun)
  ended : ∀ e ∈ p.ended, e.id = i → Q e.instant e.ending

/-- A call goes on waiting, or ends when its wait is over. -/
private theorem Owes.goOn {id : Nat} {visit : Visit Unit σ α} {due : Option Nat}
    (hq : q.Owes i start Q (now < ·) begun now)
    (h : id = i → ∃ t, due = some t ∧ now ≤ t ∧ ∀ s, Q t (visit.finish () s).2.2) :
    (q.goOn now id visit due).Owes i start Q (now < ·) begun now := by
  unfold Pool.goOn
  by_cases hdue : Timed.isDue due now = true
  · rw [if_pos hdue]
    refine ⟨hq.calls, fun e he hi => ?_⟩
    rcases List.mem_append.mp he with he | he
    · exact hq.ended e he hi
    · rw [List.mem_singleton] at he
      subst he
      obtain ⟨t, rfl, hle, hQ⟩ := h hi
      obtain ⟨u, hu, hdue⟩ := Timed.isDue_iff.mp hdue
      obtain rfl : t = now := by
        rw [Option.some.injEq] at hu
        omega
      exact hQ q.shared
  · rw [if_neg hdue]
    -- The call waits on, for some time to come.
    refine ⟨fun c hc hi => ?_, hq.ended⟩
    rcases List.mem_append.mp hc with hc | hc
    · exact hq.calls c hc hi
    · rw [List.mem_singleton] at hc
      subst hc
      obtain ⟨t, rfl, -, hQ⟩ := h hi
      refine ⟨⟨t, rfl, hQ⟩, fun u hu => Nat.lt_of_not_le fun hle => hdue ?_, nofun⟩
      exact Timed.isDue_iff.mpr ⟨u, hu, hle⟩

/-- A turn keeps what is known of a call; if the call begins with it, it begins at its instant. -/
private theorem Owes.turn (hq : q.Owes i start Q (now < ·) begun now)
    (hc : c.id = i → c.Owes start Q ∧ (∀ t, c.due? = some t → now ≤ t) ∧
      (c.hasBegun = false → now = start)) :
    (q.turn now c).Owes i start Q (now < ·) begun now := by
  unfold Pool.turn
  split
  · next work hs =>
    -- The work begins now, and says for how long it is going to wait.
    have hshared : Owes i start Q (now < ·) begun now
        { q with shared := (work () q.shared).2.1 } := ⟨hq.calls, hq.ended⟩
    refine hshared.goOn fun hi => ?_
    obtain ⟨howes, -, hbegun⟩ := hc hi
    unfold Call.Owes at howes
    unfold Call.hasBegun at hbegun
    rw [hs] at howes hbegun
    obtain ⟨d, hd, hQ⟩ := howes q.shared
    obtain rfl := hbegun rfl
    refine ⟨now + d, ?_, Nat.le_add_right now d, hQ⟩
    rw [hd, Option.map_some]
  · next visit due hs =>
    refine hq.goOn fun hi => ?_
    obtain ⟨howes, hahead, -⟩ := hc hi
    unfold Call.Owes at howes
    unfold Call.due? at hahead
    rw [hs] at howes hahead
    obtain ⟨t, rfl, hQ⟩ := howes
    exact ⟨t, rfl, hahead t rfl, hQ⟩

/-- What every turn keeps, all turns keep. -/
private theorem owes_foldl {step : Pool σ α → Call σ α → Pool σ α} {cs : List (Call σ α)}
    (hstep : ∀ q, ∀ c ∈ cs, q.Owes i start Q bound begun now →
      (step q c).Owes i start Q bound begun now) (hq : q.Owes i start Q bound begun now) :
    (cs.foldl step q).Owes i start Q bound begun now := by
  induction cs generalizing q with
  | nil => exact hq
  | cons c cs ih =>
    have hq' := hstep q c List.mem_cons_self hq
    exact ih (fun q d hd => hstep q d (List.mem_cons_of_mem c hd)) hq'

/-- What is known of a call is kept when the pool settles, and the call has begun then. -/
theorem Owes.settle (h : p.Owes i start Q (now < ·) begun now) :
    (p.settle now).Owes i start Q (now < ·) True now := by
  unfold Pool.settle
  refine owes_foldl (fun q c hc hq => hq.turn fun hi => ?_) ⟨nofun, h.ended⟩
  obtain ⟨howes, hahead, hbegun⟩ := h.calls c hc hi
  exact ⟨howes, fun t ht => Nat.le_of_lt (hahead t ht), fun hb => (hbegun hb).1⟩

/-- What is known of a call is kept when waits end. -/
theorem Owes.ripen (h : p.Owes i start Q (now ≤ ·) begun now) :
    (p.ripen now).Owes i start Q (now < ·) begun now := by
  unfold Pool.ripen
  -- Only calls that have begun have a turn; the others stay as they are.
  refine owes_foldl (fun q c hc hq => ?_) ⟨nofun, h.ended⟩
  by_cases hb : c.hasBegun = true
  · rw [if_pos hb]
    refine hq.turn fun hi => ?_
    obtain ⟨howes, hahead, -⟩ := h.calls c hc hi
    exact ⟨howes, hahead, fun hf => absurd hb (by rw [hf]; exact Bool.false_ne_true)⟩
  · rw [if_neg hb]
    refine ⟨fun d hd hi => ?_, hq.ended⟩
    rcases List.mem_append.mp hd with hd | hd
    · exact hq.calls d hd hi
    · rw [List.mem_singleton] at hd
      subst hd
      obtain ⟨howes, -, hbegun⟩ := h.calls d hc hi
      refine ⟨howes, fun t ht => ?_, hbegun⟩
      rw [Call.due?_of_not_hasBegun (Bool.eq_false_iff.mpr hb)] at ht
      exact nomatch ht

/-- What is known of a call is kept when any call is given up. -/
theorem Owes.abort (h : p.Owes i start Q bound begun now) (x : Nat) :
    (p.abort x).Owes i start Q bound begun now :=
  ⟨fun c hc => h.calls c (List.mem_filter.mp hc).1, h.ended⟩

/-- What is known of a call is kept when another one is made. -/
theorem Owes.submit {x : Nat} (h : p.Owes i start Q bound begun now) (work : Work Unit σ α)
    (hx : x ≠ i) : (p.submit x work).Owes i start Q bound begun now := by
  refine ⟨fun c hc hi => ?_, h.ended⟩
  rcases List.mem_append.mp hc with hc | hc
  · exact h.calls c hc hi
  · rw [List.mem_singleton] at hc
    subst hc
    exact absurd hi hx

/-- A call is known when it is made. -/
theorem owes_submit {work : Work Unit σ α} (hnew : i ∉ p.ids)
    (hended : Federation.ended? p.ended i = none)
    (hwork : ∀ s, ∃ d, (work () s).2.2.pause = some d ∧
      ∀ s', Q (start + d) ((work () s).2.2.finish () s').2.2) :
    (p.submit i work).Owes i start Q (start ≤ ·) False start := by
  refine ⟨fun c hc hi => ?_, fun e he hi => ?_⟩
  · rcases List.mem_append.mp hc with hc | hc
    · exact absurd (List.mem_map.mpr ⟨c, hc, hi⟩) hnew
    · rw [List.mem_singleton] at hc
      subst hc
      exact ⟨hwork, nofun, fun _ => ⟨rfl, id⟩⟩
  · exact absurd (List.mem_map.mpr ⟨e, he, hi⟩) (ended?_eq_none_iff.mp hended)

/-- A call that is in progress and has begun waits until it ends. -/
private theorem Owes.waiting (h : p.Owes i start Q bound True now) (hsound : p.IsSound)
    (hi : i ∈ p.ids) : ∃ t, Host.due? p i = some t ∧ bound t ∧ ∃ e, Q t e := by
  obtain ⟨c, hc, rfl⟩ := List.mem_map.mp hi
  obtain ⟨howes, hahead, hbegun⟩ := h.calls c hc rfl
  rw [due?_eq hsound hc]
  unfold Call.Owes at howes
  unfold Call.hasBegun at hbegun
  unfold Call.due? at hahead ⊢
  -- It is not one that is only made, so it waits, and it is known until when.
  cases hs : c.stage with
  | made work =>
    rw [hs] at hbegun
    exact absurd trivial (hbegun rfl).2
  | waiting visit due =>
    rw [hs] at howes hahead
    obtain ⟨t, rfl, hQ⟩ := howes
    exact ⟨t, rfl, hahead t rfl, _, hQ p.shared⟩

/-- A call in a pool ends as its work says. -/
theorem pledge (i start : Nat) (Q : Nat → Ending α → Prop) :
    Host.Pledge i Q (fun b now (p : Pool σ α) => p.Owes i start Q (now ≤ ·) b now)
      (fun b now p => p.Owes i start Q (now < ·) b now) where
  submit work hx h := h.submit work hx
  abort_before x h := h.abort x
  abort_after x h := h.abort x
  ripen _ h := h.ripen
  settle _ h := h.settle
  stay h := by
    refine ⟨fun c hc hi => ?_, h.ended⟩
    obtain ⟨howes, hahead, hbegun⟩ := h.calls c hc hi
    exact ⟨howes, fun t ht => Nat.le_of_lt (hahead t ht), hbegun⟩
  rest hrests h := by
    refine ⟨fun c hc hi => ?_, h.ended⟩
    obtain ⟨howes, -, -⟩ := h.calls c hc hi
    obtain ⟨t, ht, hlt⟩ := hrests c hc
    refine ⟨howes, fun u hu => ?_, fun hb => ?_⟩
    · rw [ht, Option.some.injEq] at hu
      exact hu ▸ hlt
    · rw [Call.due?_of_not_hasBegun hb] at ht
      exact nomatch ht
  -- Time passes up to the earliest wait, so no wait is passed over.
  pass {now t p} hsound h ht := by
    refine ⟨fun c hc hi => ?_, h.ended⟩
    obtain ⟨howes, -, hbegun⟩ := h.calls c hc hi
    refine ⟨howes, fun u hu => ?_, fun hb => absurd trivial (hbegun hb).2⟩
    obtain ⟨v, hv, hvu⟩ := Timed.earliest_le (hu ▸ List.mem_map_of_mem hc :
      some u ∈ p.calls.map Call.due?)
    exact Nat.le_trans (ht v hv) hvu
  prompt hsound h hi := by
    obtain ⟨t, ht, -⟩ := h.waiting hsound hi
    rw [ht]
    rfl
  late hsound h hi := by
    obtain ⟨t, -, hlt, e, hQ⟩ := h.waiting hsound hi
    exact ⟨t, e, hlt, hQ⟩
  ended {b now p e} h he := by
    have hmem : e ∈ p.ended := List.mem_of_find?_eq_some he
    have hid : e.id = i := by
      have hfind := List.find?_some he
      exact of_decide_eq_true hfind
    exact h.ended e hmem hid

end Pool

end Federation
