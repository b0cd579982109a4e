import Federation.Call.Pool
import Federation.Proofs.Call.Lawful
import Federation.Proofs.Timed
import Mathlib.Data.List.Nodup

/-!
# Pools can be relied upon

When a pool settles, every call has one turn, in which it either goes on waiting or ends.  So the
calls that are left, together with those that end, are those that there were.

## Key results

- `turn_cases`: what a turn does to its call
- `Swept`: what turns of several calls do to them
-/

namespace Federation.Pool

variable {σ α : Type} {now : Nat}

/-- The numbers of the calls in progress. -/
def ids (p : Pool σ α) : List Nat := p.calls.map Call.id

/-- Whether a call waits for a certain time only. -/
def Call.IsFinite (c : Call σ α) : Prop :=
  match c.stage with
  | .made work => ∀ s, (work () s).2.2.pause.isSome = true
  | .waiting _ due => due.isSome = true

/-- Whether a call waits until some time to come. -/
def Call.IsAhead (now : Nat) (c : Call σ α) : Prop := ∃ t, c.due? = some t ∧ now < t

/-- A call that waits for some time to come does not wait forever. -/
theorem Call.IsAhead.isFinite {c : Call σ α} (h : c.IsAhead now) : c.IsFinite := by
  obtain ⟨t, ht, -⟩ := h
  unfold Call.due? at ht
  unfold Call.IsFinite
  cases hs : c.stage with
  | made work =>
    rw [hs] at ht
    exact nomatch ht
  | waiting visit due =>
    rw [hs] at ht
    obtain rfl : due = some t := ht
    rfl

/-- A call that has not begun has nothing to wait for. -/
theorem Call.due?_of_not_hasBegun {c : Call σ α} (h : c.hasBegun = false) : c.due? = none := by
  unfold Call.hasBegun at h
  unfold Call.due?
  cases hs : c.stage with
  | made work => rfl
  | waiting visit due =>
    rw [hs] at h
    exact nomatch h

/-! ## One turn -/

/-- A visit that has a wait goes on waiting for some time to come, or ends. -/
theorem goOn_cases (now id : Nat) (visit : Visit Unit σ α) {due : Option Nat}
    (h : due.isSome = true) (q : Pool σ α) :
    (∃ c : Call σ α, c.id = id ∧ c.IsAhead now ∧ (∀ t, due = some t → now < t) ∧
        (q.goOn now id visit due).calls = q.calls ++ [c] ∧
        (q.goOn now id visit due).ended = q.ended) ∨
      ∃ e : Ended α, e.id = id ∧ e.instant = now ∧
        (q.goOn now id visit due).calls = q.calls ∧
        (q.goOn now id visit due).ended = q.ended ++ [e] := by
  obtain ⟨t, rfl⟩ := Option.isSome_iff_exists.mp h
  unfold goOn
  by_cases ht : t ≤ now
  · right
    simp only [Timed.isDue, Option.any_some, ht, decide_true, if_true]
    exact ⟨_, rfl, rfl, trivial, rfl⟩
  · left
    simp only [Timed.isDue, Option.any_some, ht, decide_false]
    refine ⟨_, rfl, ⟨t, rfl, by omega⟩, ?_, rfl, rfl⟩
    intro u hu
    rw [Option.some.inj hu] at ht
    omega

/-- A call either goes on waiting after its turn, for some time to come, or it ends. -/
theorem turn_cases {c : Call σ α} (now : Nat) (h : c.IsFinite) (q : Pool σ α) :
    (∃ c' : Call σ α, c'.id = c.id ∧ c'.IsAhead now ∧ (∀ t, c.due? = some t → now < t) ∧
        (q.turn now c).calls = q.calls ++ [c'] ∧ (q.turn now c).ended = q.ended) ∨
      ∃ e : Ended α, e.id = c.id ∧ e.instant = now ∧ (q.turn now c).calls = q.calls ∧
        (q.turn now c).ended = q.ended ++ [e] := by
  unfold turn
  unfold Call.IsFinite at h
  -- A call that is only made does its work and is then a visit with a wait; one that waits is such
  -- a visit already.
  split
  · next work hs =>
    rw [hs] at h
    have hpause : ((work () q.shared).2.2.pause.map (now + ·)).isSome = true := by
      rw [Option.isSome_map]
      exact h q.shared
    rcases goOn_cases now c.id (work () q.shared).2.2 hpause
      { q with shared := (work () q.shared).2.1 } with ⟨c', hid, hahead, -, hrest⟩ | hends
    · refine .inl ⟨c', hid, hahead, ?_, hrest⟩
      simp [Call.due?, hs]
    · exact .inr hends
  · next visit due hs =>
    rw [hs] at h
    simpa only [Call.due?, hs] using goOn_cases now c.id visit h q

/-! ## Several turns -/

/-- What becomes of some calls that have their turns one after the other: each of them is kept as
    `keep` says, or ends. -/
structure Swept (now : Nat) (keep : Call σ α → Call σ α → Prop) (cs : List (Call σ α))
    (q q' : Pool σ α) : Prop where
  sweep : ∃ kept, ∃ gone : List (Ended α),
    q'.calls = q.calls ++ kept ∧ q'.ended = q.ended ++ gone ∧
      (∀ c' ∈ kept, ∃ c ∈ cs, c'.id = c.id ∧ keep c c') ∧
      (∀ e ∈ gone, e.instant = now) ∧
      (kept.map Call.id ++ gone.map Ended.id).Perm (cs.map Call.id)

/-- If each call is kept or ends at its turn, then so it is with all of them. -/
theorem swept_foldl {keep : Call σ α → Call σ α → Prop} {step : Pool σ α → Call σ α → Pool σ α}
    {cs : List (Call σ α)}
    (hstep : ∀ q, ∀ c ∈ cs,
      (∃ c', c'.id = c.id ∧ keep c c' ∧ (step q c).calls = q.calls ++ [c'] ∧
          (step q c).ended = q.ended) ∨
        ∃ e : Ended α, e.id = c.id ∧ e.instant = now ∧ (step q c).calls = q.calls ∧
          (step q c).ended = q.ended ++ [e])
    (q : Pool σ α) :
    Swept now keep cs q (cs.foldl step q) := by
  -- Induction on the calls: the first one is kept or ends, and so are the others after it.
  induction cs generalizing q with
  | nil => exact ⟨[], [], by simp, by simp, nofun, nofun, by simp⟩
  | cons c cs ih =>
    obtain ⟨kept, gone, hcalls, hended, hkept, hgone, hperm⟩ :=
      (ih (fun q c hc => hstep q c (List.mem_cons_of_mem _ hc)) (step q c)).sweep
    have hkept' : ∀ c' ∈ kept, ∃ d ∈ c :: cs, c'.id = d.id ∧ keep d c' := by
      intro c' hc'
      obtain ⟨d, hd, hk⟩ := hkept c' hc'
      exact ⟨d, List.mem_cons_of_mem _ hd, hk⟩
    rw [List.foldl_cons]
    rcases hstep q c List.mem_cons_self with ⟨c', hid, hk, hc, he⟩ | ⟨e, hid, hnow, hc, he⟩
    · refine ⟨c' :: kept, gone, ?_, by rw [hended, he], ?_, hgone, ?_⟩
      · rw [hcalls, hc, List.append_assoc, List.singleton_append]
      · intro d hd
        rcases List.mem_cons.mp hd with rfl | hd
        · exact ⟨c, List.mem_cons_self, hid, hk⟩
        · exact hkept' d hd
      · rw [List.map_cons, List.map_cons, List.cons_append, hid]
        exact hperm.cons _
    · refine ⟨kept, e :: gone, by rw [hcalls, hc], ?_, hkept', ?_, ?_⟩
      · rw [hended, he, List.append_assoc, List.singleton_append]
      · intro d hd
        rcases List.mem_cons.mp hd with rfl | hd
        · exact hnow
        · exact hgone d hd
      · rw [List.map_cons, List.map_cons, hid]
        exact List.perm_middle.trans (hperm.cons _)

/-- The turns of all calls, seen from outside. -/
theorem Swept.endsAt {keep : Call σ α → Call σ α → Prop} {p q : Pool σ α}
    (h : Swept now keep p.calls { p with calls := [] } q) :
    EndsAt now p.ids p.ended q.ids q.ended := by
  obtain ⟨kept, gone, hcalls, hended, -, hgone, hperm⟩ := h.sweep
  refine ⟨gone, hended, hgone, ?_⟩
  rw [ids, hcalls, List.nil_append]
  exact hperm

/-- The calls that are left after the turns of all calls. -/
theorem Swept.mem_calls {keep : Call σ α → Call σ α → Prop} {p q : Pool σ α} {c' : Call σ α}
    (h : Swept now keep p.calls { p with calls := [] } q) (hc : c' ∈ q.calls) :
    ∃ c ∈ p.calls, c'.id = c.id ∧ keep c c' := by
  obtain ⟨kept, gone, hcalls, -, hkept, -, -⟩ := h.sweep
  rw [hcalls, List.nil_append] at hc
  exact hkept c' hc

/-! ## The pool as a host -/

/-- The calls have numbers of their own, none of them has ended, and each waits for a certain time
    only. -/
structure IsSound (p : Pool σ α) : Prop where
  areOpen : AreOpen p.ids p.ended
  isFinite : ∀ c ∈ p.calls, c.IsFinite

/-- When a pool settles, each call goes on waiting for some time to come, or ends. -/
theorem swept_settle {p : Pool σ α} (h : p.IsSound) (now : Nat) :
    Swept now (fun _ c' => c'.IsAhead now) p.calls { p with calls := [] } (p.settle now) := by
  refine swept_foldl (fun q c hc => ?_) _
  rcases turn_cases now (h.isFinite c hc) q with ⟨c', hid, hahead, -, hrest⟩ | hends
  · exact .inl ⟨c', hid, hahead, hrest⟩
  · exact .inr hends

/-- The calls that ripening leaves wait longer, or have not begun. -/
theorem swept_ripen {p : Pool σ α} (h : p.IsSound) (now : Nat) :
    Swept now (fun c c' => c'.IsFinite ∧ ∀ t, c.due? = some t → now < t) p.calls
      { p with calls := [] } (p.ripen now) := by
  refine swept_foldl (fun q c hc => ?_) _
  by_cases hb : c.hasBegun = true
  · rw [if_pos hb]
    rcases turn_cases now (h.isFinite c hc) q with ⟨c', hid, hahead, hdue, hrest⟩ | hends
    · exact .inl ⟨c', hid, ⟨hahead.isFinite, hdue⟩, hrest⟩
    · exact .inr hends
  · rw [if_neg hb]
    refine .inl ⟨c, rfl, ⟨h.isFinite c hc, fun t ht => ?_⟩, rfl, rfl⟩
    rw [Call.due?_of_not_hasBegun (Bool.eq_false_iff.mpr hb)] at ht
    exact nomatch ht

/-- A sound pool stays sound if the calls that are kept wait for some time. -/
theorem IsSound.of_swept {keep : Call σ α → Call σ α → Prop} {p q : Pool σ α} (h : p.IsSound)
    (hs : Swept now keep p.calls { p with calls := [] } q)
    (hkeep : ∀ c c', keep c c' → c'.IsFinite) :
    q.IsSound where
  areOpen := hs.endsAt.areOpen h.areOpen
  isFinite := by
    intro c' hc'
    obtain ⟨c, -, -, hk⟩ := hs.mem_calls hc'
    exact hkeep c c' hk

/-- How a call has ended is looked up in the list of those that have. -/
theorem ended?_eq (p : Pool σ α) (i : Nat) : Host.ended? p i = Federation.ended? p.ended i := rfl

/-- What can be seen of a pool whose calls have had their turns. -/
theorem Swept.runs {keep : Call σ α → Call σ α → Prop} {p q : Pool σ α} (h : p.IsSound)
    (hs : Swept now keep p.calls { p with calls := [] } q) :
    Host.Runs (fun (p : Pool σ α) i => i ∈ p.ids) now p q := by
  refine hs.endsAt.runs Pool.ended ended?_eq h.areOpen ?_
  have hlength := hs.endsAt.length_le
  rw [ids, ids, List.length_map, List.length_map] at hlength
  exact hlength

/-- The call of a number, which is the only one. -/
theorem IsSound.eq_of_id {p : Pool σ α} (h : p.IsSound) {c d : Call σ α} (hc : c ∈ p.calls)
    (hd : d ∈ p.calls) (hid : c.id = d.id) : c = d :=
  List.inj_on_of_nodup_map h.areOpen.1 hc hd hid

/-- When a call is due can be seen from its number. -/
theorem due?_eq {p : Pool σ α} (h : p.IsSound) {c : Call σ α} (hc : c ∈ p.calls) :
    Host.due? p c.id = c.due? := by
  have hfind : p.calls.find? (fun d => d.id = c.id) = some c := by
    cases hf : p.calls.find? (fun d => d.id = c.id) with
    | none => exact absurd (decide_eq_true rfl) (List.find?_eq_none.mp hf c hc)
    | some d =>
      have hid : d.id = c.id := by simpa using List.find?_some hf
      rw [h.eq_of_id (List.mem_of_find?_eq_some hf) hc hid]
  show (p.calls.find? fun d => d.id = c.id).bind Call.due? = c.due?
  rw [hfind, Option.bind_some]

/-- A call that is made is the last one. -/
theorem ids_submit (i : Nat) (work : Work Unit σ α) (p : Pool σ α) :
    (p.submit i work).ids = p.ids ++ [i] := by
  simp [ids, submit]

/-- The calls in progress are those that were not given up. -/
theorem mem_ids_abort {p : Pool σ α} {i x : Nat} : x ∈ (p.abort i).ids ↔ x ∈ p.ids ∧ x ≠ i := by
  simp only [ids, abort, List.mem_map, List.mem_filter, decide_eq_true_eq]
  constructor
  · rintro ⟨c, ⟨hc, hne⟩, rfl⟩
    exact ⟨⟨c, hc, rfl⟩, hne⟩
  · rintro ⟨⟨c, hc, rfl⟩, hne⟩
    exact ⟨c, ⟨hc, hne⟩, rfl⟩

/-- A sound pool stays sound when a call with a new number is made, if its work waits for some time.
    -/
theorem IsSound.submit {p : Pool σ α} {i : Nat} {work : Work Unit σ α} (h : p.IsSound)
    (hfinite : ∀ s, (work () s).2.2.pause.isSome = true) (hnew : i ∉ p.ids)
    (hended : Federation.ended? p.ended i = none) :
    (p.submit i work).IsSound := by
  refine ⟨?_, fun c hc => ?_⟩
  · rw [ids_submit]
    exact h.areOpen.concat hnew hended
  · -- The new call is as finite as its work.
    rcases List.mem_append.mp hc with hc | hc
    · exact h.isFinite c hc
    · rw [List.mem_singleton] at hc
      subst hc
      exact hfinite

/-- A sound pool stays sound when a call is given up. -/
theorem IsSound.abort {p : Pool σ α} (h : p.IsSound) (i : Nat) : (p.abort i).IsSound := by
  refine ⟨⟨?_, ?_⟩, ?_⟩
  · exact h.areOpen.1.sublist (List.filter_sublist.map _)
  · intro x hx
    exact h.areOpen.2 x (mem_ids_abort.mp hx).1
  · intro c hc
    exact h.isFinite c (List.mem_filter.mp hc).1

/-- When a call is given up, the others are due as before. -/
theorem due?_abort (p : Pool σ α) {i x : Nat} (hx : x ≠ i) :
    Host.due? (p.abort i) x = Host.due? p x := by
  have hfind : (p.abort i).calls.find? (fun c => c.id = x) = p.calls.find? fun c => c.id = x := by
    rw [calls_abort, List.find?_filter]
    congr 1
    funext c
    by_cases hc : c.id = x
    · simp [hc, hx]
    · simp [hc]
  exact congrArg (·.bind Call.due?) hfind

/-- The calls in progress along with one more. -/
theorem mem_ids_concat {q : Pool σ α} {c : Call σ α} {i : Nat} :
    i ∈ ({ q with calls := q.calls ++ [c] } : Pool σ α).ids ↔ i ∈ q.ids ∨ i = c.id := by
  simp [ids, eq_comm]

/-- A visit takes no other call out of a pool. -/
theorem mem_ids_goOn {q : Pool σ α} {i : Nat} (hi : i ∈ q.ids) (now id : Nat)
    (visit : Visit Unit σ α) (due : Option Nat) : i ∈ (q.goOn now id visit due).ids := by
  unfold goOn
  split
  · exact hi
  · exact mem_ids_concat.mpr (.inl hi)

/-- A turn puts calls behind those that are there. -/
theorem mem_ids_turn {q : Pool σ α} {i : Nat} (hi : i ∈ q.ids) (now : Nat) (c : Call σ α) :
    i ∈ (q.turn now c).ids := by
  unfold turn
  split
  · next work hs =>
    exact mem_ids_goOn (q := { q with shared := (work () q.shared).2.1 }) hi now c.id
      (work () q.shared).2.2 _
  · exact mem_ids_goOn hi now c.id _ _

/-- A call whose wait is not over goes on after its turn. -/
theorem mem_ids_turn_self {c : Call σ α} (hb : c.hasBegun = true)
    (hdue : ∀ t, c.due? = some t → now < t) (q : Pool σ α) : c.id ∈ (q.turn now c).ids := by
  unfold Call.hasBegun at hb
  unfold Call.due? at hdue
  unfold turn
  -- The call has begun, so it waits, and the wait is not over.
  cases hs : c.stage with
  | made work =>
    rw [hs] at hb
    exact nomatch hb
  | waiting visit due =>
    rw [hs] at hdue
    have hnot : Timed.isDue due now = false := by
      refine Bool.eq_false_iff.mpr fun htrue => ?_
      obtain ⟨t, ht, hle⟩ := Timed.isDue_iff.mp htrue
      exact absurd (hdue t ht) (Nat.not_lt_of_le hle)
    show c.id ∈ (q.goOn now c.id visit due).ids
    unfold goOn
    rw [if_neg (Bool.eq_false_iff.mp hnot)]
    exact mem_ids_concat.mpr (.inr rfl)

/-- A call whose wait is not over has not ended when the pool has ripened. -/
theorem mem_ids_ripen {p : Pool σ α} {i : Nat} (h : p.IsSound) (hi : i ∈ p.ids)
    (hdue : ∀ t, Host.due? p i = some t → now < t) : i ∈ (p.ripen now).ids := by
  obtain ⟨c, hc, rfl⟩ := List.mem_map.mp hi
  rw [due?_eq h hc] at hdue
  -- When a pool ripens, the calls that have begun have their turns, and the others are put back.
  let step (q : Pool σ α) (c : Call σ α) : Pool σ α :=
    if c.hasBegun then q.turn now c else { q with calls := q.calls ++ [c] }
  have grows : ∀ q d, c.id ∈ q.ids → c.id ∈ (step q d).ids := by
    intro q d hq
    dsimp only [step]
    split
    · exact mem_ids_turn hq now d
    · exact mem_ids_concat.mpr (.inl hq)
  have kept : ∀ q, c.id ∈ (step q c).ids := by
    intro q
    dsimp only [step]
    split
    · next hb => exact mem_ids_turn_self hb hdue q
    · exact mem_ids_concat.mpr (.inr rfl)
  -- The call is kept at its turn, and nothing takes it out again.
  have fold : ∀ (cs : List (Call σ α)) (q : Pool σ α), c ∈ cs ∨ c.id ∈ q.ids →
      c.id ∈ (cs.foldl step q).ids := by
    intro cs
    induction cs with
    | nil => exact fun q hq => hq.resolve_left List.not_mem_nil
    | cons d cs ih =>
      intro q hq
      refine ih (step q d) ?_
      rcases hq with hq | hq
      · rcases List.mem_cons.mp hq with rfl | hq
        · exact .inr (kept q)
        · exact .inl hq
      · exact .inr (grows q d hq)
  exact fold p.calls { p with calls := [] } (.inl hc)

instance : LawfulHost (Pool σ α) where
  IsFinite work := ∀ s, (work () s).2.2.pause.isSome = true
  IsSound := IsSound
  Live p i := i ∈ p.ids
  Rests now p := ∀ c ∈ p.calls, c.IsAhead now
  ended?_of_live h hi := h.areOpen.2 _ hi
  submit h hfinite hnew hended := by
    refine ⟨h.submit hfinite hnew hended, fun x => ?_, fun _ => rfl⟩
    show x ∈ (Pool.submit _ _ _).ids ↔ _
    rw [ids_submit, List.mem_append, List.mem_singleton]
  abort i h :=
    ⟨h.abort i, fun _ => mem_ids_abort, fun _ => rfl, fun _ hx => due?_abort _ hx,
      List.length_filter_le ..⟩
  ripen now h := by
    have hs := swept_ripen h now
    refine ⟨h.of_swept hs fun _ _ hk => hk.1, hs.runs h, ?_⟩
    intro i t hdue ht hlive
    obtain ⟨c', hc', rfl⟩ := List.mem_map.mp hlive
    obtain ⟨c, hc, hid, -, hlater⟩ := hs.mem_calls hc'
    rw [hid, due?_eq h hc] at hdue
    have hlt := hlater t hdue
    omega
  ripen_live h hlive hdue := mem_ids_ripen h hlive hdue
  settle now h := by
    have hs := swept_settle h now
    refine ⟨h.of_swept hs fun _ _ hk => hk.isFinite, hs.runs h, ?_⟩
    intro c' hc'
    obtain ⟨c, -, -, hk⟩ := hs.mem_calls hc'
    exact hk
  next h ht := by
    obtain ⟨c, hc, hdue⟩ := List.mem_map.mp (Timed.mem_of_earliest ht)
    exact ⟨c.id, List.mem_map_of_mem hc, (due?_eq h hc).trans hdue⟩
  ahead _ hrests hdue := by
    obtain ⟨c, hfind, hc⟩ := Option.bind_eq_some_iff.mp hdue
    obtain ⟨t, ht, hlt⟩ := hrests c (List.mem_of_find?_eq_some hfind)
    rw [hc, Option.some.injEq] at ht
    exact ht ▸ hlt
  rests {p now i} _ hrests hlive := by
    obtain ⟨c, hc, rfl⟩ := List.mem_map.mp hlive
    obtain ⟨u, hu, -⟩ := hrests c hc
    have hmem : some u ∈ p.calls.map Call.due? := hu ▸ List.mem_map_of_mem hc
    obtain ⟨t, ht, -⟩ := Timed.earliest_le hmem
    -- What is due next is the end of some call's wait, and all of them are ahead.
    obtain ⟨d, hd, hdue⟩ := List.mem_map.mp (Timed.mem_of_earliest ht)
    obtain ⟨v, hv, hnow⟩ := hrests d hd
    rw [hdue, Option.some.injEq] at hv
    exact ⟨t, ht, hv ▸ hnow⟩

end Federation.Pool
