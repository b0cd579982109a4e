import Federation.Proofs.Coordinator.Connection
import Federation.Proofs.Coordinator.Permutation

/-!
# How often a target is called with one identifier

While a user is fetched, no target is tried twice with an identifier that it infers from the records
of others.  But the identifier with which it is called at first is not noted, so that it may be
called with it once more, if it has answered that it could not infer its identifier.

## Key results

- `Retries.nodup_calls`: no attempt is made twice
- `Retries.unnamed`: only a target that could not infer its identifier to begin with is tried again
- `asked_of_readFrom`: a round calls each of its targets once
- `asked_of_retries`: with what a target is called in all rounds
- `fetch_repeats`: when a target is called twice with one identifier
- `fetch_asks_twice`: a target that is called twice
-/

namespace Federation

namespace Inference

variable {infer? : ProviderId → Option (Record → Except Fault String)} {rs rs' : Results}
  {m : Memory} {trace : List Attempt} {p : ProviderId} {σ : Type} {s s' : σ}
  {round : List (ProviderId × String) → σ → σ × Option (Outcomes Output)}

/-- No attempt is made twice. -/
theorem Retries.nodup_calls (h : Retries infer? round rs m s trace rs' s')
    (hkeys : (rs.map Prod.fst).Nodup) (hm : m.attempted.Nodup) :
    (m.attempted ++ trace.map Attempt.call).Nodup := by
  induction h with
  | done =>
    rw [List.map_nil, List.append_nil]
    exact hm
  | @again rs rs' m m' s s' s'' attempts o trace planned any made answered rest ih =>
    obtain ⟨-, htargets, -⟩ := plan_spec planned
    obtain ⟨hattempted, hnew⟩ := plan_attempted planned
    have hattempts : attempts.Nodup := .of_map Prod.fst (hkeys.sublist htargets)
    -- The attempts of the round are new, and distinct since their targets are.
    have hm' : m'.attempted.Nodup := by
      rw [hattempted]
      exact hm.append hattempts fun a ha ha' => hnew a ha' ha
    have hrest := ih (by rw [map_fst_absorbAll]; exact hkeys) hm'
    rw [hattempted, List.append_assoc] at hrest
    rw [List.map_append, map_call_attemptsOf]
    exact hrest

/-- A target that is tried again could not infer its identifier to begin with. -/
theorem Retries.unnamed (h : Retries infer? round rs m s trace rs' s')
    (hkeys : (rs.map Prod.fst).Nodup) :
    ∀ a ∈ trace, ∃ f, (a.target, .error f) ∈ rs ∧ f.isCannotInfer = true := by
  induction h with
  | done => exact nofun
  | @again rs rs' m m' s s' s'' attempts o trace planned any made answered rest ih =>
    obtain ⟨-, htargets, used, hall, -⟩ := plan_spec planned
    have hround : (o.entries.map Prod.fst).Nodup := by
      rw [answered]
      exact hkeys.sublist htargets
    have hnow : ∀ x ∈ attempts, ∃ f, (x.1, .error f) ∈ rs ∧ f.isCannotInfer = true := by
      intro x hx
      obtain ⟨e, -, -, hjustified⟩ := exists_of_mem_left hall hx
      exact hjustified.unnamed
    intro a ha
    rcases List.mem_append.mp ha with ha | ha
    · obtain ⟨x, hx, rfl⟩ := List.mem_map.mp ha
      exact hnow x hx
    · obtain ⟨f, hf, hcannot⟩ := ih (by rw [map_fst_absorbAll]; exact hkeys) a ha
      -- What is known after this round was known before, or the target was tried in it.
      rcases mem_absorbAll_cases hkeys hround hf with ⟨hf, -⟩ | ⟨known, new, -, hnew, -⟩
      · exact ⟨f, hf, hcannot⟩
      · have htried : a.target ∈ attempts.map Prod.fst := by
          rw [← answered]
          exact List.mem_map.mpr ⟨_, hnew, rfl⟩
        obtain ⟨x, hx, heq⟩ := List.mem_map.mp htried
        rw [← heq]
        exact hnow x hx

/-- The identifiers of the attempts at one target. -/
def idsFor (p : ProviderId) (calls : List (ProviderId × String)) : List String :=
  (calls.filter fun a => a.1 = p).map Prod.snd

/-- The identifiers for a target are those of its attempts. -/
theorem mem_idsFor {calls : List (ProviderId × String)} {id : String} :
    id ∈ idsFor p calls ↔ (p, id) ∈ calls := by
  simp [idsFor]

/-- The identifiers for a target in one list of attempts and another. -/
theorem idsFor_append (p : ProviderId) (calls calls' : List (ProviderId × String)) :
    idsFor p (calls ++ calls') = idsFor p calls ++ idsFor p calls' := by
  rw [idsFor, List.filter_append, List.map_append]
  rfl

/-- Distinct attempts at one target have distinct identifiers. -/
theorem nodup_idsFor {calls : List (ProviderId × String)} (h : calls.Nodup) :
    (idsFor p calls).Nodup := by
  refine (h.filter _).map_on fun a ha b hb hab => Prod.ext ?_ hab
  have hfst : ∀ a ∈ calls.filter (fun a => a.1 = p), a.1 = p := fun a ha =>
    of_decide_eq_true (List.mem_filter.mp ha).2
  exact (hfst a ha).trans (hfst b hb).symm

end Inference

/-- The calls that a station has made: for which user, and with which operation. -/
def Station.asked (s : Station) : List (Subject × Option Operation) :=
  s.calls.map fun call => (call.1, call.2.1)

namespace Coordinator

open Inference (Attempt Memory Results Retries idsFor)

variable {c c' c'' : Coordinator} {p : ProviderId} {ids ids' : List String} {limit : Nat}

/-- In the meantime a provider has been asked to read the users with these local identifiers, in
    this order, and it has not been called otherwise. -/
def Asked (c c' : Coordinator) (p : ProviderId) (ids : List String) : Prop :=
  ∀ s, c.station? p = some s → ∃ s', c'.station? p = some s' ∧
    s'.asked = s.asked ++ ids.map fun id => (.account ⟨p, id⟩, some .readAll)

/-- A provider that has received no call has not been asked. -/
theorem Asked.nil (h : (c'.station? p).map Station.calls = (c.station? p).map Station.calls) :
    Asked c c' p [] := by
  intro s hs
  rw [hs, Option.map_some, Option.map_eq_some_iff] at h
  obtain ⟨s', hs', hcalls⟩ := h
  refine ⟨s', hs', ?_⟩
  rw [Station.asked, hcalls, List.map_nil, List.append_nil]
  rfl

/-- A provider has been asked for some users, and then for others. -/
theorem Asked.trans (h : Asked c c' p ids) (h' : Asked c' c'' p ids') :
    Asked c c'' p (ids ++ ids') := by
  intro s hs
  obtain ⟨s', hs', hasked⟩ := h s hs
  obtain ⟨s'', hs'', hasked'⟩ := h' s' hs'
  refine ⟨s'', hs'', ?_⟩
  rw [hasked', hasked, List.map_append, List.append_assoc]

/-- The identifier with which a target is called, if it is called. -/
def calledWith? (c : Coordinator) (l : Provider → Except Fault String) (p : ProviderId) :
    Option String :=
  (c.localIdAt .readAll l p).toOption

/-- A target that is called with a given identifier is called with that one. -/
theorem eq_of_calledWith? {id id' : String}
    (h : c.calledWith? (fun _ => .ok id) p = some id') : id = id' := by
  unfold calledWith? at h
  cases hlocal : c.localIdAt .readAll (fun _ => .ok id) p with
  | error f =>
    rw [hlocal] at h
    cases h
  | ok id'' =>
    rw [hlocal] at h
    obtain rfl := Option.some.inj h
    obtain ⟨s, hs, -⟩ := launch_called hlocal
    exact Except.ok.inj (supports_of_localIdAt hs hlocal).2

/-- A launch asks its target if it calls it, and then once. -/
theorem asked_of_launch (c : Coordinator) (l : Provider → Except Fault String) (p : ProviderId) :
    Asked c (c.launch .readAll l p).1 p (c.calledWith? l p).toList := by
  unfold calledWith?
  cases hlocal : c.localIdAt .readAll l p with
  | error f =>
    rw [launch_refused hlocal]
    exact .nil rfl
  | ok id =>
    obtain ⟨s, hs, hlaunch⟩ := launch_called hlocal
    obtain ⟨-, rfl⟩ := station?_eq_some hs
    intro s' hs'
    obtain rfl := Option.some.inj (hs.symm.trans hs')
    rw [hlaunch]
    refine ⟨(s.launch c.now .readAll id).1.collected, ?_, ?_⟩
    · rw [station?_put (Station.id_launch c.now .readAll id s), hs, Option.map_some, if_pos rfl]
    · rw [Station.asked, Station.calls_collected, Station.calls_launch, List.map_append]
      rfl

/-- A round calls its targets, each of them once, and nobody else. -/
theorem asked_of_readFrom {xs : List (ProviderId × (Provider → Except Fault String))}
    {out : Outcomes Output} (hc : c.Sound) (hq : c.Quiet) (hxs : (xs.map Prod.fst).Nodup)
    (ended : c.readFrom limit xs = (c', some out)) :
    (∀ l, (p, l) ∈ xs → Asked c c' p (c.calledWith? l p).toList) ∧
      (p ∉ xs.map Prod.fst → Asked c c' p []) := by
  unfold readFrom at ended
  cases hlaunched : launchAll .readAll xs c with
  | mk c₁ es =>
    rw [hlaunched] at ended
    obtain ⟨t, out', -, hwait, -⟩ := launchAll_ends hc hxs hlaunched
    obtain ⟨rfl, -⟩ := eq_of_wait ended hwait
    have hq₁ := quiet_launchAll .readAll xs hq
    have hidle := fun (hp : p ∉ xs.map Prod.fst) =>
      (idle_launchAll .readAll hp c).station?_eq hq hq₁
    have hat := fun l (hx : (p, l) ∈ xs) => (launchAll_at (o := .readAll) hq hxs hx).1
    rw [hlaunched] at hidle hat
    -- No calls are made while the round is waited for.
    have hwaited : Asked c₁ ((c₁.settle.advanceTo t).tell [.completed (summary out')]) p [] := by
      refine .nil ?_
      show ((c₁.settle.advanceTo t).station? p).map Station.calls = _
      rw [station?_pass, Station.map_calls_passed]
    constructor
    · intro l hx
      have hcalled : Asked c c₁ p (c.calledWith? l p).toList := by
        intro s hs
        rw [hat l hx]
        exact asked_of_launch c l p s hs
      have h := hcalled.trans hwaited
      rwa [List.append_nil] at h
    · intro hp
      have h : Asked c c₁ p [] := .nil (by rw [hidle hp])
      exact h.trans hwaited

/-- In the first round a target is called at most once, and then with the identifier that it infers
    from what the caller has. -/
theorem asked_of_execute {external : String} {targets : Targets} {out : Outcomes Output}
    (hc : c.Sound) (hq : c.Quiet) (p : ProviderId)
    (executed : c.execute limit .readAll external targets = (c', some out)) :
    ∃ id? : Option String, Asked c c' p id?.toList ∧
      ∀ id, id? = some id → c.calledWith? (Provider.localId external) p = some id := by
  let xs := (targets.resolve c.ids).map fun p => (p, Provider.localId external)
  have hfst : xs.map Prod.fst = targets.resolve c.ids := by
    rw [List.map_map]
    exact List.map_id _
  have hread : c.readFrom limit xs = (c', some out) := executed
  obtain ⟨hcalled, hidle⟩ := asked_of_readFrom (p := p) hc hq
    (by rw [hfst]; exact Targets.nodup_resolve hc.nodup targets) hread
  by_cases hp : p ∈ xs.map Prod.fst
  · rw [hfst] at hp
    exact ⟨_, hcalled _ (List.mem_map_of_mem hp), fun id h => h⟩
  · exact ⟨none, hidle hp, nofun⟩

/-- In a round of attempts a target is called with the identifier of the attempt at it, if there is
    one and if the target is able to read. -/
theorem asked_of_retry {attempts : List (ProviderId × String)} {out : Outcomes Output}
    (hc : c.Sound) (hq : c.Quiet) (hattempts : (attempts.map Prod.fst).Nodup) (p : ProviderId)
    (made : retry limit attempts c = (c', some out)) :
    ∃ ids, Asked c c' p ids ∧ ids.Sublist (idsFor p attempts) := by
  let xs : List (ProviderId × (Provider → Except Fault String)) :=
    attempts.map fun a => (a.1, fun _ => .ok a.2)
  have hfst : xs.map Prod.fst = attempts.map Prod.fst := by
    rw [List.map_map]
    rfl
  have hread : c.readFrom limit xs = (c', some out) := made
  obtain ⟨hcalled, hidle⟩ :=
    asked_of_readFrom (p := p) hc hq (by rw [hfst]; exact hattempts) hread
  -- A target with an attempt is called at most once, and one without is left alone.
  by_cases hp : p ∈ attempts.map Prod.fst
  · obtain ⟨⟨p, id⟩, ha, rfl⟩ := List.mem_map.mp hp
    refine ⟨_, hcalled (fun _ => .ok id) (List.mem_map.mpr ⟨_, ha, rfl⟩), ?_⟩
    cases hid : c.calledWith? (fun _ => .ok id) p with
    | none => exact List.nil_sublist _
    | some id' =>
      obtain rfl := eq_of_calledWith? hid
      exact List.singleton_sublist.mpr (Inference.mem_idsFor.mpr ha)
  · exact ⟨[], hidle (by rw [hfst]; exact hp), List.nil_sublist _⟩

/-- In all rounds of attempts a target is called with identifiers of the attempts at it, and with
    nothing else. -/
theorem asked_of_retries {infer? : ProviderId → Option (Record → Except Fault String)}
    {rs rs' : Results} {m : Memory} {trace : List Attempt}
    (h : Retries infer? (retry limit) rs m c trace rs' c') (hc : c.Sound) (hq : c.Quiet)
    (hkeys : (rs.map Prod.fst).Nodup) (p : ProviderId) :
    ∃ ids, Asked c c' p ids ∧ ids.Sublist (idsFor p (trace.map Attempt.call)) := by
  -- Induction on the rounds, each of which makes at most one attempt at the target.
  induction h with
  | done => exact ⟨[], .nil rfl, .slnil⟩
  | @again rs rs' m m' c d c' attempts o trace planned any made answered rest ih =>
    obtain ⟨-, htargets, -⟩ := Inference.plan_spec planned
    have hattempts := hkeys.sublist htargets
    obtain ⟨c₁, before, after, -⟩ := yields_of_retry hc hattempts made
    have hround : Steps (fun _ => False) c d := before.trans after
    obtain ⟨now, hnow, hsublist⟩ := asked_of_retry hc hq hattempts p made
    obtain ⟨later, hlater, hsublist'⟩ := ih ((hround.evolves hc).sound hc) (hround.quiet hq)
      (by rw [Inference.map_fst_absorbAll]; exact hkeys)
    refine ⟨now ++ later, hnow.trans hlater, ?_⟩
    rw [List.map_append, Inference.map_call_attemptsOf, Inference.idsFor_append]
    exact hsublist.append hsublist'

/-- While a user is fetched, a provider is called twice with one identifier at most, and this only
    if it was called with it at first and has answered that it could not infer its identifier. -/
theorem fetch_repeats {b : Blueprint} (hc : c.Reachable b) {external : String} {targets : Targets}
    {u : FederatedUser} (fetched : c.fetch limit external targets = (c', some u))
    (p : ProviderId) :
    ∃ first c₁ ids, c.execute limit .readAll external targets = (c₁, some first) ∧
      Asked c c' p ids ∧
      ∀ id, ids.count id ≤ 1 ∨ ids.count id = 2 ∧ ids.head? = some id ∧
        c.calledWith? (Provider.localId external) p = some id ∧
        ∃ f, first.get? p = some (.error f) ∧ f.isCannotInfer = true := by
  have hsound := hc.sound
  obtain ⟨first, c₁, c₂, trace, hexecute, hretries, hmerge⟩ := retries_of_fetch hsound fetched
  obtain ⟨d, before, after, hproviders, -⟩ := yields_of_execute hsound hexecute
  have hfirst : Steps (fun _ => False) c c₁ := before.trans after
  have hkeys := Targets.nodup_of_providers hsound.nodup hproviders
  -- The target is called at first, then it is tried again, and merging makes no calls.
  obtain ⟨id?, hnow, hid?⟩ := asked_of_execute hsound hc.quiet p hexecute
  obtain ⟨tries, hlater, hsublist⟩ := asked_of_retries hretries
    ((hfirst.evolves hsound).sound hsound) (hfirst.quiet hc.quiet) hkeys p
  have hmerged : Asked c₂ c' p [] := by
    obtain rfl : (c₂.merge u.outcomes.entries).1 = c' := congrArg Prod.fst hmerge
    exact .nil rfl
  have hasked := (hnow.trans hlater).trans hmerged
  rw [List.append_nil] at hasked
  have htries : tries.Nodup :=
    (Inference.nodup_idsFor (hretries.nodup_calls hkeys .nil)).sublist hsublist
  refine ⟨first, c₁, id?.toList ++ tries, hexecute, hasked, fun id => ?_⟩
  refine (count_le_one_or htries id? id).imp_right ?_
  rintro ⟨htwice, rfl, hmem⟩
  obtain ⟨a, ha, heq⟩ := List.mem_map.mp (Inference.mem_idsFor.mp (hsublist.subset hmem))
  obtain ⟨rfl, -⟩ := Prod.mk.inj heq
  obtain ⟨f, hf, hcannot⟩ := hretries.unnamed hkeys a ha
  exact ⟨htwice, rfl, hid? id rfl, f, (Outcomes.get?_eq_some_iff hkeys).mpr hf, hcannot⟩

/-- A provider that cannot infer its identifier from what the caller has is called with no
    identifier twice, although it still cannot infer it when it is called with the one that it has
    found. -/
theorem fetch_repeats_unnamed :
    let ldap : Provider := .custom
      { id := ⟨"ldap"⟩
        respond := fun _ r =>
          { ending := .returned (.ok (.record (.blank ⟨⟨"ldap"⟩, r.localId⟩))) } }
    let google : Provider := .custom
      { id := ⟨"google"⟩
        localId := fun external => .error (.cannotInferLocalId ⟨"google"⟩ external)
        localIdFrom := fun r => .ok r.localId
        respond := fun _ r =>
          { ending := .returned (.error (.cannotInferLocalId ⟨"google"⟩ r.localId)) } }
    let b : Blueprint := { providers := [ldap, google] }
    let c : Coordinator := { stations := b.providers.map b.station, engine := b.mergeEngine }
    c.Reachable b ∧ ∃ c' u ids, c.fetch 10 "jdoe" .all = (c', some u) ∧
      Asked c c' ⟨"google"⟩ ids ∧ ids.Nodup := by
  intro ldap google b c
  have hc : c.Reachable b := by
    refine ⟨fun p hp => ?_, c, rfl, .refl⟩
    rcases List.mem_cons.mp hp with rfl | hp
    · exact ⟨rfl, rfl⟩
    · obtain rfl := List.mem_singleton.mp hp
      exact ⟨rfl, rfl⟩
  have hsome : (c.fetch 10 "jdoe" .all).2.isSome = true := by cbv
  obtain ⟨u, hu⟩ := Option.isSome_iff_exists.mp hsome
  have hfetch : c.fetch 10 "jdoe" .all = ((c.fetch 10 "jdoe" .all).1, some u) := by rw [← hu]
  obtain ⟨first, c₁, ids, -, hasked, hcount⟩ := fetch_repeats hc hfetch ⟨"google"⟩
  refine ⟨hc, _, u, ids, hfetch, hasked, List.nodup_iff_count_le_one.mpr fun id => ?_⟩
  -- It was not called at first, so the exception does not apply to it.
  have hnot : c.calledWith? (Provider.localId "jdoe") ⟨"google"⟩ = none := rfl
  rcases hcount id with hone | ⟨-, -, hcalled, -⟩
  · exact hone
  · exact absurd (hnot.symm.trans hcalled) (Option.some_ne_none id).symm

/-- A provider is called twice with the identifier that the caller has given: at first, and then
    again as the record of the other one suggests it. -/
theorem fetch_asks_twice :
    let ldap : Provider := .custom
      { id := ⟨"ldap"⟩
        respond := fun _ r =>
          { ending := .returned (.ok (.record (.blank ⟨⟨"ldap"⟩, r.localId⟩))) } }
    let google : Provider := .custom
      { id := ⟨"google"⟩
        localIdFrom := fun r => .ok r.localId
        respond := fun _ r =>
          { ending := .returned (.error (.cannotInferLocalId ⟨"google"⟩ r.localId)) } }
    let b : Blueprint := { providers := [ldap, google] }
    let c : Coordinator := { stations := b.providers.map b.station, engine := b.mergeEngine }
    b.build = .ok c ∧ ∃ c' u, c.fetch 10 "jdoe" .all = (c', some u) ∧
      (c'.station? ⟨"google"⟩).bind (fun s => s.provider.seen?) =
        some [⟨.readAll, "jdoe"⟩, ⟨.readAll, "jdoe"⟩] := by
  intro ldap google b c
  have hsome : (c.fetch 10 "jdoe" .all).2.isSome = true := by cbv
  have hseen : ((c.fetch 10 "jdoe" .all).1.station? ⟨"google"⟩).bind (fun s => s.provider.seen?) =
      some [⟨.readAll, "jdoe"⟩, ⟨.readAll, "jdoe"⟩] := by
    cbv
  obtain ⟨u, hu⟩ := Option.isSome_iff_exists.mp hsome
  exact ⟨rfl, (c.fetch 10 "jdoe" .all).1, u, by rw [← hu], hseen⟩

end Coordinator

end Federation
