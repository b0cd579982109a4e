import Federation.Proofs.Coordinator.Reachable
import Federation.Proofs.Lists
import Federation.Proofs.Outcomes.History

/-!
# Fan-outs, from their launch to their outcomes

A fan-out makes one call to each target that can be called, whatever the other targets are, and
waits until all these calls have ended or are overdue.

## Key results

- `Targets.resolve_eq`: every target is addressed once, at its first place
- `begins_launchAll`: what happens to each target when a fan-out starts
- `entries_outcomes`: what its outcomes are when all results are known
- `wait_eq`, `wait_spec`: waiting for a fan-out comes to an end
- `Outcomes.entries_ofList`: results for different providers are all kept
-/

namespace Federation

/-! ## Targets -/

namespace Targets

/-- The providers as the caller lists them. -/
def listed (registered : List ProviderId) : Targets → List ProviderId
  | all => registered
  | only ps => ps

/-- The distinct targets are the listed ones without repetitions. -/
theorem distinct_eq (ps : List ProviderId) : distinct ps = ps.eraseDups := by
  unfold distinct
  rw [foldl_distinct]
  simp

/-- Without repetitions there is nothing to erase. -/
private theorem eraseDups_of_nodup {ps : List ProviderId} (h : ps.Nodup) : ps.eraseDups = ps := by
  induction ps with
  | nil => rfl
  | cons p ps ih =>
    obtain ⟨hp, hps⟩ := List.nodup_cons.mp h
    have hfilter : (ps.filter fun q => !q == p) = ps := by
      refine List.filter_eq_self.mpr fun q hq => ?_
      have hne : q ≠ p := fun he => hp (he ▸ hq)
      simp [hne]
    rw [List.eraseDups_cons, hfilter, ih hps]

/-- Every target is addressed once, at its first place. -/
theorem resolve_eq {registered : List ProviderId} (h : registered.Nodup) (t : Targets) :
    t.resolve registered = (t.listed registered).eraseDups := by
  cases t with
  | all => exact (eraseDups_of_nodup h).symm
  | only ps => exact distinct_eq ps

/-- Outcomes of which there is one for each target are for different providers. -/
theorem nodup_of_providers {α : Type} {out : Outcomes α} {registered : List ProviderId}
    (h : registered.Nodup) {t : Targets}
    (hout : out.providers = (t.listed registered).eraseDups) :
    (out.entries.map Prod.fst).Nodup := by
  show out.providers.Nodup
  rw [hout, ← resolve_eq h]
  exact nodup_resolve h t

end Targets

/-! ## Outcomes -/

namespace Outcomes

variable {α : Type}

/-- Entries for distinct providers are kept as they come. -/
private theorem foldl_insertNew {es : List (ProviderId × Except Fault α)} {s : Outcomes α}
    (h : (s.providers ++ es.map Prod.fst).Nodup) :
    (es.foldl (fun s e => s.insertNew e.1 e.2) s).entries = s.entries ++ es := by
  induction es generalizing s with
  | nil => rw [List.foldl_nil, List.append_nil]
  | cons e es ih =>
    have hnew : e.1 ∉ s.providers := fun hmem =>
      (List.nodup_append.mp h).2.2 e.1 hmem e.1 List.mem_cons_self rfl
    have hinsert := entries_insertNew hnew e.2
    rw [List.foldl_cons, ih, hinsert, List.append_assoc, List.singleton_append]
    rw [providers, hinsert, List.map_append, List.append_assoc]
    exact h

/-- Results for different providers are all kept, in their order. -/
theorem entries_ofList {es : List (ProviderId × Except Fault α)} (h : (es.map Prod.fst).Nodup) :
    (ofList es).entries = es :=
  foldl_insertNew h

/-- Where every provider has one entry, an entry is what is found for its provider. -/
theorem get?_eq_some_iff {s : Outcomes α} (h : s.providers.Nodup) {p : ProviderId}
    {r : Except Fault α} : s.get? p = some r ↔ (p, r) ∈ s.entries := by
  unfold get?
  rw [Option.map_eq_some_iff]
  constructor
  · rintro ⟨⟨q, x⟩, hfind, rfl⟩
    have hp := List.find?_some hfind
    obtain rfl : q = p := of_decide_eq_true hp
    exact List.mem_of_find?_eq_some hfind
  · intro hmem
    -- The entry found for the provider is the only one it has.
    cases hfind : s.entries.find? fun e => e.1 = p with
    | none => exact absurd (decide_eq_true rfl) (List.find?_eq_none.mp hfind _ hmem)
    | some e =>
      have hp := List.find?_some hfind
      have he := List.inj_on_of_nodup_map h (List.mem_of_find?_eq_some hfind) hmem
        (of_decide_eq_true hp)
      exact ⟨e, rfl, congrArg Prod.snd he⟩

end Outcomes

namespace Coordinator

open Roster (Ready Settled Accounted)

variable {c c' c'' : Coordinator}

/-! ## Launches -/

/-- The local identifier with which a target is called, or why it is not called. -/
def localIdAt (c : Coordinator) (o : Operation) (localId : Provider → Except Fault String)
    (target : ProviderId) : Except Fault String :=
  match c.station? target with
  | none => .error (.unknownProvider target)
  | some s =>
    if !s.capabilities.supports o then .error (.unsupportedOperation target o.name)
    else localId s.provider

/-- A target is only asked for what it supports, with a name it has been given. -/
theorem supports_of_localIdAt {o : Operation} {localId : Provider → Except Fault String}
    {target : ProviderId} {s : Station} {id : String} (hs : c.station? target = some s)
    (h : c.localIdAt o localId target = .ok id) :
    s.capabilities.supports o = true ∧ localId s.provider = .ok id := by
  unfold localIdAt at h
  rw [hs] at h
  dsimp only at h
  cases hsupports : s.capabilities.supports o with
  | false =>
    rw [hsupports] at h
    exact nomatch h
  | true =>
    rw [hsupports] at h
    exact ⟨rfl, h⟩

/-- What happens to one target when a fan-out starts. -/
inductive Begins (c c' : Coordinator) (o : Operation) (localId : Provider → Except Fault String)
    (target : ProviderId) : Batch.Entry → Prop
  | refused (f : Fault) (reason : c.localIdAt o localId target = .error f)
      (same : (c'.station? target).map Station.provider =
        (c.station? target).map Station.provider) :
      Begins c c' o localId target (.resolved target f)
  | called (s s' : Station) (id : String) (station : c.station? target = some s)
      (named : c.localIdAt o localId target = .ok id) (station' : c'.station? target = some s')
      (host : s'.provider = Host.submit s.roster.jobs.length ⟨o, id⟩ s.provider)
      (awaits : c'.Awaits ⟨s!"{o.name} on {target}", s.deadline, c.now⟩ ⟨o, id⟩
        (target, s.roster.jobs.length)) :
      Begins c c' o localId target (.launched target s.roster.jobs.length)

/-- Nothing but the collection of events happens to the station of a provider. -/
def Idle (p : ProviderId) (c c' : Coordinator) : Prop :=
  (c'.station? p).map Station.collected = (c.station? p).map Station.collected

/-- A station that is left alone twice is left alone. -/
theorem Idle.trans {p : ProviderId} (h : Idle p c c') (k : Idle p c' c'') : Idle p c c'' :=
  Eq.trans k h

/-- Both coordinators have left the station alone. -/
theorem Idle.symm {p : ProviderId} (h : Idle p c c') : Idle p c' c := Eq.symm h

/-- A station that is left alone has its provider, its jobs, its capabilities and its deadline. -/
theorem Idle.station? {p : ProviderId} {s : Station} (h : Idle p c c')
    (hs : c.station? p = some s) :
    ∃ s', c'.station? p = some s' ∧ s'.capabilities = s.capabilities ∧ s'.deadline = s.deadline ∧
      s'.provider = s.provider ∧ s'.roster.jobs = s.roster.jobs := by
  unfold Idle at h
  rw [hs, Option.map_some, Option.map_eq_some_iff] at h
  obtain ⟨s', hs', heq⟩ := h
  have hcapabilities : s'.collected.capabilities = s.collected.capabilities := by rw [heq]
  have hdeadline : s'.collected.deadline = s.collected.deadline := by rw [heq]
  have hprovider : s'.collected.provider = s.collected.provider := by rw [heq]
  have hjobs : s'.collected.roster.jobs = s.collected.roster.jobs := by rw [heq]
  exact ⟨s', hs', hcapabilities, hdeadline, hprovider, hjobs⟩

/-- No station appears where there was none. -/
theorem Idle.eq_none {p : ProviderId} (h : Idle p c c') (hs : c.station? p = none) :
    c'.station? p = none := by
  unfold Idle at h
  rw [hs, Option.map_none, Option.map_eq_none_iff] at h
  exact h

/-- A station that is left alone has its provider. -/
theorem Idle.provider {p : ProviderId} (h : Idle p c c') :
    (c'.station? p).map Station.provider = (c.station? p).map Station.provider := by
  cases hs : c.station? p with
  | none => rw [h.eq_none hs]
  | some s =>
    obtain ⟨s', hs', -, -, hprovider, -⟩ := h.station? hs
    rw [hs', Option.map_some, Option.map_some, hprovider]

/-- At a station that is left alone, the name of the user is the same. -/
theorem Idle.localIdAt {p : ProviderId} (h : Idle p c c') (o : Operation)
    (localId : Provider → Except Fault String) :
    c'.localIdAt o localId p = c.localIdAt o localId p := by
  unfold Coordinator.localIdAt
  cases hs : c.station? p with
  | none => rw [h.eq_none hs]
  | some s =>
    obtain ⟨s', hs', hcapabilities, -, hprovider, -⟩ := h.station? hs
    rw [hs']
    dsimp only
    rw [hcapabilities, hprovider]

/-- A target that has no name for the user, or may not be asked, is not called. -/
theorem launch_refused {o : Operation} {localId : Provider → Except Fault String}
    {target : ProviderId} {f : Fault} (h : c.localIdAt o localId target = .error f) :
    c.launch o localId target = (c, .resolved target f) := by
  unfold localIdAt at h
  unfold launch
  cases hs : c.station? target with
  | none =>
    rw [hs] at h
    obtain rfl := Except.error.inj h
    rfl
  | some s =>
    rw [hs] at h
    dsimp only at h ⊢
    -- The target may not be asked for that, or has no name for the user.
    by_cases hsupports : s.capabilities.supports o = true
    · rw [hsupports] at h ⊢
      have hlocal : localId s.provider = .error f := h
      simp only [Bool.not_true, Bool.false_eq_true, if_false, hlocal]
    · rw [Bool.not_eq_true] at hsupports
      rw [hsupports] at h ⊢
      obtain rfl := Except.error.inj h
      rfl

/-- A target that has a name for the user is called under it. -/
theorem launch_called {o : Operation} {localId : Provider → Except Fault String}
    {target : ProviderId} {id : String} (h : c.localIdAt o localId target = .ok id) :
    ∃ s, c.station? target = some s ∧
      c.launch o localId target =
        ((c.putStation target (s.launch c.now o id).1).collect,
          .launched target s.roster.jobs.length) := by
  unfold localIdAt at h
  unfold launch
  cases hs : c.station? target with
  | none =>
    rw [hs] at h
    exact nomatch h
  | some s =>
    rw [hs] at h
    refine ⟨s, rfl, ?_⟩
    dsimp only at h ⊢
    by_cases hsupports : s.capabilities.supports o = true
    · rw [hsupports] at h ⊢
      have hlocal : localId s.provider = .ok id := h
      simp only [Bool.not_true, Bool.false_eq_true, if_false, hlocal]
      rfl
    · rw [Bool.not_eq_true] at hsupports
      rw [hsupports] at h
      exact nomatch h

/-- A launch takes no time. -/
theorem now_launch (c : Coordinator) (o : Operation)
    (localId : Provider → Except Fault String) (target : ProviderId) :
    (c.launch o localId target).1.now = c.now := by
  cases h : c.localIdAt o localId target with
  | error f => rw [launch_refused h]
  | ok id =>
    obtain ⟨s, -, hlaunch⟩ := launch_called h
    rw [hlaunch]
    rfl

/-- The stations after one of them was replaced. -/
theorem station?_put {t : ProviderId} {s : Station} (hs : s.id = t) (p : ProviderId)
    (c : Coordinator) :
    (c.putStation t s).collect.station? p =
      (c.station? p).map fun x => (if x.id = t then s else x).collected := by
  have hstations : (c.putStation t s).collect.stations =
      c.stations.map fun x => (if x.id = t then s else x).collected := by
    simp only [collect, putStation, List.map_map, Function.comp_def]
  -- Collecting events and putting a station in its own place keep the names of all stations.
  have hid : ∀ x : Station, (if x.id = t then s else x).collected.id = x.id := by
    intro x
    by_cases hx : x.id = t
    · rw [if_pos hx, hx]
      exact hs
    · rw [if_neg hx]
      rfl
  unfold Coordinator.station?
  rw [hstations, List.find?_map]
  refine congrArg _ (List.find?_congr fun x _ => ?_)
  rw [Function.comp_apply, hid]

/-- A launch leaves the other targets alone. -/
theorem idle_launch {p target : ProviderId} (hp : p ≠ target) (c : Coordinator) (o : Operation)
    (localId : Provider → Except Fault String) : Idle p c (c.launch o localId target).1 := by
  cases h : c.localIdAt o localId target with
  | error f =>
    rw [launch_refused h]
    exact rfl
  | ok id =>
    obtain ⟨s, hs, hlaunch⟩ := launch_called h
    have hid' : (s.launch c.now o id).1.id = target :=
      (Station.id_launch c.now o id s).trans (station?_eq_some hs).2
    rw [hlaunch]
    unfold Idle
    rw [station?_put hid', Option.map_map]
    -- The station in question is not the one that was replaced.
    cases hx : c.station? p with
    | none => rfl
    | some x =>
      have hne : x.id ≠ target := by
        rw [(station?_eq_some hx).2]
        exact hp
      simp only [Option.map_some, Function.comp_apply, if_neg hne]
      rfl

/-- What a launch does to its target. -/
theorem begins_launch (hc : c.Sound) (o : Operation) (localId : Provider → Except Fault String)
    (target : ProviderId) :
    Begins c (c.launch o localId target).1 o localId target (c.launch o localId target).2 := by
  cases h : c.localIdAt o localId target with
  | error f =>
    rw [launch_refused h]
    exact .refused f h rfl
  | ok id =>
    obtain ⟨s, hs, hlaunch⟩ := launch_called h
    obtain ⟨hmem, hid⟩ := station?_eq_some hs
    have hready := hc.ready s hmem
    have hid' : (s.launch c.now o id).1.id = target :=
      (Station.id_launch c.now o id s).trans hid
    -- The target has the station that made the call, and its events are collected.
    have hs' : ((c.putStation target (s.launch c.now o id).1).collect).station? target =
        some (s.launch c.now o id).1.collected := by
      rw [station?_put hid', hs, Option.map_some, if_pos hid]
    rw [hlaunch]
    refine .called s _ id hs h hs' (Station.provider_launch c.now o id s) ⟨_, hs', ?_⟩
    rw [← hid]
    exact (Station.awaits_launch hready o id).collected

/-- What has begun at a target is not undone by others. -/
theorem Begins.later {o : Operation} {localId : Provider → Except Fault String}
    {target : ProviderId} {e : Batch.Entry} (h : Begins c c' o localId target e)
    (idle : Idle target c' c'')
    (awaits : ∀ terms request job, c'.Awaits terms request job → c''.Awaits terms request job) :
    Begins c c'' o localId target e := by
  cases h with
  | refused f reason same => exact .refused f reason (idle.provider.trans same)
  | called s s' id station named station' host ha =>
    obtain ⟨s'', hs'', -, -, hprovider, -⟩ := idle.station? station'
    exact .called s s'' id station named hs'' (hprovider.trans host) (awaits _ _ _ ha)

/-- What begins at a target begins there whatever others have done before. -/
theorem Begins.earlier {o : Operation} {localId : Provider → Except Fault String}
    {target : ProviderId} {e : Batch.Entry} (h : Begins c' c'' o localId target e)
    (idle : Idle target c c') (now : c'.now = c.now) : Begins c c'' o localId target e := by
  cases h with
  | refused f reason same =>
    exact .refused f ((idle.localIdAt o localId).symm.trans reason) (same.trans idle.provider)
  | called s s' id station named station' host ha =>
    obtain ⟨s₀, hs₀, -, hdeadline, hprovider, hjobs⟩ := idle.symm.station? station
    rw [← hjobs, ← hprovider] at host
    rw [← hjobs, ← hdeadline, now] at ha
    rw [← hjobs]
    exact .called s₀ s' id hs₀ ((idle.localIdAt o localId).symm.trans named) station' host ha

/-- Launches are steps of the coordinator. -/
theorem steps_launchAll (kept : ProviderId × Nat → Prop) (o : Operation)
    (xs : List (ProviderId × (Provider → Except Fault String))) (c : Coordinator) :
    Steps kept c (launchAll o xs c).1 := by
  induction xs generalizing c with
  | nil => exact .refl
  | cons x xs ih =>
    obtain ⟨target, localId⟩ := x
    exact .head (.launch o localId target c) (ih (c.launch o localId target).1)

/-- Launches on other targets leave a station alone. -/
theorem idle_launchAll {p : ProviderId} (o : Operation)
    {xs : List (ProviderId × (Provider → Except Fault String))} (hp : p ∉ xs.map Prod.fst)
    (c : Coordinator) : Idle p c (launchAll o xs c).1 := by
  induction xs generalizing c with
  | nil => exact rfl
  | cons x xs ih =>
    obtain ⟨target, localId⟩ := x
    rw [List.map_cons, List.mem_cons, not_or] at hp
    exact (idle_launch hp.1 c o localId).trans (ih hp.2 _)

/-- What happens when a fan-out starts: each target is called once, or not at all, whatever happens
    to the others. -/
theorem begins_launchAll (o : Operation)
    {xs : List (ProviderId × (Provider → Except Fault String))} (hxs : (xs.map Prod.fst).Nodup)
    (hc : c.Sound) :
    List.Forall₂ (fun x e => Begins c (launchAll o xs c).1 o x.2 x.1 e) xs
      (launchAll o xs c).2 := by
  induction xs generalizing c with
  | nil => exact .nil
  | cons x xs ih =>
    obtain ⟨target, localId⟩ := x
    obtain ⟨htarget, hrest⟩ := List.nodup_cons.mp hxs
    have hc' := (evolves_launch (fun _ => False) hc o localId target).sound hc
    -- The first target is not called again, and the other ones have not been touched before.
    refine .cons ?_ ?_
    · refine (begins_launch hc o localId target).later (idle_launchAll o htarget _) ?_
      intro terms request job ha
      have hsteps := steps_launchAll (fun _ => True) o xs (c.launch o localId target).1
      exact (hsteps.evolves hc').awaits trivial ha
    · have hne : ∀ x ∈ xs, x.1 ≠ target := by
        rintro x hx rfl
        exact htarget (List.mem_map.mpr ⟨x, hx, rfl⟩)
      refine ((List.forall₂_and_left xs _).mpr ⟨hne, ih hrest hc'⟩).imp fun x e h => ?_
      exact h.2.earlier (idle_launch h.1 c o localId) (now_launch c o localId target)

/-- The jobs of a fan-out are on their way. -/
theorem awaits_of_begins {o : Operation}
    {xs : List (ProviderId × (Provider → Except Fault String))} {es : List Batch.Entry}
    (h : List.Forall₂ (fun x e => Begins c c' o x.2 x.1 e) xs es) :
    ∀ job ∈ Batch.jobs ⟨o.name, es⟩, ∃ terms request, c'.Awaits terms request job := by
  induction h with
  | nil => exact nofun
  | @cons x e xs es hx _ ih =>
    intro job hjob
    obtain ⟨e', he', hjob'⟩ := List.mem_filterMap.mp hjob
    rcases List.mem_cons.mp he' with rfl | he'
    · cases hx with
      | refused => exact nomatch hjob'
      | called s s₁ id _ _ _ _ ha =>
        obtain rfl := Option.some.inj hjob'
        exact ⟨_, _, ha⟩
    · exact ih job (List.mem_filterMap.mpr ⟨e', he', hjob'⟩)

/-- A fan-out is a list of launches whose targets are distinct. -/
theorem launches_of_start {o : Operation} {external : String} {targets : Targets} {b : Batch}
    (hc : c.Sound) (started : c.start o external targets = (c', b)) :
    ∃ xs : List (ProviderId × (Provider → Except Fault String)),
      xs.map Prod.fst = (targets.listed c.ids).eraseDups ∧ (xs.map Prod.fst).Nodup ∧
        (∀ x ∈ xs, x.2 = Provider.localId external) ∧ launchAll o xs c = (c', b.entries) ∧
        b = ⟨o.name, b.entries⟩ := by
  let xs := (targets.resolve c.ids).map fun p => (p, Provider.localId external)
  have hkeys : xs.map Prod.fst = targets.resolve c.ids := by
    rw [List.map_map]
    exact List.map_id _
  -- The targets are resolved before anything is launched, so the list does not depend on the
  -- launches.
  refine ⟨xs, ?_, ?_, ?_, ?_⟩
  · rw [hkeys, Targets.resolve_eq hc.nodup]
  · rw [hkeys]
    exact Targets.nodup_resolve hc.nodup targets
  · intro x hx
    obtain ⟨p, -, rfl⟩ := List.mem_map.mp hx
    rfl
  · unfold start at started
    cases started
    exact ⟨rfl, rfl⟩

/-! ## Results -/

/-- Entries that all have results lose none of them. -/
private theorem forall₂_results {α : Type} {key : α → ProviderId}
    {result? : Batch.Entry → Option (Except Fault Output)} {R : α → Except Fault Output → Prop}
    {xs : List α} {es : List Batch.Entry}
    (h : List.Forall₂ (fun x e => ∃ r, result? e = some r ∧ e.provider = key x ∧ R x r) xs es) :
    List.Forall₂ (fun x e => e.1 = key x ∧ R x e.2) xs
      (es.filterMap fun e => (result? e).map fun r => (e.provider, r)) := by
  induction h with
  | nil => exact .nil
  | cons hx _ ih =>
    obtain ⟨r, hr, hp, hR⟩ := hx
    rw [List.filterMap_cons, hr]
    exact .cons ⟨hp, hR⟩ ih

/-- If all results of a fan-out are known, its outcomes are these. -/
theorem entries_outcomes {α : Type} (operation : String)
    {R : ProviderId × α → Except Fault Output → Prop} {xs : List (ProviderId × α)}
    {es : List Batch.Entry} (hxs : (xs.map Prod.fst).Nodup)
    (h : List.Forall₂ (fun x e => ∃ r, c.result? e = some r ∧ e.provider = x.1 ∧ R x r) xs es) :
    List.Forall₂ (fun x e => e.1 = x.1 ∧ R x e.2) xs (c.outcomes ⟨operation, es⟩).entries := by
  have hresults := forall₂_results h
  unfold outcomes
  rw [Outcomes.entries_ofList (by rw [map_eq_of_forall₂ hresults]; exact hxs)]
  exact hresults

/-! ## Waiting -/

/-- What one has waited for does not depend on how long one was ready to wait. -/
theorem wait_mono {limit limit' : Nat} {b : Batch} {o : Outcomes Output}
    (h : c.wait limit b = (c', some o)) (hle : limit ≤ limit') :
    c.wait limit' b = (c', some o) := by
  unfold Coordinator.wait await at h ⊢
  cases hmeet : Timed.meeting? b.isDoneAt limit c.settle.now c.settle.stations with
  | none =>
    simp only [hmeet] at h
    exact nomatch (Prod.mk.inj h).2
  | some t =>
    simp only [hmeet] at h
    simp only [Timed.meeting?_mono hmeet hle]
    exact h

/-- Waiting has one result, however much patience there is. -/
theorem eq_of_wait {limit t : Nat} {b : Batch} {o o' : Outcomes Output}
    (h : c.wait limit b = (c', some o))
    (h' : ∀ limit, t ≤ limit → c.wait limit b = (c'', some o')) : c' = c'' ∧ o = o' := by
  have heq := (wait_mono h (Nat.le_max_left limit t)).symm.trans (h' _ (Nat.le_max_right limit t))
  obtain ⟨rfl, ho⟩ := Prod.mk.inj heq
  exact ⟨rfl, Option.some.inj ho⟩

/-- A fan-out has one result, however much patience there is. -/
theorem eq_of_execute {limit t : Nat} {o : Operation} {external : String} {targets : Targets}
    {out out' : Outcomes Output} (h : c.execute limit o external targets = (c', some out))
    (h' : ∀ limit, t ≤ limit → c.execute limit o external targets = (c'', some out')) :
    c' = c'' ∧ out = out' := by
  unfold execute at h h'
  exact eq_of_wait h h'

/-- A station is done with a fan-out when its jobs are closed, if these are the jobs that have
    published their outcomes. -/
theorem isDoneAt_iff {b : Batch} {s : Station}
    (h : ∀ i, (s.id, i) ∈ b.jobs → (s.roster.hasPublished i = true ↔ ¬s.roster.IsOpen i)) :
    b.isDoneAt s = true ↔ ∀ i, (s.id, i) ∈ b.jobs → ¬s.roster.IsOpen i := by
  unfold Batch.isDoneAt
  rw [List.all_eq_true]
  constructor
  · intro hall i hi
    have hpub := hall (s.id, i) hi
    rw [Bool.or_eq_true] at hpub
    rcases hpub with hne | hpub
    · exact absurd rfl (of_decide_eq_true hne)
    · exact (h i hi).mp hpub
  -- Jobs of other stations do not matter here.
  · rintro hall ⟨p, i⟩ hi
    rw [Bool.or_eq_true]
    by_cases hp : s.id = p
    · subst hp
      exact .inr ((h i hi).mpr (hall i hi))
    · exact .inl (decide_eq_true hp)

/-- Waiting for a fan-out comes to an end if the stations that have settled have a property that they
    keep in time, and that makes them done with the fan-out exactly when its jobs are closed. -/
theorem wait_closes {b : Batch} {A : Nat → Station → Prop} (steady : Timed.Steady A)
    (settled : ∀ {now s}, A now s → Settled now s.roster)
    (done : ∀ {now s}, A now s →
      (b.isDoneAt s = true ↔ ∀ i, (s.id, i) ∈ b.jobs → ¬s.roster.IsOpen i))
    (hA : ∀ s ∈ c.settle.stations, A c.now s) :
    ∃ t, c.now ≤ t ∧
      (∀ limit, t ≤ limit → c.wait limit b =
        ((c.settle.advanceTo t).tell [.completed (summary ((c.settle.advanceTo t).outcomes b))],
          some ((c.settle.advanceTo t).outcomes b))) ∧
      ∀ s ∈ (c.settle.advanceTo t).stations, ∀ i, (s.id, i) ∈ b.jobs → ¬s.roster.IsOpen i := by
  -- Something is due at a station as long as it is not done with the fan-out.
  have due : ∀ now s, A now s → b.isDoneAt s = false → ∃ t, Timed.next? s = some t := by
    intro now s h hstop
    by_contra hnone
    refine Bool.false_ne_true (hstop.symm.trans ((done h).mpr fun i _ hopen => ?_))
    exact hnone ((settled h).next? hopen)
  obtain ⟨t, hnow, hmeet, hstops⟩ := steady.meeting?_eq due hA
  refine ⟨t, hnow, fun limit hl => ?_, fun s hs i hi => ?_⟩
  -- The machines meet at `t`, however long one is ready to wait.
  · have hawait : c.await b.isDoneAt limit = (c.settle.advanceTo t, true) := by
      have hmeet' : Timed.meeting? b.isDoneAt limit c.settle.now c.settle.stations = some t :=
        hmeet limit hl
      unfold await
      simp only [hmeet']
    unfold wait
    rw [hawait]
  · simp only [advanceTo, Timed.advanceAll, collect, List.map_map] at hs
    obtain ⟨s₁, hs₁, rfl⟩ := List.mem_map.mp hs
    -- The station was done before `t`, and jobs that are closed stay so.
    obtain ⟨u, k, hm, hdone, hle⟩ := hstops s₁ hs₁
    obtain ⟨v, hm', -⟩ := steady.advanceTo_of_moves (hA s₁ hs₁) hm hle
    have hk := (steady.moves (hA s₁ hs₁) hm).1
    have hidk : (Timed.advanceTo t s₁).id = k.id :=
      Station.id_eq_of_profile (Station.moves hm').2
    have hclosed := (done hk).mp hdone i (hidk ▸ hi)
    have hlater := (settled hk).later_of_moves (Station.moves hm').1
    exact fun hopen => hclosed (hlater.isOpen_of hopen)

/-- Waiting for a fan-out whose jobs are accounted for comes to an end, and then all of them are
    closed. -/
theorem wait_eq {b : Batch} (hc : c.Sound)
    (hb : ∀ s ∈ c.stations, ∀ i, (s.id, i) ∈ b.jobs → Accounted i c.now s.roster) :
    ∃ t, c.now ≤ t ∧
      (∀ limit, t ≤ limit → c.wait limit b =
        ((c.settle.advanceTo t).tell [.completed (summary ((c.settle.advanceTo t).outcomes b))],
          some ((c.settle.advanceTo t).outcomes b))) ∧
      ∀ s ∈ (c.settle.advanceTo t).stations, ∀ i, (s.id, i) ∈ b.jobs → ¬s.roster.IsOpen i := by
  refine wait_closes (Station.steady fun p i => (p, i) ∈ b.jobs) (fun h => h.settled)
    (fun h => isDoneAt_iff fun i hi => (h.accounted i hi).hasPublished_iff) fun s hs => ?_
  -- Settling comes first; after it, every job of the fan-out is still accounted for.
  refine ⟨hc.settled hs, fun i hi => ?_⟩
  simp only [settle, collect, List.map_map] at hs
  obtain ⟨s₀, hs₀, rfl⟩ := List.mem_map.mp hs
  have hid : (Timed.settle c.now s₀).id = s₀.id :=
    Station.id_eq_of_profile (Station.profile_settle c.now s₀)
  have hacc := hb s₀ hs₀ i (hid ▸ hi)
  exact (hacc.settle (hc.ready s₀ hs₀)).withLog []

/-- Waiting for a fan-out comes to an end, unless one of its actions is cancelled; then all of them
    are closed. -/
theorem wait_spec {b : Batch} (kept : ProviderId × Nat → Prop) (hc : c.Sound)
    (hb : ∀ job ∈ b.jobs, ∃ terms request, c.Awaits terms request job) :
    ∃ t c', c.now ≤ t ∧ Steps kept c c' ∧
      (∀ limit, t ≤ limit → c.wait limit b = (c', some (c'.outcomes b))) ∧
      ∀ job ∈ b.jobs, ∀ s, c'.station? job.1 = some s → ¬s.roster.IsOpen job.2 := by
  obtain ⟨t, hnow, hwait, hclosed⟩ := wait_eq hc (b := b) fun s hs i hi => by
    obtain ⟨terms, request, s', hs', ha⟩ := hb (s.id, i) hi
    obtain rfl := Option.some.inj ((hc.station?_id hs).symm.trans hs')
    exact .inl ⟨terms, ha.tracked⟩
  refine ⟨t, _, hnow, .tail (.single (.pass t c hnow)) (.tell _ _), hwait, ?_⟩
  intro job hjob s hs
  obtain ⟨hmem, hid⟩ := station?_eq_some (c := c.settle.advanceTo t) hs
  exact hclosed s hmem job.2 (hid ▸ hjob)

end Coordinator

end Federation
