import Federation.Coordinator.Batch
import Federation.Proofs.Coordinator.Blueprint
import Federation.Proofs.Coordinator.Station
import Mathlib.Data.List.Find
import Mathlib.Data.List.Nodup
import Mathlib.Logic.Relation

/-!
# Coordinators in time

A coordinator that was built can be used in any way: operations are launched and cancelled in any
order, the servers of directories change, and time passes.

## Key results

- `Step.evolves`: what a step does to each station
- `Evolves.awaits`: nothing becomes of a job because of what is done to others
- `Reachable.sound`, `Reachable.station?`: what holds at any time of a coordinator that was built
-/

namespace Federation.Coordinator

open Station (Goes)
open Roster (Ready Settled)

variable {c c' c'' : Coordinator} {kept : ProviderId × Nat → Prop}

/-! ## Stations by their names -/

/-- A station that is found is one of the coordinator and has the name that was looked for. -/
theorem station?_eq_some {p : ProviderId} {s : Station} (h : c.station? p = some s) :
    s ∈ c.stations ∧ s.id = p := by
  have hp := List.find?_some h
  exact ⟨List.mem_of_find?_eq_some h, of_decide_eq_true hp⟩

/-- No station is found exactly for the providers that are not known. -/
theorem station?_eq_none_iff {p : ProviderId} : c.station? p = none ↔ p ∉ c.ids := by
  unfold station? ids
  rw [List.find?_eq_none, List.mem_map]
  constructor
  · rintro h ⟨s, hs, rfl⟩
    exact h s hs (decide_eq_true rfl)
  · intro h s hs hp
    exact h ⟨s, hs, of_decide_eq_true hp⟩

/-- What holds between any two steps. -/
structure Sound (c : Coordinator) : Prop where
  nodup : c.ids.Nodup
  ready : ∀ s ∈ c.stations, Ready c.now s.roster

/-- A station of a sound coordinator is found by its name. -/
theorem Sound.station?_id (h : c.Sound) {s : Station} (hs : s ∈ c.stations) :
    c.station? s.id = some s :=
  station?_id_of_nodup h.nodup hs

/-! ## Steps -/

/-- What may happen to a coordinator, if no job is cancelled that is to be kept. -/
inductive Step (kept : ProviderId × Nat → Prop) : Coordinator → Coordinator → Prop
  | launch (o : Operation) (localId : Provider → Except Fault String) (target : ProviderId)
      (c : Coordinator) : Step kept c (c.launch o localId target).1
  | cancel (job : ProviderId × Nat) (c : Coordinator) (h : ¬kept job) :
      Step kept c (c.cancelOne job).1
  /-- Something is done to the server of a directory. -/
  | serve (p : ProviderId) (f : Directory.Server → Directory.Server) (c : Coordinator) :
      Step kept c (c.mapStation p (Station.mapDirectory (Directory.mapServer f)))
  | settle (c : Coordinator) : Step kept c c.settle
  | pass (t : Nat) (c : Coordinator) (h : c.now ≤ t) : Step kept c (c.settle.advanceTo t)
  | tell (es : List Event) (c : Coordinator) : Step kept c (c.tell es)

/-- What may happen in any number of steps. -/
def Steps (kept : ProviderId × Nat → Prop) : Coordinator → Coordinator → Prop :=
  Relation.ReflTransGen (Step kept)

/-- Every station goes on in its own way. -/
structure Evolves (kept : ProviderId × Nat → Prop) (c c' : Coordinator) : Prop where
  now_le : c.now ≤ c'.now
  engine : c'.engine = c.engine
  stations : ∃ f : Station → Station, c'.stations = c.stations.map f ∧
    ∀ s ∈ c.stations, Goes (fun i => kept (s.id, i)) c.now c'.now s (f s)

/-- Every station may stay as it is. -/
theorem Evolves.refl (kept : ProviderId × Nat → Prop) (h : c.Sound) : Evolves kept c c :=
  ⟨Nat.le_refl _, rfl, id, (List.map_id _).symm, fun s hs => .refl _ (h.ready s hs)⟩

/-- Every station goes on in its own way, twice. -/
theorem Evolves.trans (h : Evolves kept c c') (k : Evolves kept c' c'') : Evolves kept c c'' := by
  obtain ⟨f, hf, hgoes⟩ := h.stations
  obtain ⟨g, hg, hgoes'⟩ := k.stations
  refine ⟨Nat.le_trans h.now_le k.now_le, k.engine.trans h.engine, g ∘ f, ?_, fun s hs => ?_⟩
  · rw [hg, hf, List.map_map]
  · have hs' : f s ∈ c'.stations := hf ▸ List.mem_map_of_mem hs
    have hk := hgoes' (f s) hs'
    rw [Station.id_eq_of_profile (hgoes s hs).profile] at hk
    exact (hgoes s hs).trans hk

/-- Stations that go on without some jobs being cancelled go on. -/
theorem Evolves.mono {kept' : ProviderId × Nat → Prop} (h : Evolves kept c c')
    (hkept : ∀ job, kept' job → kept job) : Evolves kept' c c' := by
  obtain ⟨f, hf, hgoes⟩ := h.stations
  exact ⟨h.now_le, h.engine, f, hf, fun s hs => (hgoes s hs).mono fun i => hkept (s.id, i)⟩

/-- The same providers are known, however stations go on. -/
theorem Evolves.ids (h : Evolves kept c c') : c'.ids = c.ids := by
  obtain ⟨f, hf, hgoes⟩ := h.stations
  unfold Coordinator.ids
  rw [hf, List.map_map]
  exact List.map_congr_left fun s hs => Station.id_eq_of_profile (hgoes s hs).profile

/-- A coordinator stays sound as its stations go on. -/
theorem Evolves.sound (h : Evolves kept c c') (hc : c.Sound) : c'.Sound := by
  obtain ⟨f, hf, hgoes⟩ := h.stations
  refine ⟨h.ids ▸ hc.nodup, fun s' hs' => ?_⟩
  rw [hf] at hs'
  obtain ⟨s, hs, rfl⟩ := List.mem_map.mp hs'
  exact (hgoes s hs).ready

/-- A station is found again. -/
theorem Evolves.station? (h : Evolves kept c c') (p : ProviderId) :
    (c.station? p = none ∧ c'.station? p = none) ∨
      ∃ s s', c.station? p = some s ∧ c'.station? p = some s' ∧
        Goes (fun i => kept (p, i)) c.now c'.now s s' := by
  obtain ⟨f, hf, hgoes⟩ := h.stations
  -- Stations keep their names, so the look-up finds the same one.
  have hfind : c'.station? p = (c.station? p).map f := by
    unfold Coordinator.station?
    rw [hf, List.find?_map, List.find?_congr fun s hs => ?_]
    rw [Function.comp_apply, Station.id_eq_of_profile (hgoes s hs).profile]
  cases hs : c.station? p with
  | none => exact .inl ⟨rfl, by rw [hfind, hs]; rfl⟩
  | some s =>
    obtain ⟨hmem, rfl⟩ := station?_eq_some hs
    exact .inr ⟨s, f s, rfl, by rw [hfind, hs]; rfl, hgoes s hmem⟩

/-! ## What a step does -/

/-- One station does something, and the events of all of them are collected. -/
private theorem evolves_put {p : ProviderId} {s s' : Station} (hc : c.Sound)
    (hs : c.station? p = some s) (h : Goes (fun i => kept (p, i)) c.now c.now s s') :
    Evolves kept c (c.putStation p s').collect := by
  refine ⟨Nat.le_refl _, rfl, fun x => (if x.id = p then s' else x).collected, ?_, fun x hx => ?_⟩
  · simp only [collect, putStation, List.map_map, Function.comp_def]
  -- Names are unique, so the station that is replaced is the one that was found.
  · by_cases hid : x.id = p
    · obtain rfl : x = s := by
        rw [← hid, hc.station?_id hx] at hs
        exact Option.some.inj hs
      subst hid
      show Goes _ _ _ x (if x.id = x.id then s' else x).collected
      rw [if_pos rfl]
      exact h.collected
    · show Goes _ _ _ x (if x.id = p then s' else x).collected
      rw [if_neg hid]
      exact (Goes.refl _ (hc.ready x hx)).collected

/-- A launch lets every station go on. -/
theorem evolves_launch (kept : ProviderId × Nat → Prop) (hc : c.Sound) (o : Operation)
    (localId : Provider → Except Fault String) (target : ProviderId) :
    Evolves kept c (c.launch o localId target).1 := by
  unfold launch
  -- Only a call that is made changes anything, and it changes the station of the target.
  cases hs : c.station? target with
  | none => exact .refl kept hc
  | some s =>
    obtain ⟨hmem, hid⟩ := station?_eq_some hs
    dsimp only
    split
    · exact .refl kept hc
    · split
      · exact .refl kept hc
      · next id hlocal => exact evolves_put hc hs (.launch _ (hc.ready s hmem) o id)

/-- A cancellation of a job that is not kept lets every station go on. -/
theorem evolves_cancelOne {job : ProviderId × Nat} (hc : c.Sound) (h : ¬kept job) :
    Evolves kept c (c.cancelOne job).1 := by
  unfold cancelOne
  cases hs : c.station? job.1 with
  | none => exact .refl kept hc
  | some s =>
    obtain ⟨hmem, hid⟩ := station?_eq_some hs
    exact evolves_put hc hs (.cancel (hc.ready s hmem) h)

/-- A change from outside lets every station go on. -/
theorem evolves_serve (kept : ProviderId × Nat → Prop) (hc : c.Sound) (p : ProviderId)
    (f : Directory.Server → Directory.Server) :
    Evolves kept c (c.mapStation p (Station.mapDirectory (Directory.mapServer f))) := by
  refine ⟨Nat.le_refl _, rfl, _, rfl, fun s hs => ?_⟩
  by_cases hid : s.id = p
  · rw [if_pos hid]
    exact .serve _ (hc.ready s hs) f
  · rw [if_neg hid]
    exact .refl _ (hc.ready s hs)

/-- Settling lets every station go on. -/
theorem evolves_settle (kept : ProviderId × Nat → Prop) (hc : c.Sound) :
    Evolves kept c c.settle := by
  refine ⟨Nat.le_refl _, rfl, fun s => (Timed.settle c.now s).collected, ?_, fun s hs => ?_⟩
  · simp only [settle, collect, List.map_map, Function.comp_def]
  · exact (Goes.settle _ (hc.ready s hs)).collected

/-- When a coordinator has settled, so have its stations. -/
theorem Sound.settled (hc : c.Sound) {s : Station} (hs : s ∈ c.settle.stations) :
    Settled c.now s.roster := by
  simp only [settle, collect, List.map_map] at hs
  obtain ⟨t, ht, rfl⟩ := List.mem_map.mp hs
  exact (hc.ready t ht).settle.1.withLog []

/-- Time lets every station go on. -/
theorem evolves_pass (kept : ProviderId × Nat → Prop) (hc : c.Sound) {t : Nat} (h : c.now ≤ t) :
    Evolves kept c (c.settle.advanceTo t) := by
  refine (evolves_settle kept hc).trans
    ⟨h, rfl, fun s => (Timed.advanceTo t s).collected, ?_, fun s hs => ?_⟩
  · simp only [advanceTo, Timed.advanceAll, collect, List.map_map, Function.comp_def]
  · exact (Goes.advanceTo _ (hc.settled hs) h).collected

/-- Every step lets every station go on in its own way. -/
theorem Step.evolves (h : Step kept c c') (hc : c.Sound) : Evolves kept c c' := by
  cases h with
  | launch o localId target => exact evolves_launch kept hc o localId target
  | cancel job _ h => exact evolves_cancelOne hc h
  | serve p f => exact evolves_serve kept hc p f
  | settle => exact evolves_settle kept hc
  | pass t _ h => exact evolves_pass kept hc h
  | tell es =>
    exact ⟨Nat.le_refl _, rfl, id, (List.map_id _).symm, fun s hs => .refl _ (hc.ready s hs)⟩

/-- Whatever is done, every station goes on in its own way. -/
theorem Steps.evolves (h : Steps kept c c') (hc : c.Sound) : Evolves kept c c' := by
  -- Induction on the steps, where soundness carries over from one to the next.
  induction h with
  | refl => exact .refl kept hc
  | tail _ step ih => exact ih.trans (step.evolves (ih.sound hc))

/-! ## Jobs -/

/-- What becomes of a job that was launched on some terms and that nobody cancels. -/
def Awaits (c : Coordinator) (terms : Terms) (request : Request) (job : ProviderId × Nat) : Prop :=
  ∃ s, c.station? job.1 = some s ∧ s.Awaits terms request job.2 c.now

/-- What a caller waits for is on its way as long as it is kept. -/
theorem Evolves.awaits (h : Evolves kept c c') {terms : Terms} {request : Request}
    {job : ProviderId × Nat} (hjob : kept job) (ha : c.Awaits terms request job) :
    c'.Awaits terms request job := by
  obtain ⟨s, hs, ha⟩ := ha
  rcases h.station? job.1 with ⟨hnone, -⟩ | ⟨t, t', hsame, hs', hgoes⟩
  · exact nomatch hs.symm.trans hnone
  · obtain rfl := Option.some.inj (hs.symm.trans hsame)
    exact ⟨t', hs', hgoes.awaits terms request job.2 hjob ha⟩

/-! ## Coordinators that were built -/

/-- Whether a coordinator has come from a blueprint, whose providers had not been called. -/
structure Reachable (b : Blueprint) (c : Coordinator) : Prop where
  fresh : ∀ p ∈ b.providers, p.IsFresh
  built : ∃ c₀, b.build = .ok c₀ ∧ Steps (fun _ => False) c₀ c

/-- The station of a provider that has not been called has no jobs, so nothing is in progress. -/
theorem ready_station {b : Blueprint} {p : Provider} (hfresh : p.IsFresh) (now : Nat) :
    Ready now (b.station p).roster := by
  obtain ⟨hsound, hlive, hended⟩ := Provider.spec_of_isFresh hfresh
  have hjobs : ∀ j, j ∉ (b.station p).roster.jobs := fun j hj => nomatch hj
  refine ⟨⟨hsound, fun i hi => absurd hi (hlive i), fun i _ => hended i, ?isWatched⟩, ?ahead, ?live⟩
  case isWatched => exact fun j hj => absurd hj (hjobs j)
  case ahead => exact fun j hj => absurd hj (hjobs j)
  case live =>
    rintro i ⟨j, hj, -⟩
    exact absurd (List.mem_of_getElem? hj) (hjobs j)

/-- What holds of a coordinator that has just been built. -/
theorem sound_of_build {b : Blueprint} (hfresh : ∀ p ∈ b.providers, p.IsFresh)
    (h : b.build = .ok c) : c.Sound := by
  have hids := Blueprint.build_ids h
  obtain ⟨hproblem, rfl⟩ := Blueprint.build_eq_ok_iff.mp h
  refine ⟨?_, fun s hs => ?_⟩
  · rw [hids]
    exact (Blueprint.problem?_eq_none_iff.mp hproblem).2.1
  · obtain ⟨p, hp, rfl⟩ := List.mem_map.mp hs
    exact ready_station (hfresh p hp) _

/-- A coordinator can be relied upon at any time. -/
theorem Reachable.sound {b : Blueprint} (h : c.Reachable b) : c.Sound := by
  obtain ⟨c₀, hbuild, hsteps⟩ := h.built
  have hc₀ := sound_of_build h.fresh hbuild
  exact (hsteps.evolves hc₀).sound hc₀

/-- A coordinator knows the providers of its blueprint. -/
theorem Reachable.ids {b : Blueprint} (h : c.Reachable b) :
    c.ids = b.providers.map Provider.id := by
  obtain ⟨c₀, hbuild, hsteps⟩ := h.built
  rw [(hsteps.evolves (sound_of_build h.fresh hbuild)).ids, Blueprint.build_ids hbuild]

/-- Whether a station is what a blueprint makes of a provider. -/
structure Follows (b : Blueprint) (q : Provider) (s : Station) : Prop where
  capabilities : s.capabilities = b.capabilitiesOf q
  deadline : s.deadline = b.deadlineOf? q.id
  localId : ∀ external, s.provider.localId external = q.localId external
  respond? : s.provider.respond? = q.respond?

/-- A station that still has the profile that was made for it follows the blueprint. -/
theorem follows_of_profile {b : Blueprint} {q : Provider} {s : Station}
    (h : s.profile = (b.station q).profile) : Follows b q s where
  capabilities := congrArg Station.capabilities h
  deadline := congrArg Station.deadline h
  localId external := by
    have hprofile : s.provider.profile = q.profile := congrArg Station.provider h
    rw [← Provider.localId_profile, hprofile, Provider.localId_profile]
  respond? := Station.respond?_eq_of_profile h

/-- The stations are those of the blueprint. -/
theorem Reachable.station? {b : Blueprint} {p : ProviderId} {s : Station} (h : c.Reachable b)
    (hs : c.station? p = some s) : ∃ q ∈ b.providers, q.id = p ∧ Follows b q s := by
  obtain ⟨c₀, hbuild, hsteps⟩ := h.built
  have hevolves := hsteps.evolves (sound_of_build h.fresh hbuild)
  rcases hevolves.station? p with ⟨-, hnone⟩ | ⟨s₀, s', hs₀, hs', hgoes⟩
  · exact nomatch hs.symm.trans hnone
  · obtain rfl := Option.some.inj (hs.symm.trans hs')
    obtain ⟨hmem, hid⟩ := station?_eq_some hs₀
    -- The station that was built follows the blueprint, and its profile never changes.
    obtain ⟨-, rfl⟩ := Blueprint.build_eq_ok_iff.mp hbuild
    obtain ⟨q, hq, rfl⟩ := List.mem_map.mp hmem
    exact ⟨q, hq, hid, follows_of_profile hgoes.profile⟩

end Federation.Coordinator
