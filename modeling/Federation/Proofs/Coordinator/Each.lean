import Federation.Proofs.Coordinator.Batch

/-!
# What every station keeps

A coordinator does something at one station, or lets all of them go on.  So what every station keeps
holds of all of them whatever the coordinator does; and what every provider keeps does, too.

## Key results

- `Each.launch`, `Each.cancelOne`, `Each.serve`, `Each.settle`, `Each.advanceTo`: a property of all
  stations is kept
- `Steps.each`: what stations keep whatever is done to them holds after any number of steps
- `Steps.each_provider`: what all providers keep holds after any number of steps
-/

namespace Federation

open Timed (advanceTo)

namespace Station

variable {P : Provider → Prop} {now : Nat} {s : Station}

/-- What a provider keeps at each instant it keeps in the course of time. -/
theorem provider_advanceTo (h : Host.Keeps P) (t : Nat) (hs : P s.provider) :
    P (advanceTo t s).provider :=
  Timed.runFor_induction (P := fun s : Station => P s.provider)
    (fun now _ hs => provider_settle h now hs) _ t _ 0 hs

/-- What a station keeps whatever is done to it and whatever happens at it. -/
structure Keeps (A : Station → Prop) : Prop where
  collected : ∀ {s : Station}, A s → A s.collected
  launch : ∀ {s : Station}, A s → ∀ now o localId, A (s.launch now o localId).1
  cancel : ∀ {s : Station}, A s → ∀ now job, A (s.cancel now job).1
  serve : ∀ {s : Station}, A s → ∀ f, A (s.mapDirectory (Directory.mapServer f))
  settle : ∀ {s : Station}, A s → ∀ now, A (Timed.settle now s)

/-- What a station keeps, the station of a certain provider keeps. -/
theorem Keeps.at {A : Station → Prop} (K : Keeps A) (p : ProviderId) :
    Keeps fun s => s.id = p → A s where
  collected h hp := K.collected (h hp)
  launch h now o localId hp := K.launch (h ((id_launch ..).symm.trans hp)) now o localId
  cancel h now job hp := K.cancel (h ((id_cancel ..).symm.trans hp)) now job
  serve h f hp := K.serve (h ((id_serve ..).symm.trans hp)) f
  settle h now hp := K.settle (h ((id_eq_of_profile (profile_settle ..)).symm.trans hp)) now

/-- What a station keeps at each instant it keeps in the course of time. -/
theorem Keeps.advanceTo {A : Station → Prop} (K : Keeps A) (hs : A s) (t : Nat) :
    A (advanceTo t s) :=
  Timed.runFor_induction (P := A) (fun now _ hs => K.settle hs now) _ t _ 0 hs

end Station

namespace Coordinator

open Roster (Ready)

variable {c c' : Coordinator} {A : Station → Prop}

/-- Every station has a property. -/
def Each (A : Station → Prop) (c : Coordinator) : Prop := ∀ s ∈ c.stations, A s

/-- What the station of a provider has is had by every station of that name, as there is one. -/
theorem each_of_station? {p : ProviderId} {s : Station} (hc : c.Sound)
    (hs : c.station? p = some s) (h : A s) : c.Each fun x => x.id = p → A x := by
  intro x hx hid
  rw [← hid, hc.station?_id hx, Option.some.injEq] at hs
  exact hs ▸ h

/-- The station of a provider has what every station of that name has. -/
theorem Each.of_station? {p : ProviderId} {s : Station} (h : c.Each fun x => x.id = p → A x)
    (hs : c.station? p = some s) : A s :=
  h s (station?_eq_some hs).1 (station?_eq_some hs).2

/-- Every station has a property if the others had it and the new one has it. -/
theorem Each.put {p : ProviderId} {t : Station} (h : c.Each A)
    (collected : ∀ s, A s → A s.collected) (ht : A t) : (c.putStation p t).collect.Each A := by
  intro x hx
  simp only [collect, putStation, List.map_map] at hx
  obtain ⟨s, hs, rfl⟩ := List.mem_map.mp hx
  refine collected _ ?_
  dsimp only
  split
  · exact ht
  · exact h s hs

/-- The target of a launch either makes a call or is left alone, as all others are. -/
theorem Each.launch (h : c.Each A) (collected : ∀ s, A s → A s.collected) {o : Operation}
    {localId : Provider → Except Fault String}
    (called : ∀ s ∈ c.stations, ∀ id, localId s.provider = .ok id → A (s.launch c.now o id).1)
    (target : ProviderId) : (c.launch o localId target).1.Each A := by
  unfold Coordinator.launch
  cases hs : c.station? target with
  | none => exact h
  | some s =>
    -- The target may not be able to do it, may not have a name for the user, or is called.
    dsimp only
    split
    · exact h
    · split
      · exact h
      · next id hid => exact h.put collected (called s (station?_eq_some hs).1 id hid)

/-- Every station has a property after a cancellation if it survives one. -/
theorem Each.cancelOne (h : c.Each A) (collected : ∀ s, A s → A s.collected)
    {job : ProviderId × Nat} (cancelled : ∀ s ∈ c.stations, A (s.cancel c.now job.2).1) :
    (c.cancelOne job).1.Each A := by
  unfold Coordinator.cancelOne
  cases hs : c.station? job.1 with
  | none => exact h
  | some s => exact h.put collected (cancelled s (station?_eq_some hs).1)

/-- Every station has a property after a change from outside if it survives one. -/
theorem Each.serve (h : c.Each A) {f : Directory → Directory}
    (served : ∀ s ∈ c.stations, A (s.mapDirectory f)) (p : ProviderId) :
    (c.mapStation p (Station.mapDirectory f)).Each A := by
  intro x hx
  obtain ⟨s, hs, rfl⟩ := List.mem_map.mp hx
  split
  · exact served s hs
  · exact h s hs

/-- Every station has a property after settling if each gets it by settling. -/
theorem Each.settle (collected : ∀ s, A s → A s.collected)
    (settled : ∀ s ∈ c.stations, A (Timed.settle c.now s)) : c.settle.Each A := by
  intro x hx
  simp only [Coordinator.settle, collect, List.map_map] at hx
  obtain ⟨s, hs, rfl⟩ := List.mem_map.mp hx
  exact collected _ (settled s hs)

/-- Every station has a property after some time if each gets it in that time. -/
theorem Each.advanceTo {t : Nat} (collected : ∀ s, A s → A s.collected)
    (advanced : ∀ s ∈ c.stations, A (Timed.advanceTo t s)) : (c.advanceTo t).Each A := by
  intro x hx
  simp only [Coordinator.advanceTo, Timed.advanceAll, collect, List.map_map] at hx
  obtain ⟨s, hs, rfl⟩ := List.mem_map.mp hx
  exact collected _ (advanced s hs)

/-! ## Stations -/

variable {kept : ProviderId × Nat → Prop}

/-- What stations keep they have after any step of the coordinator. -/
theorem Step.each (h : Step kept c c') (K : Station.Keeps A) (hc : c.Each A) : c'.Each A := by
  have collected : ∀ s, A s → A s.collected := fun _ => K.collected
  have settled : c.settle.Each A := .settle collected fun s hs => K.settle (hc s hs) c.now
  -- A step is taken by all stations or by one of them, and events are collected after it.
  cases h with
  | launch o localId target =>
    exact hc.launch collected (fun s hs id _ => K.launch (hc s hs) c.now o id) target
  | cancel job => exact hc.cancelOne collected fun s hs => K.cancel (hc s hs) c.now job.2
  | serve p f => exact hc.serve (fun s hs => K.serve (hc s hs) f) p
  | settle => exact settled
  | pass t => exact .advanceTo collected fun s hs => K.advanceTo (settled s hs) t
  | tell es => exact hc

/-- What stations keep whatever is done to them holds after any number of steps. -/
theorem Steps.each (h : Steps kept c c') (K : Station.Keeps A) (hc : c.Each A) : c'.Each A := by
  induction h with
  | refl => exact hc
  | tail _ step ih => exact step.each K ih

/-! ## Providers -/

variable {P : Provider → Prop}

/-- What the host of a call keeps, also when the call is made, is kept when it is launched. -/
theorem Sound.launch_provider (hc : c.Sound) {s : Station} (hs : s ∈ c.stations)
    (submit : ∀ (p : Provider) (i : Nat), ¬LawfulHost.Live p i → Host.ended? p i = none → P p →
      ∀ request, P (Host.submit i request p))
    (hP : P s.provider) (o : Operation) (id : String) : P (s.launch c.now o id).1.provider := by
  obtain ⟨hnew, hended⟩ := (hc.ready s hs).unused
  rw [Station.provider_launch]
  exact submit s.provider _ hnew hended hP _

/-- What providers keep they have after any step of the coordinator. -/
theorem Step.each_provider (h : Step kept c c') (hc : c.Sound) (hP : Host.Keeps P)
    (submit : ∀ (p : Provider) (i : Nat), ¬LawfulHost.Live p i → Host.ended? p i = none → P p →
      ∀ request, P (Host.submit i request p))
    (serve : ∀ p f, P p → P (p.mapDirectory (Directory.mapServer f)))
    (hc₀ : c.Each fun s => P s.provider) : c'.Each fun s => P s.provider := by
  have collected : ∀ s : Station, P s.provider → P s.collected.provider := fun _ hs => hs
  have settled : c.settle.Each fun s => P s.provider :=
    .settle collected fun s hs => Station.provider_settle hP c.now (hc₀ s hs)
  -- A launch needs a call of a new number, and the other steps only what every host may do.
  cases h with
  | launch o localId target =>
    exact hc₀.launch collected (fun s hs id _ => hc.launch_provider hs submit (hc₀ s hs) o id)
      target
  | cancel job =>
    refine hc₀.cancelOne collected fun s hs => ?_
    rw [Station.provider_cancel]
    exact hc₀ s hs
  | serve p f => exact hc₀.serve (fun s hs => serve s.provider f (hc₀ s hs)) p
  | settle => exact settled
  | pass t =>
    exact .advanceTo collected fun s hs => Station.provider_advanceTo hP t (settled s hs)
  | tell es => exact hc₀

/-- What all providers keep, whatever calls are made and whatever is done to the servers of
    directories, holds after any number of steps. -/
theorem Steps.each_provider (h : Steps kept c c') (hc : c.Sound) (hP : Host.Keeps P)
    (submit : ∀ (p : Provider) (i : Nat), ¬LawfulHost.Live p i → Host.ended? p i = none → P p →
      ∀ request, P (Host.submit i request p))
    (serve : ∀ p f, P p → P (p.mapDirectory (Directory.mapServer f)))
    (hc₀ : c.Each fun s => P s.provider) : c'.Each fun s => P s.provider := by
  induction h with
  | refl => exact hc₀
  | tail hsteps step ih =>
    have hsound := (Steps.evolves hsteps hc).sound hc
    exact step.each_provider hsound hP submit serve ih

end Coordinator

end Federation
