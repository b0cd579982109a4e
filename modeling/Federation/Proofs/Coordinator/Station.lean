import Federation.Coordinator.Station
import Federation.Proofs.Action.Account
import Federation.Proofs.Provider.Pledge

/-!
# Stations in time

A station that settles, or to which something else happens, remains what it is, and the jobs that
nobody cancels go on as they should.

## Key results

- `Goes.launch`, `Goes.cancel`, `Goes.serve`: what is done to a station
- `Goes.settle`, `Goes.advanceTo`: what happens at a station in time
- `steady`: a station that moves on from instant to instant comes to an end
-/

namespace Federation.Station

open Roster (Ready Settled Tracked Pledged Accounted)

variable {now later last : Nat} {s s' s'' : Station} {kept : Nat → Prop}

/-- A station without its actions and the state of its provider. -/
def profile (s : Station) : Station := { s with roster := { host := s.provider.profile } }

/-- The profile of a station tells its name. -/
theorem id_profile (s : Station) : s.profile.id = s.id := Provider.id_profile s.provider

/-- Stations of the same profile have the same name. -/
theorem id_eq_of_profile (h : s'.profile = s.profile) : s'.id = s.id := by
  rw [← id_profile s', h, id_profile]

/-- Stations of the same profile have providers that respond alike. -/
theorem respond?_eq_of_profile (h : s'.profile = s.profile) :
    s'.provider.respond? = s.provider.respond? := by
  have hprovider : s'.provider.profile = s.provider.profile := congrArg provider h
  rw [← Provider.respond?_profile, hprovider, Provider.respond?_profile]

/-- What becomes of a job that asks the provider of a station for something.  How a call into a
    custom provider ends is known in advance. -/
structure Awaits (c : Terms) (request : Request) (i now : Nat) (s : Station) : Prop where
  tracked : Tracked c i now s.roster
  pledged : ∀ respond, s.provider.respond? = some respond →
    Pledged (Custom.Ends respond request c.start)
      (fun b p => p.Owes i c.start (Custom.Ends respond request c.start) (now ≤ ·) b now) c i
      s.roster

/-- What becomes of a station between two instants, and of those of its jobs that nobody cancels. -/
structure Goes (kept : Nat → Prop) (now later : Nat) (s s' : Station) : Prop where
  profile : s'.profile = s.profile
  ready : Ready later s'.roster
  awaits : ∀ c request i, kept i → Awaits c request i now s → Awaits c request i later s'

/-- A caller waits as before when events are collected. -/
theorem Awaits.collected {c : Terms} {request : Request} {i : Nat} (h : s.Awaits c request i now) :
    s.collected.Awaits c request i now := by
  refine ⟨h.tracked.withLog [], fun respond hr => ?_⟩
  exact (h.pledged respond hr).congr (fun _ hb => hb) (fun j hj => ⟨j, hj, rfl⟩) rfl

/-- A station may stay as it is. -/
theorem Goes.refl (kept : Nat → Prop) (h : Ready now s.roster) : Goes kept now now s s :=
  ⟨rfl, h, fun _ _ _ _ hi => hi⟩

/-- A station goes on twice. -/
theorem Goes.trans (h : Goes kept now later s s') (k : Goes kept later last s' s'') :
    Goes kept now last s s'' where
  profile := k.profile.trans h.profile
  ready := k.ready
  awaits c request i hi ha := k.awaits c request i hi (h.awaits c request i hi ha)

/-- A station that goes on without some jobs being cancelled goes on. -/
theorem Goes.mono {kept' : Nat → Prop} (h : Goes kept now later s s')
    (hkept : ∀ i, kept' i → kept i) : Goes kept' now later s s' :=
  ⟨h.profile, h.ready, fun c request i hi => h.awaits c request i (hkept i hi)⟩

/-- A station has gone on when its events are collected. -/
theorem Goes.collected (h : Goes kept now later s s') : Goes kept now later s s'.collected where
  profile := h.profile
  ready := h.ready.withLog []
  awaits c request i hi ha := (h.awaits c request i hi ha).collected

/-! ## Calls of the user -/

/-- The provider is called once. -/
theorem provider_launch (now : Nat) (o : Operation) (localId : String) (s : Station) :
    (s.launch now o localId).1.provider =
      Host.submit s.roster.jobs.length ⟨o, localId⟩ s.provider := by
  have hs := Roster.launch_eq (a := s.actionFor o localId) now o ⟨o, localId⟩
    s.roster rfl
  simp only [Station.launch, provider, hs]

/-- A launch keeps the name of a station. -/
theorem id_launch (now : Nat) (o : Operation) (localId : String) (s : Station) :
    (s.launch now o localId).1.id = s.id := by
  show (s.launch now o localId).1.provider.id = s.provider.id
  rw [provider_launch, ← Provider.id_profile, Provider.profile_submit, Provider.id_profile]

/-- A call does not change how a provider responds. -/
theorem respond?_submit (i : Nat) (request : Request) (p : Provider) :
    (Host.submit i request p).respond? = p.respond? := by
  rw [← Provider.respond?_profile, Provider.profile_submit, Provider.respond?_profile]

/-- An operation is launched. -/
theorem Goes.launch (kept : Nat → Prop) (h : Ready now s.roster) (o : Operation)
    (localId : String) : Goes kept now now s (s.launch now o localId).1 where
  profile := by
    show (⟨s.capabilities, s.deadline,
      { host := (s.launch now o localId).1.provider.profile }⟩ : Station) = s.profile
    rw [provider_launch, Provider.profile_submit]
    rfl
  ready := (h.launch rfl rfl trivial o).1
  -- The new job has a number of its own, so an older one is not concerned.
  awaits c request i _ hi := by
    refine ⟨hi.tracked.launch h rfl trivial o, fun respond hr => ?_⟩
    rw [provider_launch, respond?_submit] at hr
    have hp := Provider.pledge i c.start (Custom.Ends respond request c.start)
    exact (hi.pledged respond hr).launch hp h hi.tracked.lt_length rfl trivial o

/-- The job that was launched is on its way. -/
theorem awaits_launch (h : Ready now s.roster) (o : Operation) (localId : String) :
    (s.launch now o localId).1.Awaits ⟨s!"{o.name} on {s.id}", s.deadline, now⟩ ⟨o, localId⟩
      s.roster.jobs.length now := by
  refine ⟨(h.launch (a := s.actionFor o localId) rfl rfl trivial o).2, fun respond hr => ?_⟩
  rw [provider_launch, respond?_submit] at hr
  obtain ⟨hnew, hunborn⟩ := h.unused
  refine Roster.pledged_launch ?_ rfl _ o
  exact Provider.owes_submit hr hnew hunborn ⟨o, localId⟩ now

/-- A cancellation does not reach the provider until the station settles. -/
theorem provider_cancel (now job : Nat) (s : Station) :
    (s.cancel now job).1.provider = s.provider :=
  Roster.host_cancel now job s.roster

/-- A cancellation keeps the name of a station. -/
theorem id_cancel (now job : Nat) (s : Station) : (s.cancel now job).1.id = s.id :=
  congrArg Provider.id (provider_cancel now job s)

/-- A station goes on when a job is cancelled that is not kept. -/
theorem Goes.cancel (h : Ready now s.roster) {job : Nat} (hjob : ¬kept job) :
    Goes kept now now s (s.cancel now job).1 where
  profile := by
    show (⟨s.capabilities, s.deadline,
      { host := (s.cancel now job).1.provider.profile }⟩ : Station) = s.profile
    rw [provider_cancel]
    rfl
  ready := h.cancel job
  awaits c request i hi ha := by
    -- The job that is cancelled is not kept, so it is not the one that is waited for.
    have hne : job ≠ i := fun he => hjob (he ▸ hi)
    refine ⟨ha.tracked.cancel hne, fun respond hr => ?_⟩
    rw [provider_cancel] at hr
    exact (ha.pledged respond hr).cancel hne

/-- A custom provider is no directory. -/
theorem mapDirectory_of_custom {f : Directory → Directory}
    {respond : Nat → Request → Custom.Response}
    (h : (s.mapDirectory f).provider.respond? = some respond) : s.mapDirectory f = s := by
  obtain ⟨capabilities, deadline, host, jobs, log⟩ := s
  cases host with
  | directory d => exact nomatch h
  | custom c => rfl

/-- A change from outside keeps the name of a station. -/
theorem id_serve (f : Directory.Server → Directory.Server) (s : Station) :
    (s.mapDirectory (Directory.mapServer f)).id = s.id := by
  show (s.provider.mapDirectory (Directory.mapServer f)).id = s.provider.id
  rw [← Provider.id_profile, Provider.profile_mapServer, Provider.id_profile]

/-- Something is done to the server of a directory. -/
theorem Goes.serve (kept : Nat → Prop) (h : Ready now s.roster)
    (f : Directory.Server → Directory.Server) :
    Goes kept now now s (s.mapDirectory (Directory.mapServer f)) := by
  obtain ⟨hsound, hlive, hended⟩ := Provider.spec_mapServer f s.roster.host
  refine ⟨?profile, ⟨⟨hsound h.sound, ?isOpen, ?unborn, h.isWatched⟩, h.ahead, ?live⟩, ?awaits⟩
  case profile => simp only [Station.profile, mapDirectory, provider, Provider.profile_mapServer]
  case isOpen => exact fun i hi => h.isOpen i ((hlive i).mp hi)
  case unborn => exact fun i hi => (hended i).trans (h.unborn i hi)
  case live => exact fun i hi => (hlive i).mpr (h.live i hi)
  -- A custom provider has no server, and the pledge is about custom providers only.
  case awaits =>
    refine fun c request i _ ha => ⟨?_, fun respond hr => ?_⟩
    · exact ha.tracked.congr (fun j hj => ⟨j.runner, hj, rfl, rfl⟩) fun _ => hended i
    · have hsame := mapDirectory_of_custom hr
      rw [hsame] at hr ⊢
      exact ha.pledged respond hr

/-! ## Time -/

/-- Whatever a host keeps that a provider is, the provider of a station keeps. -/
theorem provider_settle {P : Provider → Prop} (h : Host.Keeps P) (now : Nat)
    (hs : P s.provider) : P (Timed.settle now s).provider :=
  Roster.host_settle h hs

/-- Settling keeps the profile of a station. -/
theorem profile_settle (now : Nat) (s : Station) : (Timed.settle now s).profile = s.profile := by
  have hkeeps : Host.Keeps fun p : Provider => p.profile = s.provider.profile :=
    ⟨fun i h => (Provider.profile_abort i _).trans h,
      fun now h => (Provider.profile_ripen now _).trans h,
      fun now h => (Provider.profile_settle now _).trans h⟩
  show (⟨s.capabilities, s.deadline,
      { host := (Timed.settle now s).provider.profile }⟩ : Station) =
    ⟨s.capabilities, s.deadline, { host := s.provider.profile }⟩
  rw [provider_settle hkeeps now rfl]

/-- Time keeps the profile of a station. -/
theorem profile_advanceTo (t : Nat) (s : Station) :
    (Timed.advanceTo t s).profile = s.profile :=
  Timed.runFor_induction (P := fun x : Station => x.profile = s.profile)
    (fun now x hx => (profile_settle now x).trans hx) _ t _ 0 rfl

/-- The roster of a station moves as the station does. -/
theorem moves (h : Timed.Moves now s later s') :
    Timed.Moves now s.roster later s'.roster ∧ s'.profile = s.profile := by
  induction h with
  | refl now s => exact ⟨.refl now s.roster, rfl⟩
  | @step now t u s s' next _ ih => exact ⟨.step next ih.1, ih.2.trans (profile_settle t s)⟩

/-- What is known of some jobs of a station that has settled. -/
structure Rests (known : Nat → Prop) (now : Nat) (s : Station) : Prop where
  settled : Settled now s.roster
  accounted : ∀ i, known i → Accounted i now s.roster

/-- A station that rests moves from instant to instant, and settles at each. -/
theorem steady (known : ProviderId → Nat → Prop) :
    Timed.Steady fun now s => Rests (known s.id) now s where
  next := by
    intro now t s h ht
    obtain ⟨hlt, hsettled, hload⟩ := Roster.steady.next h.settled ht
    refine ⟨hlt, ⟨hsettled, fun i hi => ?_⟩, hload⟩
    rw [id_eq_of_profile (profile_settle t s)] at hi
    exact ((h.accounted i hi).mono (Nat.le_of_lt hlt)).settle (h.settled.ready_of_eq ht)

/-- A station settles. -/
theorem Goes.settle (kept : Nat → Prop) (h : Ready now s.roster) :
    Goes kept now now s (Timed.settle now s) where
  profile := profile_settle now s
  ready := h.settle.1.ready fun j hj t ht => Nat.le_of_lt (h.settle.1.ahead j hj t ht)
  awaits c request i _ hi := by
    refine ⟨hi.tracked.settle h, fun respond hr => ?_⟩
    rw [respond?_eq_of_profile (profile_settle now s)] at hr
    have hp := Provider.pledge i c.start (Custom.Ends respond request c.start)
    exact ((hi.pledged respond hr).settle hp h hi.tracked).stay hp

/-- A station that has settled moves to the last instant at which something is due; nothing happens
    after it. -/
theorem moves_advanceTo (h : Settled now s.roster) (hle : now ≤ later) :
    ∃ t, Timed.Moves now s.roster t (Timed.advanceTo later s).roster ∧ t ≤ later ∧
      ∀ u, Timed.next? (Timed.advanceTo later s) = some u → later < u := by
  obtain ⟨t, hm, ht, hlate⟩ := (steady fun _ _ => False).advanceTo_moves (k := s)
    ⟨h, fun _ => False.elim⟩ hle
  exact ⟨t, (moves hm).1, ht, hlate⟩

/-- Time passes at a station that has settled. -/
theorem Goes.advanceTo (kept : Nat → Prop) (h : Settled now s.roster) (hle : now ≤ later) :
    Goes kept now later s (Timed.advanceTo later s) := by
  -- The station moves from instant to instant up to some `t`, after which nothing is due in time.
  obtain ⟨t, hm, ht, hlate⟩ := moves_advanceTo h hle
  have hsettled := (Roster.steady.moves h hm).1
  have hprofile := profile_advanceTo later s
  refine ⟨hprofile, hsettled.ready_of_next fun u hu => Nat.le_of_lt (hlate u hu), ?_⟩
  refine fun c request i _ hi => ⟨(hi.tracked.moves h hm).mono ht, fun respond hr => ?_⟩
  rw [respond?_eq_of_profile hprofile] at hr
  have hp := Provider.pledge i c.start (Custom.Ends respond request c.start)
  have hrest := (hi.pledged respond hr).rest hp h
  exact (hrest.moves hp h hi.tracked hm).pass hp hsettled fun u hu => Nat.le_of_lt (hlate u hu)

end Federation.Station
