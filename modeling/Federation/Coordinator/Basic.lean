import Federation.Coordinator.Station
import Federation.Merge.Engine

/-! # Coordinators

A `Coordinator` runs operations against its stations and merges what they report.  It has the clock,
and it collects the events of all stations in the order in which they happened.

Of things that happen at one instant at different stations, none is the first.  In the log they
stand in the order in which the stations were registered, which is a convention: what is told of a
fan-out is a permutation of its ends (`Finishes`, `Told`), and where two logs are compared, both are
kept by it (`Alike`).

Stations share nothing but the clock, so each of them is moved on its own; one that is waited for
together with others is waited for until all of them are done. -/

namespace Federation

/-- Registered providers, the engine that merges their records, and the clock. -/
structure Coordinator where
  /-- The present instant, in milliseconds. -/
  now : Nat := 0
  /-- The registered providers, in registration order. -/
  stations : List Station
  engine : Merge.Engine
  /-- What the observer of the federation was told. -/
  log : List Event := []

namespace Coordinator

/-- The registered providers, in registration order. -/
def ids (c : Coordinator) : List ProviderId := c.stations.map Station.id

/-- The station of a provider. -/
def station? (c : Coordinator) (p : ProviderId) : Option Station :=
  c.stations.find? fun s => s.id = p

/-- Replace the station of a provider. -/
def putStation (p : ProviderId) (t : Station) (c : Coordinator) : Coordinator :=
  { c with stations := c.stations.map fun s => if s.id = p then t else s }

/-- Do something to the station of a provider. -/
def mapStation (p : ProviderId) (f : Station → Station) (c : Coordinator) : Coordinator :=
  { c with stations := c.stations.map fun s => if s.id = p then f s else s }

/-- Tell the observer. -/
def tell (es : List Event) (c : Coordinator) : Coordinator := { c with log := c.log ++ es }

/-- Collect the events of the stations. -/
def collect (c : Coordinator) : Coordinator :=
  -- At one instant, stations that were registered earlier come first, by convention.
  let events := Timed.chronicle (c.stations.flatMap Station.events)
  { c with
    stations := c.stations.map Station.collected
    log := c.log ++ events.map Prod.snd }

/-- Let everything happen that can happen now. -/
def settle (c : Coordinator) : Coordinator :=
  { c with stations := c.stations.map (Timed.settle c.now) }.collect

/-- Let everything happen up to and including an instant. -/
def advanceTo (t : Nat) (c : Coordinator) : Coordinator :=
  { c with now := t, stations := Timed.advanceAll t c.stations }.collect

/-- Wait until `stop` holds at every station, but not beyond `limit`; tell whether it came to
    hold. -/
def await (stop : Station → Bool) (limit : Nat) (c : Coordinator) : Coordinator × Bool :=
  let c := c.settle
  match Timed.meeting? stop limit c.now c.stations with
  | some t => (c.advanceTo t, true)
  | none => (c.advanceTo limit, false)

end Coordinator

end Federation
