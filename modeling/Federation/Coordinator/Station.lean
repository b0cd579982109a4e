import Federation.Action.Roster
import Federation.Provider.Basic

/-! # Stations

A `Station` is a registered provider with everything that concerns it alone: which operations it may
be asked for, how long a call may take, and the actions about its users.  Stations share nothing. -/

namespace Federation

/-- An action about one user of a provider. -/
abbrev ProviderAction : Type := Action Unit Operation Output

/-- A registered provider and its actions. -/
structure Station where
  /-- The operations that it may be asked for. -/
  capabilities : Capabilities
  /-- How many milliseconds, the unit of the clock, a call may take. -/
  deadline : Option Nat
  roster : Roster Unit Operation Output Provider

namespace Station

/-- The provider of a station. -/
def provider (s : Station) : Provider := s.roster.host

/-- The name of the provider. -/
def id (s : Station) : ProviderId := s.provider.id

/-- The action of a number. -/
def action? (s : Station) (job : Nat) : Option ProviderAction := s.roster.action? job

/-- An action that asks the provider for an operation. -/
def actionFor (s : Station) (o : Operation) (localId : String) : ProviderAction where
  subject := .account ⟨s.id, localId⟩
  label := s!"{o.name} on {s.id}"
  deadline := s.deadline
  isFollowed := true

/-- Ask the provider for an operation; also tell the number of the action. -/
def launch (now : Nat) (o : Operation) (localId : String) (s : Station) : Station × Nat :=
  let job := s.roster.jobs.length
  let roster := s.roster.add (s.actionFor o localId)
  ({ s with roster := (roster.start now job o ⟨o, localId⟩).1 }, job)

/-- Cancel an action; tell whether it ran. -/
def cancel (now job : Nat) (s : Station) : Station × Bool :=
  let r := s.roster.cancel now job
  ({ s with roster := r.1 }, r.2)

/-- Do something to the directory that the provider is. -/
def mapDirectory (f : Directory → Directory) (s : Station) : Station :=
  { s with roster := { s.roster with host := s.roster.host.mapDirectory f } }

/-- The events since they were last collected. -/
def events (s : Station) : List (Nat × Event) :=
  s.roster.log.filterMap fun (t, n) => n.event?.map fun e => (t, e)

/-- The station with its events collected. -/
def collected (s : Station) : Station := { s with roster := { s.roster with log := [] } }

instance : Timed Station where
  settle now s := { s with roster := Timed.settle now s.roster }
  next? s := Timed.next? s.roster
  load s := Timed.load s.roster

end Station

end Federation
