import Federation.Config
import Federation.Coordinator.Basic

/-! # Blueprints of coordinators

A `Blueprint` says of what a coordinator is to be made.  It comes about by settings that are made one
after the other.  Settings may be given in several places: for one provider or for all of them, and
here or in a configuration.  What is said for one provider comes before what is said for all, and
what is said here before the configuration.

Deadlines are whole numbers of milliseconds, here as in a configuration, since the clock counts
nothing smaller.  They are chosen between and handed on, and nothing is computed with them.  Where a
configuration is given a `Span`, rounding is part of the matter (`ProviderConfig.withDeadline`).

* `providers_set` — a provider that is registered is the last one; no other setting registers any.
* `build_ids` — a coordinator has the registered providers, in registration order. -/

namespace Federation

/-- Of what a coordinator is made. -/
structure Blueprint where
  /-- The providers, in registration order. -/
  providers : List Provider
  deadlines : Table ProviderId Nat := Table.empty
  defaultDeadline : Option Nat := none
  /-- The operations to which providers are restricted. -/
  capabilities : Table ProviderId Capabilities := Table.empty
  engine : Option Merge.Engine := none
  config : Option Config := none

namespace Blueprint

/-- What can be said about a coordinator that is to be made. -/
inductive Setting where
  /-- Register a provider. -/
  | provider (p : Provider)
  /-- How many milliseconds a call into a provider may take. -/
  | deadline (p : ProviderId) (ms : Nat)
  /-- How many milliseconds a call into any other provider may take. -/
  | defaultDeadline (ms : Nat)
  /-- Restrict a provider to some operations. -/
  | capabilities (p : ProviderId) (c : Capabilities)
  | engine (e : Merge.Engine)
  /-- Name an observer.  A coordinator keeps a log for whoever that is. -/
  | observer
  | config (c : Config)

/-- The provider that a setting registers. -/
def Setting.provider? : Setting → Option Provider
  | provider p => some p
  | _ => none

/-- The blueprint with one more setting.  It replaces an earlier one about the same thing. -/
def set (b : Blueprint) : Setting → Blueprint
  | .provider p => { b with providers := b.providers ++ [p] }
  | .deadline p ms => { b with deadlines := b.deadlines.insert p ms }
  | .defaultDeadline ms => { b with defaultDeadline := some ms }
  | .capabilities p c => { b with capabilities := b.capabilities.insert p c }
  | .engine e => { b with engine := some e }
  | .observer => b
  | .config c => { b with config := some c }

/-- The blueprint to which some settings lead. -/
def ofSettings (settings : List Setting) : Blueprint := settings.foldl set { providers := [] }

theorem providers_set (b : Blueprint) (s : Setting) :
    (b.set s).providers = b.providers ++ s.provider?.toList := by
  cases s <;> simp [set, Setting.provider?]

/-- The first provider that is registered twice. -/
def repeated? (seen : List ProviderId) : List Provider → Option ProviderId
  | [] => none
  | p :: ps => if seen.contains p.id then some p.id else repeated? (seen ++ [p.id]) ps

/-- What is wrong with a blueprint. -/
def problem? (b : Blueprint) : Option Config.Problem :=
  match b.config.bind Config.problem? with
  | some p => some p
  | none =>
    match repeated? [] b.providers with
    | some p => some (.registeredTwice p)
    | none =>
      let configured := (b.config.map Config.providers).getD []
      (configured.find? fun e => !(b.providers.map Provider.id).contains e.id).map fun e =>
        .notRegistered e.id

/-- The configuration of a provider. -/
def configOf? (b : Blueprint) (p : ProviderId) : Option ProviderConfig :=
  b.config.bind fun c => c.provider? p

/-- The operations that a provider may be asked for. -/
def capabilitiesOf (b : Blueprint) (p : Provider) : Capabilities :=
  let configured := ((b.configOf? p.id).map ProviderConfig.capabilities).getD .all
  (p.capabilities.inter configured).inter ((b.capabilities.get? p.id).getD .all)

/-- How many milliseconds a call into a provider may take. -/
def deadlineOf? (b : Blueprint) (p : ProviderId) : Option Nat :=
  b.deadlines.get? p
    <|> (b.configOf? p).bind ProviderConfig.deadlineMs
    <|> b.defaultDeadline
    <|> b.config.bind Config.defaultDeadlineMs

/-- The engine that merges: the one given, otherwise the configured one, otherwise one that prefers
    providers that were registered earlier. -/
def mergeEngine (b : Blueprint) : Merge.Engine :=
  match b.engine, b.config with
  | some e, _ => e
  | none, some c => c.mergeEngine
  | none, none => { priority := .ofOrder (b.providers.map Provider.id) }

/-- The station of a provider. -/
def station (b : Blueprint) (p : Provider) : Station where
  capabilities := b.capabilitiesOf p
  deadline := b.deadlineOf? p.id
  roster := { host := p }

/-- The coordinator. -/
def build (b : Blueprint) : Except Fault Coordinator :=
  match b.problem? with
  | some p => .error p.toFault
  | none => .ok { stations := b.providers.map b.station, engine := b.mergeEngine }

theorem build_ids {b : Blueprint} {c : Coordinator} (h : b.build = .ok c) :
    c.ids = b.providers.map Provider.id := by
  unfold build at h
  split at h
  · exact nomatch h
  · obtain rfl := Except.ok.inj h
    simp [Coordinator.ids, station, Station.id, Station.provider, Function.comp_def]

end Blueprint

end Federation
