import Federation.Fault
import Federation.Json.Basic
import Federation.Merge.Engine
import Federation.Operation
import Federation.Text.Blank
import Federation.Word

/-! # Configuration

A configuration is plain data: the providers in order, each with its priority, feature flags,
deadline and settings of its own, and options for merging.  `Config.validate` tells whether it makes
sense; the views derived from it are meant for configurations that do.

* `withDeadline_deadline?` — a deadline is kept in whole milliseconds, up to the largest count. -/

namespace Federation

/-- The configuration of one provider. -/
structure ProviderConfig where
  id : ProviderId
  /-- The merge rank; lower wins.  The place in the list counts if there is none. -/
  priority : Option Int := none
  supportsRead : Bool := true
  supportsPasswordChange : Bool := false
  /-- Whether the provider's client tolerates calls at the same time. -/
  concurrencySafe : Bool := true
  /-- The deadline of a call, in milliseconds. -/
  deadlineMs : Option Nat := none
  /-- Settings that only the provider itself understands. -/
  settings : Json := .null

namespace ProviderConfig

/-- The configuration with a deadline in whole milliseconds, as many as can be held. -/
def withDeadline (c : ProviderConfig) (d : Span) : ProviderConfig :=
  { c with deadlineMs := some (min d.toMillis Word.maxUnsigned) }

/-- The operations that the feature flags allow. -/
def capabilities (c : ProviderConfig) : Capabilities :=
  ⟨c.supportsRead, c.supportsPasswordChange⟩

/-- The deadline of a call. -/
def deadline? (c : ProviderConfig) : Option Span := c.deadlineMs.map Span.ofMillis

theorem withDeadline_deadline? (c : ProviderConfig) (d : Span) :
    (c.withDeadline d).deadline? = some (Span.ofMillis (min d.toMillis Word.maxUnsigned)) := rfl

end ProviderConfig

/-- The options for merging. -/
structure MergeConfig where
  /-- The properties whose lists are united across providers. -/
  unionProperties : List Property := []
  deriving DecidableEq, Repr

/-- A whole configuration. -/
structure Config where
  providers : List ProviderConfig
  /-- The deadline of calls into providers without their own, in milliseconds. -/
  defaultDeadlineMs : Option Nat := none
  merge : MergeConfig := {}

namespace Config

/-- Why a configuration makes no sense. -/
inductive Problem where
  /-- The text is no configuration. -/
  | malformed
  | blankId
  | configuredTwice (p : ProviderId)
  | zeroDeadline (p : ProviderId)
  | zeroDefaultDeadline
  | notAList (p : Property)
  | registeredTwice (p : ProviderId)
  | notRegistered (p : ProviderId)
  deriving DecidableEq, Repr

namespace Problem

/-- The text of a problem. -/
def message : Problem → String
  | malformed => "malformed configuration"
  | blankId => "provider id cannot be empty"
  | configuredTwice p => s!"provider '{p}' is configured twice"
  | zeroDeadline p => s!"deadline of provider '{p}' must be greater than 0"
  | zeroDefaultDeadline => "default deadline must be greater than 0"
  | notAList p => s!"'{p.name}' is not a list property and cannot be unioned"
  | registeredTwice p => s!"provider '{p}' is registered twice"
  | notRegistered p => s!"configured provider '{p}' is not registered"

/-- A problem as a fault. -/
def toFault (p : Problem) : Fault := .invalidConfiguration p.message

end Problem

/-- The first problem of some providers, of which `seen` came before. -/
def providerProblem? (seen : List ProviderId) : List ProviderConfig → Option Problem
  | [] => none
  | c :: rest =>
    if Text.isBlank c.id.name then some .blankId
    else if seen.contains c.id then some (.configuredTwice c.id)
    else if c.deadlineMs = some 0 then some (.zeroDeadline c.id)
    else providerProblem? (seen ++ [c.id]) rest

/-- The first problem of a configuration: provider by provider, then the default deadline, then the
    merge options. -/
def problem? (c : Config) : Option Problem :=
  match providerProblem? [] c.providers with
  | some p => some p
  | none =>
    if c.defaultDeadlineMs = some 0 then some .zeroDefaultDeadline
    else (c.merge.unionProperties.find? fun p => p.kind ≠ .textList).map .notAList

/-- Whether a configuration makes sense.  Equal priorities do. -/
def validate (c : Config) : Except Fault Unit :=
  match c.problem? with
  | some p => .error p.toFault
  | none => .ok ()

/-- The configuration of a provider. -/
def provider? (c : Config) (p : ProviderId) : Option ProviderConfig :=
  c.providers.find? fun e => e.id = p

/-- The deadline of calls into providers without their own. -/
def defaultDeadline? (c : Config) : Option Span := c.defaultDeadlineMs.map Span.ofMillis

/-- The merge ranks: explicit ones, otherwise the place in the list. -/
def priority (c : Config) : Merge.Priority :=
  c.providers.zipIdx.foldl (fun t e => t.withRank e.1.id (e.1.priority.getD e.2)) {}

/-- The engine that merges as configured. -/
def mergeEngine (c : Config) : Merge.Engine :=
  c.merge.unionProperties.foldl (fun e p => e.withStrategy p .union)
    { priority := c.priority }

end Config

end Federation
