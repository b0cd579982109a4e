import Federation.Config
import Federation.Json.Parser
import Federation.Wire.Identity

/-! # Documents of configurations

The written form of a configuration and of its parts.  Fields that hold nothing are left out when
they are optional.  Settings may be any document that stays within the nesting limit.

* `Config.ofString?` reads a text and checks what it says. -/

namespace Federation.Wire

/-- How deep arrays and objects of a text may stand inside each other. -/
def nestingLimit : Nat := 127

/-- A provider identifier. -/
def providerId? (j : Json) : Option ProviderId := j.string?.map ProviderId.mk

/-- The document of a provider identifier. -/
def ofProviderId (p : ProviderId) : Json := .string p.name

/-- A flag. -/
def flag? : Json → Option Bool := Json.bool?

/-- The operations of a provider. -/
def capabilities? (j : Json) : Option Capabilities := do
  match ← fields? ["read", "password_change"] j with
  | [read, passwordChange] =>
    some ⟨← required? flag? read, ← required? flag? passwordChange⟩
  | _ => none

/-- The document of the operations of a provider. -/
def ofCapabilities (c : Capabilities) : Json :=
  .object [("read", .bool c.read), ("password_change", .bool c.passwordChange)]

/-- A merge strategy. -/
def strategy? : Json → Option Merge.Strategy := choice? Merge.Strategy.all Merge.Strategy.name

/-- Settings inside `level` arrays and objects. -/
def settings? (level : Nat) (j : Json) : Option Json :=
  if j.isMeaningful ∧ j.depth + level ≤ nestingLimit then some j.distinctNames else none

/-- The configuration of a provider inside `level` arrays and objects. -/
def providerConfig? (level : Nat) (j : Json) : Option ProviderConfig := do
  let names :=
    ["id", "priority", "supports_read", "supports_password_change", "concurrency_safe",
      "deadline_ms", "settings"]
  match ← fields? names j with
  | [id, priority, read, passwordChange, concurrencySafe, deadlineMs, settings] =>
    some
      { id := ← required? providerId? id
        priority := ← optional? (nullable? signed?) none priority
        supportsRead := ← optional? flag? true read
        supportsPasswordChange := ← optional? flag? false passwordChange
        concurrencySafe := ← optional? flag? true concurrencySafe
        deadlineMs := ← optional? (nullable? unsigned?) none deadlineMs
        settings := ← optional? (settings? (level + 1)) .null settings }
  | _ => none

/-- The document of the configuration of a provider. -/
def ofProviderConfig (c : ProviderConfig) : Json :=
  .ofMembers
    [ ("id", some (ofProviderId c.id)),
      ("priority", c.priority.map .integer),
      ("supports_read", some (.bool c.supportsRead)),
      ("supports_password_change", some (.bool c.supportsPasswordChange)),
      ("concurrency_safe", some (.bool c.concurrencySafe)),
      ("deadline_ms", c.deadlineMs.map .natural),
      ("settings", some c.settings) ]

/-- The options for merging. -/
def mergeConfig? (j : Json) : Option MergeConfig := do
  match ← fields? ["union_properties"] j with
  | [union] => some ⟨← optional? (list? property?) [] union⟩
  | _ => none

/-- The document of the options for merging. -/
def ofMergeConfig (c : MergeConfig) : Json :=
  .object [("union_properties", .array (c.unionProperties.map ofProperty))]

/-- A whole configuration, which need not make sense. -/
def config? (j : Json) : Option Config := do
  match ← fields? ["providers", "default_deadline_ms", "merge"] j with
  | [providers, defaultDeadlineMs, merge] =>
    some
      { providers := ← required? (list? (providerConfig? 2)) providers
        defaultDeadlineMs := ← optional? (nullable? unsigned?) none defaultDeadlineMs
        merge := ← optional? mergeConfig? {} merge }
  | _ => none

/-- The document of a configuration. -/
def ofConfig (c : Config) : Json :=
  .ofMembers
    [ ("providers", some (.array (c.providers.map ofProviderConfig))),
      ("default_deadline_ms", c.defaultDeadlineMs.map .natural),
      ("merge", some (ofMergeConfig c.merge)) ]

end Federation.Wire

namespace Federation.Config

/-- The configuration that a text denotes, whether it makes sense or not. -/
def parse (s : String) : Except Fault Config :=
  -- All that is told of a text that cannot be read is that it cannot.
  match (Json.parse? s).bind Wire.config? with
  | some c => .ok c
  | none => .error Problem.malformed.toFault

/-- The configuration that a text denotes, if it makes sense. -/
def ofString (s : String) : Except Fault Config := do
  let c ← parse s
  c.validate
  return c

end Federation.Config
