import Federation.Json.Printer
import Federation.LogicalUser
import Federation.Wire.Config

/-! # Documents of merged users

The written form of a merged user: the properties that were reported, what is known about the
support of each, and the accounts whose records were merged.

A *survey* answers everything that can be asked about a merged user, or about a configuration, which
decides how users are merged. -/

namespace Federation.Wire

/-- The document of a list of providers. -/
def ofProviders (ps : List ProviderId) : Json := .array (ps.map ofProviderId)

/-- The document of the source of a value. -/
def ofProvenance : Provenance → Json
  | .provider p => .object [("kind", .string "provider"), ("providers", ofProviderId p)]
  | .union ps => .object [("kind", .string "union"), ("providers", ofProviders ps)]

/-- The document of a resolution. -/
def ofResolution : Resolution → Json
  | .resolved v s others =>
    .object
      [ ("status", .string "resolved"), ("value", ofValue v), ("provenance", ofProvenance s),
        ("overridden", ofProviders others) ]
  | .notReported => .object [("status", .string "not_reported")]

/-- The document of the support of a property. -/
def ofSupport (s : Support) : Json :=
  .object
    [ ("set_by", ofProviders s.setBy), ("unsupported_by", ofProviders s.unsupportedBy),
      ("unset_by", ofProviders s.unsetBy) ]

/-- The document of a merged user.  Warnings are not part of it. -/
def ofUser (u : LogicalUser) : Json :=
  let reported := Property.all.filter fun p => (u.get p).isReported
  .object
    [ ("properties", .object (reported.map fun p => (p.name, ofResolution (u.get p)))),
      ("support", .object (Property.all.map fun p => (p.name, ofSupport (u.support p)))),
      ("sources", ofProviders u.sources),
      ("local_ids", .array (u.accounts.map fun a =>
        .array [ofProviderId a.provider, .string a.localId])) ]

/-- Everything that can be asked about a property of a merged user. -/
def surveyOfProperty (u : LogicalUser) (p : Property) : Json :=
  let r := u.get p
  .object
    [ ("property", ofProperty p), ("reported", .bool r.isReported),
      ("contested", .bool r.isContested), ("value", Json.ofOption ofValue (u.value? p)),
      ("text", Json.ofString? (u.text? p)),
      ("primary", Json.ofOption ofProviderId (r.provenance?.bind Provenance.primary?)),
      ("resolved", ofResolution r), ("support", ofSupport (u.support p)),
      ("supported", .bool (u.isSupported p)) ]

/-- The document of a warning. -/
def ofWarning (w : MergeWarning) : Json :=
  .strings [w.property.name, w.provider.name, w.mismatch.message, w.message]

/-- Everything that can be asked about a merged user. -/
def surveyOfUser (u : LogicalUser) : Json :=
  .object
    [ ("properties", .array (Property.all.map (surveyOfProperty u))),
      ("emails", .strings u.emails), ("is_suspended", Json.ofOption .bool u.isSuspended?),
      ("sources", ofProviders u.sources),
      ("local_ids", .array (u.sources.map fun p =>
        .array [ofProviderId p, Json.ofString? (u.localId? p)])),
      ("missing_local_id", .null), ("warnings", .array (u.warnings.map ofWarning)),
      ("empty", .bool u.isEmpty) ]

/-- The strategies of all properties. -/
def ofStrategies (e : Merge.Engine) : Json :=
  .strings (Property.all.map fun p => (e.strategy p).name)

/-- The document of a span of time. -/
def ofSpan (d : Option Span) : Json := Json.ofString? (d.map Span.text)

/-- Everything that can be asked about a provider of a configuration. -/
def surveyOfProviderConfig (c : Config) (p : ProviderConfig) : Json :=
  let found := (c.provider? p.id).any fun q =>
    (ofProviderConfig q).render = (ofProviderConfig p).render
  .object
    [ ("id", ofProviderId p.id), ("capabilities", ofCapabilities p.capabilities),
      ("deadline", ofSpan p.deadline?),
      ("rank", Json.ofOption .integer (c.priority.rank? p.id)), ("found", .bool found) ]

/-- Everything that can be asked about a configuration: also how it merges some records, and what
    it says of a provider, if these are given. -/
def surveyOfConfig (records : Option (List Record)) (lookUp : Option ProviderId) (c : Config) :
    Json :=
  .ofMembers
    [ ("config", some (ofConfig c)),
      ("providers", some (.array (c.providers.map (surveyOfProviderConfig c)))),
      ("default_deadline", some (ofSpan c.defaultDeadline?)),
      ("strategies", some (ofStrategies c.mergeEngine)),
      ("user", records.map fun rs => surveyOfUser (c.mergeEngine.merge rs)),
      ("lookup", lookUp.map fun p =>
        .array [Json.ofOption ofProviderConfig (c.provider? p),
          Json.ofOption .integer (c.priority.rank? p)]) ]

end Federation.Wire
