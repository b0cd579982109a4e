import Federation.Record

/-! # The merged view of a user

A `LogicalUser` is one user as resolved across providers.  It tells for each property which value
was chosen and where it came from, and which providers could have reported it.

* `primary?_eq_head?` — the main source of a value is the first of its sources. -/

namespace Federation

/-- Where a resolved value comes from. -/
inductive Provenance where
  /-- One provider's value was chosen. -/
  | provider (p : ProviderId)
  /-- The values of these providers, in merge order, were united. -/
  | union (ps : List ProviderId)
  deriving DecidableEq, Repr

namespace Provenance

/-- The providers that contributed, in merge order. -/
def providers : Provenance → List ProviderId
  | provider p => [p]
  | union ps => ps

/-- The provider of highest priority that contributed. -/
def primary? : Provenance → Option ProviderId
  | provider p => some p
  | union ps => ps.head?

theorem primary?_eq_head? (s : Provenance) : s.primary? = s.providers.head? := by
  cases s <;> rfl

end Provenance

/-- The result of merging one property. -/
inductive Resolution where
  /-- A value, its source, and the providers of lower priority that reported another value. -/
  | resolved (value : Value) (provenance : Provenance) (overridden : List ProviderId)
  /-- No provider reported a usable value. -/
  | notReported
  deriving DecidableEq, Repr

namespace Resolution

/-- The value, if there is one. -/
def value? : Resolution → Option Value
  | resolved v _ _ => some v
  | notReported => none

/-- The source of the value. -/
def provenance? : Resolution → Option Provenance
  | resolved _ s _ => some s
  | notReported => none

/-- Whether a provider reported another value. -/
def isContested : Resolution → Bool
  | resolved _ _ others => !others.isEmpty
  | notReported => false

/-- Whether there is a value. -/
def isReported : Resolution → Bool
  | resolved .. => true
  | notReported => false

end Resolution

/-- What the merged records say about one property, by provider and in merge order. -/
structure Support where
  setBy : List ProviderId := []
  unsupportedBy : List ProviderId := []
  unsetBy : List ProviderId := []
  deriving DecidableEq, Repr

namespace Support

/-- Whether some provider reported the property or was not asked about it. -/
def isSupported (s : Support) : Bool := !s.setBy.isEmpty || !s.unsetBy.isEmpty

end Support

/-- A reported value that was left out of the merge. -/
structure MergeWarning where
  property : Property
  provider : ProviderId
  mismatch : Property.Mismatch
  deriving DecidableEq, Repr

namespace MergeWarning

/-- The text of a warning. -/
def message (w : MergeWarning) : String :=
  s!"Ignored '{w.property.name}' from provider '{w.provider}': {w.mismatch.message}"

end MergeWarning

/-- One user as resolved across providers. -/
structure LogicalUser where
  /-- How each property was resolved. -/
  get : Property → Resolution
  /-- Which providers can report each property. -/
  support : Property → Support
  /-- The values that were left out, by property and then in merge order. -/
  warnings : List MergeWarning
  /-- The accounts whose records were merged, in merge order. -/
  accounts : List Account

namespace LogicalUser

/-- The value of a property. -/
def value? (u : LogicalUser) (p : Property) : Option Value := (u.get p).value?

/-- The text of a property. -/
def text? (u : LogicalUser) (p : Property) : Option String := (u.value? p).bind Value.asText?

/-- The email addresses. -/
def emails (u : LogicalUser) : List String :=
  ((u.value? .emails).bind Value.asTextList?).getD []

/-- Whether the user is suspended, if that is known. -/
def isSuspended? (u : LogicalUser) : Option Bool := (u.value? .isSuspended).bind Value.asFlag?

/-- Whether some provider did not declare the property unsupported. -/
def isSupported (u : LogicalUser) (p : Property) : Bool := (u.support p).isSupported

/-- The providers whose records were merged, in merge order. -/
def sources (u : LogicalUser) : List ProviderId := u.accounts.map Account.provider

/-- The identifier of the user inside a provider, if a record of it was merged. -/
def localId? (u : LogicalUser) (p : ProviderId) : Option String :=
  (u.accounts.find? fun a => a.provider = p).map Account.localId

/-- Whether nothing was merged. -/
def isEmpty (u : LogicalUser) : Bool := u.accounts.isEmpty

end LogicalUser

end Federation
