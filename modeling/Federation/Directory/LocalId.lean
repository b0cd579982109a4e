import Federation.Record

/-! # Local identifiers

A directory knows its users by identifiers of its own.  A `LocalIdRule` tells how such an identifier
is found: from the identifier that the caller has, or from the record of another directory.

* `isHostedBy_iff` — an address belongs to a domain if what follows its last `@` is the domain,
  whatever the case of ASCII letters. -/

namespace Federation.Directory

/-- What follows the last `@` of an address. -/
def host? (address : List Char) : Option (List Char) :=
  if '@' ∈ address then some (address.reverse.takeWhile (· ≠ '@')).reverse else none

/-- Whether an address belongs to a domain. -/
def isHostedBy (domain address : String) : Bool :=
  (host? address.toList).any fun h => h.map Char.toLower = domain.toList.map Char.toLower

theorem isHostedBy_iff (domain address : String) :
    isHostedBy domain address = true ↔
      ∃ h, host? address.toList = some h ∧
        h.map Char.toLower = domain.toList.map Char.toLower := by
  cases hh : host? address.toList <;> simp [isHostedBy, hh]

/-- How a directory finds its identifier of a user. -/
inductive LocalIdRule where
  /-- The directory uses the identifiers that callers have. -/
  | asIs
  /-- Identifiers are addresses in a domain. -/
  | emailDomain (domain : String)
  /-- Identifiers are known from a property of another directory's record only. -/
  | linkedVia (p : Property)
  deriving DecidableEq, Repr

namespace LocalIdRule

/-- The local identifier of the user that a caller knows as `external`. -/
def ofExternal? (external : String) : LocalIdRule → Option String
  | asIs => some external
  | emailDomain domain => if isHostedBy domain external then some external else none
  | linkedVia _ => none

/-- The local identifier of the user of whom another directory has a record. -/
def ofRecord? (r : Record) : LocalIdRule → Option String
  | asIs => some r.localId
  | emailDomain domain => r.emails.find? (isHostedBy domain)
  | linkedVia p => r.text? p

end LocalIdRule

end Federation.Directory
