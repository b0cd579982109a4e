import Federation.Json.Basic
import Federation.Outcomes
import Federation.Action.Outcome

/-! # Documents of faults and results

A fault is an object with its kind, its message and, if it is a collection, its members.  A result
is an object with the value under `ok`, or the fault.

* `members_ne_ok` — a fault is never taken for a success. -/

namespace Federation.Wire

/-- The kind of a cause. -/
def ofCauseKind : Cause → String
  | .alreadyInProgress => "OperationAlreadyInProgress"
  | .notFinished => "OperationIsNotFinished"
  | .timeout .. => "Timeout"
  | .unsupportedOperation .. => "UnsupportedOperation"
  | .unknownProvider _ => "UnknownProvider"
  | .cancelled => "Cancelled"
  | .cannotInferLocalId .. => "CannotInferLocalId"
  | .provider .. => "Provider"
  | .domainUnavailable .. => "DomainUnavailable"
  | .invalidConfiguration _ => "InvalidConfiguration"
  | .internal _ => "Internal"

/-- The members of the object of a cause.  No message is given of a call that broke off. -/
def membersOfCause (c : Cause) : List (String × Json) :=
  ("error", .string (ofCauseKind c)) ::
    match c with
    | .domainUnavailable _ none => []
    | c => [("message", .string c.message)]

mutual
/-- The members of the object of a fault. -/
def membersOfFault : Fault → List (String × Json)
  | .one c => membersOfCause c
  | .collection fs =>
    [ ("error", .string "Collection"), ("message", .string (Fault.collection fs).message),
      ("errors", .array (ofFaults fs)) ]
/-- The documents of some faults. -/
def ofFaults : List Fault → List Json
  | [] => []
  | f :: fs => .object (membersOfFault f) :: ofFaults fs
end

/-- The document of a fault. -/
def ofFault (f : Fault) : Json := .object (membersOfFault f)

theorem members_ne_ok (f : Fault) (j : Json) : membersOfFault f ≠ [("ok", j)] := by
  cases f <;> simp [membersOfFault, membersOfCause]

/-- The document of a success. -/
def ofSuccess (j : Json) : Json := .object [("ok", j)]

variable {α : Type}

/-- The document of a result. -/
def ofResult (ok : α → Json) : Except Fault α → Json
  | .ok a => ofSuccess (ok a)
  | .error f => ofFault f

/-- The document of an outcome. -/
def ofOutcome (ok : α → Json) : Outcome α → Json
  | .succeeded a => .object [("succeeded", ok a)]
  | .failed f => .object [("failed", ofFault f)]
  | .cancelled => .string "cancelled"

/-- The document of a list of things by provider. -/
def ofPairs (ok : α → Json) (ps : List (ProviderId × α)) : Json :=
  .array (ps.map fun e => .array [.string e.1.name, ok e.2])

/-- The document of the outcomes by provider. -/
def ofOutcomes (ok : α → Json) (s : Outcomes α) : Json :=
  .object
    [ ("entries", ofPairs (ofResult ok) s.entries), ("succeeded", .natural s.successes.length),
      ("failed", .natural s.failures.length), ("all_success", .bool s.isAllSuccess) ]

end Federation.Wire
