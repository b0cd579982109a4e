import Federation.Fault
import Federation.Operation

/-! # Requests

What a provider is asked: an operation, and the user in the provider's own terms.

* `orCannotInfer_eq_ok_iff`, `orCannotInfer_eq_error_iff` — when a local identifier is found, and what
  is said if none is. -/

namespace Federation

/-- An operation on one user of a provider. -/
structure Request where
  operation : Operation
  localId : String
  deriving DecidableEq, Repr

/-- The fault of a provider that finds no local identifier, or the identifier. -/
def orCannotInfer (provider : ProviderId) (source : String) : Option String → Except Fault String
  | some localId => .ok localId
  | none => .error (.cannotInferLocalId provider source)

section

variable {p : ProviderId} {source x : String} {found? : Option String} {f : Fault}

theorem orCannotInfer_eq_ok_iff : orCannotInfer p source found? = .ok x ↔ found? = some x := by
  cases found? <;> simp [orCannotInfer]

theorem orCannotInfer_eq_error_iff :
    orCannotInfer p source found? = .error f ↔
      found? = none ∧ f = .cannotInferLocalId p source := by
  cases found? <;> simp [orCannotInfer, eq_comm]

end

end Federation
