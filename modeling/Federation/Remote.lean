/-! # What one provider says about one property

A `Remote` keeps three situations apart that an `Option` would confuse: the provider was not asked,
the provider has no such property, and the provider gave a definite answer — which may itself be
empty. -/

namespace Federation

/-- One property as one provider reports it. -/
inductive Remote (α : Type) where
  /-- The provider was not asked. -/
  | unset
  /-- The provider's data model has no such property. -/
  | unsupported
  /-- The provider's answer. -/
  | set (a : α)
  deriving DecidableEq, Repr

namespace Remote

variable {α β : Type}

instance : Inhabited (Remote α) := ⟨unset⟩

/-- The answer, if there is one. -/
def value? : Remote α → Option α
  | set a => some a
  | _ => none

/-- The report with its answer transformed. -/
def map (f : α → β) : Remote α → Remote β
  | unset => unset
  | unsupported => unsupported
  | set a => set (f a)

/-- The report with its answer transformed by a function that may fail; only an answer can. -/
def tryMap {ε : Type} (f : α → Except ε β) : Remote α → Except ε (Remote β)
  | unset => .ok unset
  | unsupported => .ok unsupported
  | set a => (f a).map set

/-- Whether there is an answer. -/
def isSet : Remote α → Bool
  | set _ => true
  | _ => false

/-- Whether the provider was not asked. -/
def isUnset : Remote α → Bool
  | unset => true
  | _ => false

/-- Whether the provider has no such property. -/
def isUnsupported : Remote α → Bool
  | unsupported => true
  | _ => false

@[simp] theorem value?_map (f : α → β) (r : Remote α) : (r.map f).value? = r.value?.map f := by
  cases r <;> rfl

theorem map_id (r : Remote α) : r.map id = r := by
  cases r <;> rfl

theorem tryMap_ok {ε : Type} (f : α → β) (r : Remote α) :
    r.tryMap (fun a => (.ok (f a) : Except ε β)) = .ok (r.map f) := by
  cases r <;> rfl

end Remote

end Federation
