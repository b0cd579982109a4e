import Federation.Property
import Federation.Record

/-! # Operations and capabilities

What can be asked of a provider about one user, what a provider answers, and which operations a
provider is able to perform.

* `supports_inter` — an intersection supports what both sides support. -/

namespace Federation

/-- A request about one user of one provider. -/
inductive Operation where
  /-- Read the named properties, or all of them. -/
  | read (properties : Option (List Property))
  | changePassword (password : String)
  deriving DecidableEq, Repr

namespace Operation

/-- Read every property. -/
def readAll : Operation := read none

/-- The name of an operation. -/
def name : Operation → String
  | read _ => "read"
  | changePassword _ => "change_password"

/-- Whether the operation asks for a property.  Every read asks for the identifier. -/
def requests : Operation → Property → Bool
  | read none, _ => true
  | read (some ps), p => p = .id || ps.contains p
  | changePassword _, _ => false

/-- The operation as diagnostics show it; a password is not shown. -/
def inspect : Operation → String
  | read none => "Read \x7b properties: None \x7d"
  | read (some ps) =>
    "Read \x7b properties: Some([" ++ String.intercalate ", " (ps.map Property.caption) ++
      "]) \x7d"
  | changePassword _ => "ChangePassword \x7b new_password: \"<redacted>\" \x7d"

end Operation

/-- The operations a provider is able to perform. -/
structure Capabilities where
  read : Bool
  passwordChange : Bool
  deriving DecidableEq, Repr

namespace Capabilities

/-- Every operation. -/
def all : Capabilities := ⟨true, true⟩

/-- Reading alone, which is also what a provider is taken to be able to do by default. -/
def readOnly : Capabilities := ⟨true, false⟩

instance : Inhabited Capabilities := ⟨readOnly⟩

/-- Whether an operation is among them. -/
def supports (c : Capabilities) : Operation → Bool
  | .read _ => c.read
  | .changePassword _ => c.passwordChange

/-- The operations of both. -/
def inter (c d : Capabilities) : Capabilities :=
  ⟨c.read && d.read, c.passwordChange && d.passwordChange⟩

@[simp] theorem supports_inter (c d : Capabilities) (o : Operation) :
    (c.inter d).supports o = (c.supports o && d.supports o) := by
  cases o <;> rfl

theorem inter_all (c : Capabilities) : c.inter all = c := by
  cases c; simp [inter, all]

end Capabilities

/-- What a provider answers when an operation succeeds. -/
inductive Output where
  /-- The user's record. -/
  | record (r : Record)
  /-- The provider has no such user. -/
  | notFound
  /-- The change was made. -/
  | completed

namespace Output

/-- The record, if that is the answer. -/
def record? : Output → Option Record
  | record r => some r
  | _ => none

end Output

/-- How calls into a provider are scheduled. -/
inductive AccessMode where
  /-- Any number of calls may run at the same time. -/
  | concurrent
  /-- Calls run one after the other in the named access domain. -/
  | serialized (domain : String)
  deriving DecidableEq, Repr

end Federation
