/-! # User properties and their values

A directory describes a user by seven properties.  Each property has one *kind* of value, and a
reported value is usable only if it passes `Property.check`.

* `check_eq_ok_iff` — a value passes exactly if it is empty and the property may be empty, or if
  its kind is the property's kind. -/

namespace Federation

/-- The shape a property's value is expected to have. -/
inductive Kind where
  | text
  | flag
  | textList
  deriving DecidableEq, Repr

namespace Kind

/-- Every kind. -/
def all : List Kind := [.text, .flag, .textList]

/-- The name of a kind in documents. -/
def name : Kind → String
  | text => "text"
  | flag => "flag"
  | textList => "text_list"

/-- The name of a kind in diagnostics. -/
def caption : Kind → String
  | text => "Text"
  | flag => "Flag"
  | textList => "TextList"

end Kind

/-- A loosely typed value, as a directory reports it.  `null` is a definite answer: the property
    is known to be empty. -/
inductive Value where
  | null
  | flag (b : Bool)
  | text (s : String)
  | textList (xs : List String)
  deriving DecidableEq, Repr

namespace Value

/-- The kind of a value; `null` has none. -/
def kind? : Value → Option Kind
  | null => none
  | flag _ => some .flag
  | text _ => some .text
  | textList _ => some .textList

/-- How a value is described in diagnostics. -/
def description : Value → String
  | null => "null"
  | flag _ => "a flag"
  | text _ => "text"
  | textList _ => "a text list"

/-- The text of a text value. -/
def asText? : Value → Option String
  | text s => some s
  | _ => none

/-- The flag of a flag value. -/
def asFlag? : Value → Option Bool
  | flag b => some b
  | _ => none

/-- The list of a list value. -/
def asTextList? : Value → Option (List String)
  | textList xs => some xs
  | _ => none

/-- Whether the value is the definite absence of one. -/
def isNull : Value → Bool
  | null => true
  | _ => false

/-- A text that may be absent. -/
def ofText? : Option String → Value
  | some s => text s
  | none => null

/-- A flag that may be absent. -/
def ofFlag? : Option Bool → Value
  | some b => flag b
  | none => null

end Value

/-- The properties of a user.  `id` is the identifier inside one directory; `persistentId` is the
    identifier that survives renames there. -/
inductive Property where
  | id
  | persistentId
  | isSuspended
  | firstName
  | lastName
  | nickname
  | emails
  deriving DecidableEq, Repr

namespace Property

/-- Every property, in canonical order. -/
def all : List Property :=
  [id, persistentId, isSuspended, firstName, lastName, nickname, emails]

theorem mem_all (p : Property) : p ∈ all := by
  cases p <;> decide

theorem nodup_all : all.Nodup := by decide

/-- The position of a property in canonical order. -/
def index : Property → Nat
  | id => 0
  | persistentId => 1
  | isSuspended => 2
  | firstName => 3
  | lastName => 4
  | nickname => 5
  | emails => 6

theorem getElem?_all_index (p : Property) : all[p.index]? = some p := by
  cases p <;> rfl

/-- The name of a property in documents. -/
def name : Property → String
  | id => "id"
  | persistentId => "persistent_id"
  | isSuspended => "is_suspended"
  | firstName => "first_name"
  | lastName => "last_name"
  | nickname => "nickname"
  | emails => "emails"

/-- The name of a property in diagnostics. -/
def caption : Property → String
  | id => "Id"
  | persistentId => "PersistentId"
  | isSuspended => "IsSuspended"
  | firstName => "FirstName"
  | lastName => "LastName"
  | nickname => "Nickname"
  | emails => "Emails"

/-- The property of a given name. -/
def ofName? (s : String) : Option Property :=
  all.find? fun p => p.name == s

theorem ofName?_name (p : Property) : ofName? p.name = some p := by
  cases p <;> decide +kernel

/-- What is said about a name that no property has. -/
def unknownNameMessage (s : String) : String :=
  s!"Unknown user property '{s}'"

/-- The kind of value the property holds. -/
def kind : Property → Kind
  | isSuspended => .flag
  | emails => .textList
  | _ => .text

/-- Whether the property has a meaning inside one directory only, so that different values in
    different directories are no disagreement. -/
def isLocal : Property → Bool
  | id => true
  | _ => false

/-- Whether the property may be reported as empty.  Identifiers may not. -/
def isNullable : Property → Bool
  | id | persistentId => false
  | _ => true

/-- Why a reported value cannot be used. -/
inductive Mismatch where
  /-- The property was reported as empty and must not be. -/
  | empty (p : Property)
  /-- The value is not of the property's kind. -/
  | wrongKind (p : Property) (v : Value)
  deriving DecidableEq, Repr

/-- The text of a mismatch. -/
def Mismatch.message : Mismatch → String
  | empty p => s!"'{p.name}' cannot be reported as empty"
  | wrongKind p v => s!"expected a {p.kind.caption} value for '{p.name}', got {v.description}"

/-- Whether `v` is usable as a value of `p`. -/
def check (p : Property) (v : Value) : Except Mismatch Unit :=
  if v.isNull then
    if p.isNullable then .ok () else .error (.empty p)
  else if v.kind? = some p.kind then .ok ()
  else .error (.wrongKind p v)

theorem check_eq_ok_iff (p : Property) (v : Value) :
    p.check v = .ok () ↔ (v = .null ∧ p.isNullable) ∨ v.kind? = some p.kind := by
  cases v <;> simp [check, Value.isNull, Value.kind?]

end Property

end Federation
