import Federation.Json.Basic
import Federation.Word

/-! # Reading documents

The forms that documents share.  A *choice* is one of some names; a *record* is an object with named
fields, or an array of the fields in their order.  An object may have members that are not fields,
which are skipped; a field must not occur twice.  In an array the last fields may be missing.

* `choice?_string_name` — a choice is read back from its name. -/

namespace Federation.Wire

/-- A choice: its name, or an object whose only member has that name and the value `null`. -/
def choice? {α : Type} (all : List α) (name : α → String) : Json → Option α
  | .string s => all.find? fun a => name a == s
  | .object [(s, .null)] => all.find? fun a => name a == s
  | _ => none

theorem choice?_string_name {α : Type} {all : List α} {name : α → String} {a : α} (h : a ∈ all)
    (unique : ∀ b ∈ all, name b = name a → b = a) :
    choice? all name (.string (name a)) = some a := by
  rw [choice?]
  cases hf : all.find? fun b => name b == name a with
  | none => exact absurd (List.find?_eq_none.1 hf a h) (by simp)
  | some b =>
    have hb := List.find?_some hf
    rw [unique b (List.mem_of_find?_eq_some hf) (by simpa using hb)]

/-- The member of a name, if there is one; nothing at all if there are several. -/
def only? (name : String) (ms : List (String × Json)) : Option (Option Json) :=
  match ms.filter fun m => m.1 == name with
  | [] => some none
  | [m] => some (some m.2)
  | _ => none

/-- The fields of a record, each with its value if it is there. -/
def fields? (names : List String) : Json → Option (List (Option Json))
  | .object ms => names.mapM fun name => only? name ms
  | .array xs =>
    if xs.length ≤ names.length then
      some (xs.map some ++ List.replicate (names.length - xs.length) none)
    else none
  | _ => none

/-- A list of documents of the same form. -/
def list? {α : Type} (read : Json → Option α) : Json → Option (List α)
  | .array xs => xs.mapM read
  | _ => none

/-- A document that may be `null`. -/
def nullable? {α : Type} (read : Json → Option α) : Json → Option (Option α)
  | .null => some none
  | j => (read j).map some

/-- A field that must be there. -/
def required? {α : Type} (read : Json → Option α) (field : Option Json) : Option α :=
  field.bind read

/-- A field that has a value of its own if it is missing. -/
def optional? {α : Type} (read : Json → Option α) (absent : α) : Option Json → Option α
  | none => some absent
  | some j => read j

/-- An integer of 64 bits without sign. -/
def unsigned? : Json → Option Nat
  | .integer n => if Word.isUnsigned n then some n.toNat else none
  | _ => none

/-- An integer of 64 bits with sign. -/
def signed? : Json → Option Int
  | .integer n => if Word.isSigned n then some n else none
  | _ => none

end Federation.Wire
