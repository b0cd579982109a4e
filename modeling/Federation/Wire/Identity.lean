import Federation.Record
import Federation.Wire.Reader

/-! # Documents about users

The written forms of values, properties and reports.

A value is written as itself: `null`, a flag, a text, or an array of texts.  A report is an object
with a `state` and, if the state is `set`, a `value`; it may also be read from the array of the
state's name and the value.

* `remote?_ofRemote` — a report is read back, whatever value it holds. -/

namespace Federation.Wire

/-- A value. -/
def value? : Json → Option Value
  | .null => some .null
  | .bool b => some (.flag b)
  | .string s => some (.text s)
  | .array xs => (xs.mapM Json.string?).map .textList
  | _ => none

/-- The document of a value. -/
def ofValue : Value → Json
  | .null => .null
  | .flag b => .bool b
  | .text s => .string s
  | .textList xs => .strings xs

theorem mapM_string?_string (ss : List String) :
    (ss.map Json.string).mapM Json.string? = some ss := by
  induction ss with
  | nil => rfl
  | cons s ss ih => simp [List.mapM_cons, ih, Json.string?]

theorem value?_ofValue (v : Value) : value? (ofValue v) = some v := by
  cases v with
  | textList xs =>
    simp only [ofValue, Json.strings, value?]
    rw [mapM_string?_string]
    rfl
  | _ => rfl

/-- A text. -/
def text? : Json → Option String := Json.string?

/-- A text that may be absent. -/
def optionalText? : Json → Option (Option String) := nullable? text?

/-- The document of a text that may be absent. -/
def ofOptionalText : Option String → Json := Json.ofString?

theorem optionalText?_ofOptionalText (s : Option String) :
    optionalText? (ofOptionalText s) = some s := by
  cases s <;> rfl

/-- A property. -/
def property? : Json → Option Property := choice? Property.all Property.name

/-- The document of a property. -/
def ofProperty (p : Property) : Json := .string p.name

/-- A kind of value. -/
def kind? : Json → Option Kind := choice? Kind.all Kind.name

/-- The state of a report, without its value. -/
inductive State where
  | unset
  | unsupported
  | set
  deriving DecidableEq, Repr

namespace State

/-- Every state. -/
def all : List State := [unset, unsupported, set]

/-- The name of a state in documents. -/
def name : State → String
  | unset => "unset"
  | unsupported => "unsupported"
  | set => "set"

end State

/-- A state. -/
def state? : Json → Option State := choice? State.all State.name

/-- How the value of a report is read.  `absent` is what a set report without a value holds, if
    that is allowed. -/
structure Content (α : Type) where
  read : Json → Option α
  absent : Option α := none

/-- The value of a report: one that is loosely typed must be there. -/
def valueContent : Content Value := { read := value? }

/-- The value of a report: an optional text may be left out. -/
def optionalTextContent : Content (Option String) :=
  { read := optionalText?, absent := some none }

/-- The report of a state and a value.  Only a set report may have a value other than `null`. -/
def ofState? {α : Type} (c : Content α) : State → Option Json → Option (Remote α)
  | .set, some j => (c.read j).map .set
  | .set, none => c.absent.map .set
  | .unset, none | .unset, some .null => some .unset
  | .unsupported, none | .unsupported, some .null => some .unsupported
  | _, some _ => none

/-- A report. -/
def remote? {α : Type} (c : Content α) : Json → Option (Remote α)
  | .object ms => do
    let state ← (← only? "state" ms).bind state?
    ofState? c state (← only? "value" ms)
  | .array [.string s, j] => do ofState? c (← state? (.string s)) (some j)
  | _ => none

/-- The document of a report. -/
def ofRemote {α : Type} (write : α → Json) : Remote α → Json
  | .unset => .object [("state", .string "unset")]
  | .unsupported => .object [("state", .string "unsupported")]
  | .set a => .object [("state", .string "set"), ("value", write a)]

theorem remote?_ofRemote {α : Type} {c : Content α} {write : α → Json}
    (back : ∀ a, c.read (write a) = some a) (r : Remote α) :
    remote? c (ofRemote write r) = some r := by
  have unset : choice? State.all State.name (.string "unset") = some .unset := by decide
  have unsupported : choice? State.all State.name (.string "unsupported") = some .unsupported := by
    decide
  have set : choice? State.all State.name (.string "set") = some .set := by decide
  cases r with
  | unset => simp [ofRemote, remote?, only?, state?, unset, ofState?]
  | unsupported => simp [ofRemote, remote?, only?, state?, unsupported, ofState?]
  | set a => simp [ofRemote, remote?, only?, state?, set, ofState?, back]

/-- The document of an account's record: what it says, in canonical order. -/
def ofReports (r : Record) : Json :=
  .array (r.reported.map fun s => .array [ofProperty s.1, ofRemote ofValue s.2])

end Federation.Wire
