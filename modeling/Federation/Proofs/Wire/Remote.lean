import Federation.Proofs.Json.RoundTrip
import Federation.Proofs.Wire.Reader
import Federation.Wire.Identity
import Mathlib

/-!
# Texts of reports

A report is written as an object, and any object with the same members is read as the same report:
their order does not matter, nor do members that no report has.  The three states are kept apart,
and so are all values, among them those that hold nothing: `null`, an empty text and an empty list.

## Key results

- `remote?_of_holds`: a document that holds a report is read as this report
- `faithful_of_back`: reports are kept apart if their values are read back
- `reports_faithful`: reports of loosely typed values, and of optional texts, are kept apart
-/

namespace Federation.Wire

open Json (IsExact)

variable {α : Type} {c : Content α} {write : α → Json} {r : Remote α}

/-- The text of a report. -/
def reportText (write : α → Json) (r : Remote α) : String := (ofRemote write r).render

/-- The report that a text denotes. -/
def readReport? (c : Content α) (s : String) : Option (Remote α) := (Json.parse? s).bind (remote? c)

/-- The objects that hold the members of a report, in any order and among other members, whose names
    no report uses. -/
inductive Holds (write : α → Json) (r : Remote α) : Json → Prop
  | mk {written unknown ms : List (String × Json)} (report : ofRemote write r = .object written)
      (foreign : ∀ m ∈ unknown, m.1 ≠ "state" ∧ m.1 ≠ "value")
      (order : ms.Perm (written ++ unknown)) : Holds write r (.object ms)

/-- Texts tell reports apart. -/
structure Faithful (c : Content α) (write : α → Json) : Prop where
  /-- A report is read back from its text. -/
  back : ∀ r, readReport? c (reportText write r) = some r
  /-- A report is read from every text whose object holds its members. -/
  held : ∀ {s : String} {j : Json} {r : Remote α}, Json.parse? s = some j → Holds write r j →
    readReport? c s = some r
  /-- No two reports have the same text. -/
  apart : Function.Injective (reportText write)

/-! ## Reading -/

/-- A document that holds a report is read as this report. -/
theorem remote?_of_holds {j : Json} (back : ∀ a, c.read (write a) = some a) (h : Holds write r j) :
    remote? c j = some r := by
  obtain @⟨written, unknown, ms, report, foreign, order⟩ := h
  -- Either field is found in the document as it is in the document that was written.
  have hstate : only? "state" ms = only? "state" written := by
    rw [only?_perm order, only?_append fun m hm => (foreign m hm).1]
  have hvalue : only? "value" ms = only? "value" written := by
    rw [only?_perm order, only?_append fun m hm => (foreign m hm).2]
  have hwritten := remote?_ofRemote back r
  rw [report] at hwritten
  simp only [remote?] at hwritten ⊢
  rw [hstate, hvalue, hwritten]

/-! ## Writing -/

/-- A report is written out exactly if its value is. -/
theorem isExact_ofRemote (exact : ∀ a, IsExact (write a)) (r : Remote α) :
    IsExact (ofRemote write r) := by
  cases r with
  | unset => exact .object _ (by simpa using IsExact.string "unset")
  | unsupported => exact .object _ (by simpa using IsExact.string "unsupported")
  | set a => exact .object _ (by simpa using ⟨IsExact.string "set", exact a⟩)

/-- A value of a property is written out exactly. -/
theorem isExact_ofValue (v : Value) : IsExact (ofValue v) := by
  cases v with
  | null => exact .null
  | flag b => exact .bool b
  | text s => exact .string s
  | textList xs => exact isExact_list fun s _ => .string s

/-- A text that may be missing is written out exactly. -/
theorem isExact_ofOptionalText (s : Option String) : IsExact (ofOptionalText s) := by
  cases s with
  | none => exact .null
  | some s => exact .string s

/-- Reports are kept apart if their values are read back. -/
theorem faithful_of_back (back : ∀ a, c.read (write a) = some a)
    (exact : ∀ a, IsExact (write a)) : Faithful c write := by
  have hback : ∀ r, readReport? c (reportText write r) = some r := by
    intro r
    unfold readReport? reportText
    rw [Json.parse?_render (isExact_ofRemote exact r)]
    exact remote?_ofRemote back r
  -- Any document that holds a report is read as it, and what is read back cannot come from two
  -- reports.
  refine ⟨hback, ?_, ?_⟩
  · intro s j r hs hheld
    unfold readReport?
    rw [hs]
    exact remote?_of_holds back hheld
  · intro r r' htext
    have h := hback r
    rw [htext, hback r'] at h
    exact (Option.some.inj h).symm

/-- Reports of loosely typed values, and of texts that may be absent, are read back from their texts
    and from every text with the same members, so that no two of them are written alike. -/
theorem reports_faithful :
    Faithful valueContent ofValue ∧ Faithful optionalTextContent ofOptionalText :=
  ⟨faithful_of_back value?_ofValue isExact_ofValue,
    faithful_of_back optionalText?_ofOptionalText isExact_ofOptionalText⟩

/-- The definite absence of a value, written behind a member that no report has. -/
theorem reports_faithful_null :
    readReport? valueContent "\x7b\"note\": [1], \"value\": null, \"state\": \"set\"\x7d" =
        some (.set .null) ∧
      readReport? optionalTextContent "\x7b\"note\": [1], \"value\": null, \"state\": \"set\"\x7d" =
        some (.set none) := by
  have hparse : Json.parse? "\x7b\"note\": [1], \"value\": null, \"state\": \"set\"\x7d" =
      some (.object
        [("note", .array [.integer 1]), ("value", .null), ("state", .string "set")]) := by
    cbv
  have horder : [("note", Json.array [.integer 1]), ("value", .null), ("state", .string "set")].Perm
      ([("state", .string "set"), ("value", .null)] ++ [("note", .array [.integer 1])]) :=
    (List.reverse_perm _).symm
  exact ⟨reports_faithful.1.held hparse (.mk rfl (by simp) horder),
    reports_faithful.2.held hparse (.mk rfl (by simp) horder)⟩

end Federation.Wire
