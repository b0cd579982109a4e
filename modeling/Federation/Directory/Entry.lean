import Federation.Operation

/-! # Entries of a directory

An `Entry` is what a directory stores about one user.  A directory has a data model: properties
outside it are reported as unsupported, whatever the entry holds.

* `check_value` — an entry holds only values that its properties accept.
* `get_record` — what the record read from an entry says about each property. -/

namespace Federation.Directory

/-- One user as a directory stores them. -/
structure Entry where
  localId : String
  persistentId : String
  firstName : Option String := none
  lastName : Option String := none
  nickname : Option String := none
  emails : List String := []
  isSuspended : Bool := false
  password : Option String := none
  deriving DecidableEq, Repr

namespace Entry

/-- The value of a property. -/
def value (e : Entry) : Property → Value
  | .id => .text e.localId
  | .persistentId => .text e.persistentId
  | .isSuspended => .flag e.isSuspended
  | .firstName => .ofText? e.firstName
  | .lastName => .ofText? e.lastName
  | .nickname => .ofText? e.nickname
  | .emails => .textList e.emails

theorem check_ofText? {p : Property} (kind : p.kind = .text) (nullable : p.isNullable = true)
    (s : Option String) : p.check (.ofText? s) = .ok () := by
  cases s <;> simp [Property.check, Value.ofText?, Value.isNull, Value.kind?, kind, nullable]

theorem check_value (e : Entry) (p : Property) : p.check (e.value p) = .ok () := by
  cases p
  case firstName => exact check_ofText? rfl rfl _
  case lastName => exact check_ofText? rfl rfl _
  case nickname => exact check_ofText? rfl rfl _
  all_goals rfl

/-- What a read reports about a property that it asks for. -/
def report (supported : List Property) (e : Entry) (p : Property) : Remote Value :=
  if supported.contains p then .set (e.value p) else .unsupported

/-- The record that a read yields. -/
def record (provider : ProviderId) (supported : List Property) (o : Operation) (e : Entry) :
    Record :=
  .ofReports ⟨provider, e.localId⟩
    ((Property.all.filter o.requests).map fun p => (p, e.report supported p))

theorem get_ofReports_of_mem {a : Account} {ps : List Property} {f : Property → Remote Value}
    {q : Property} (hq : q ≠ .id) :
    (Record.ofReports a (ps.map fun p => (p, f p))).get q =
      if q ∈ ps then f q else .unset := by
  have step : ∀ (ps : List Property) (r : Record),
      ((ps.map fun p => (p, f p)).foldl (fun r s => r.report s.1 s.2) r).get q =
        if q ∈ ps then f q else r.get q := by
    intro ps
    induction ps with
    | nil => simp
    | cons p ps ih =>
      intro r
      rw [List.map_cons, List.foldl_cons, ih, Record.get_report]
      by_cases h : q ∈ ps <;> by_cases hp : q = p <;> simp_all
  rw [Record.ofReports, step]
  cases q <;> simp_all [Record.blank]

theorem get_record {provider : ProviderId} {supported : List Property} {o : Operation} {e : Entry}
    {p : Property} (hp : p ≠ .id) :
    (e.record provider supported o).get p =
      if o.requests p then e.report supported p else .unset := by
  rw [record, get_ofReports_of_mem hp]
  simp [Property.mem_all]

end Entry

end Federation.Directory
