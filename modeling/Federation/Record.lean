import Federation.Property
import Federation.ProviderId
import Federation.Remote

/-! # Records

A `Record` is what one provider reports about one user.  It is built from the blank record of an
account by reporting properties one after the other; the last report about a property counts.  The
identifier is fixed by the account, so a report about it is ignored.

* `get_report` — what a record says after one more report.
* `get_id_ofReports`, `get_ofReports` — the identifier of a built record is its account's, and of
  every other property it says what the last report about it says.
* `text?_eq_some_iff`, `emails_eq` — what is read off a record. -/

namespace Federation

/-- One provider's report about one user. -/
structure Record where
  account : Account
  /-- What is said about each property. -/
  get : Property → Remote Value

namespace Record

/-- The provider that reports. -/
def provider (r : Record) : ProviderId := r.account.provider

/-- The identifier of the user inside that provider. -/
def localId (r : Record) : String := r.account.localId

/-- The record that says nothing but the identifier. -/
def blank (a : Account) : Record where
  account := a
  get
    | .id => .set (.text a.localId)
    | _ => .unset

/-- The record with one more report.  The identifier is not reported but given by the account. -/
def report (r : Record) (p : Property) (state : Remote Value) : Record :=
  if p = .id then r
  else { r with get := fun q => if q = p then state else r.get q }

/-- The record with one more answer. -/
def answer (r : Record) (p : Property) (v : Value) : Record :=
  r.report p (.set v)

/-- The record built from reports in their order. -/
def ofReports (a : Account) (reports : List (Property × Remote Value)) : Record :=
  reports.foldl (fun r s => r.report s.1 s.2) (blank a)

/-- What can be said about a property of a user. -/
inductive Statement where
  | persistentId (s : String)
  | firstName (s? : Option String)
  | lastName (s? : Option String)
  | nickname (s? : Option String)
  | isSuspended (b? : Option Bool)
  | emails (xs : List String)
  /-- A property has a value, of whatever kind. -/
  | answer (p : Property) (v : Value)
  /-- The data model has no such property. -/
  | unsupported (p : Property)
  /-- What was decoded, as it is. -/
  | report (p : Property) (state : Remote Value)

/-- The record with one more statement. -/
def say (r : Record) : Statement → Record
  | .persistentId s => r.answer .persistentId (.text s)
  | .firstName s? => r.answer .firstName (.ofText? s?)
  | .lastName s? => r.answer .lastName (.ofText? s?)
  | .nickname s? => r.answer .nickname (.ofText? s?)
  | .isSuspended b? => r.answer .isSuspended (.ofFlag? b?)
  | .emails xs => r.answer .emails (.textList xs)
  | .answer p v => r.answer p v
  | .unsupported p => r.report p .unsupported
  | .report p state => r.report p state

/-- The record built from statements in their order. -/
def ofStatements (a : Account) (ss : List Statement) : Record := ss.foldl say (blank a)

@[simp] theorem account_report (r : Record) (p : Property) (s : Remote Value) :
    (r.report p s).account = r.account := by
  unfold report; split <;> rfl

theorem get_report (r : Record) (p q : Property) (s : Remote Value) :
    (r.report p s).get q = if q = p ∧ p ≠ .id then s else r.get q := by
  unfold report
  by_cases hp : p = .id <;> by_cases hq : q = p <;> simp_all

theorem account_ofReports (a : Account) (reports : List (Property × Remote Value)) :
    (ofReports a reports).account = a :=
  List.foldlRecOn reports _ (motive := fun r : Record => r.account = a) rfl
    fun r hr s _ => (account_report r s.1 s.2).trans hr

theorem get_id_ofReports (a : Account) (reports : List (Property × Remote Value)) :
    (ofReports a reports).get .id = .set (.text a.localId) := by
  refine List.foldlRecOn reports _ (motive := fun r : Record => r.get .id = .set (.text a.localId))
    rfl ?_
  intro r hr s _
  have hnot : ¬(Property.id = s.1 ∧ s.1 ≠ .id) := fun h => h.2 h.1.symm
  rw [get_report, if_neg hnot, hr]

theorem get_blank {p : Property} (hp : p ≠ .id) (a : Account) : (blank a).get p = .unset := by
  cases p
  case id => exact absurd rfl hp
  all_goals rfl

/-- The last report about a property counts. -/
theorem get_ofReports {p : Property} (hp : p ≠ .id) (a : Account)
    (reports : List (Property × Remote Value)) :
    (ofReports a reports).get p =
      ((reports.reverse.find? fun s => s.1 = p).map Prod.snd).getD .unset := by
  have last : ∀ (reports : List (Property × Remote Value)) (r : Record),
      (reports.foldl (fun r s => r.report s.1 s.2) r).get p =
        ((reports.reverse.find? fun s => s.1 = p).map Prod.snd).getD (r.get p) := by
    intro reports
    induction reports with
    | nil => intro r; rfl
    | cons s rest ih =>
      intro r
      rw [List.foldl_cons, ih, get_report, List.reverse_cons, List.find?_append,
        List.find?_singleton]
      -- The report at the head counts only if there is no later one.
      cases rest.reverse.find? fun s => s.1 = p with
      | some t => rfl
      | none => by_cases hs : s.1 = p <;> simp [hs, hp, Ne.symm]
  rw [← get_blank hp a]
  exact last reports (blank a)

/-- The text of a property that is answered with a text. -/
def text? (r : Record) (p : Property) : Option String :=
  (r.get p).value?.bind Value.asText?

theorem text?_eq_some_iff {r : Record} {p : Property} {s : String} :
    r.text? p = some s ↔ r.get p = .set (.text s) := by
  unfold text?
  rcases r.get p with _ | _ | (_ | _ | _ | _) <;> simp [Remote.value?, Value.asText?]

/-- The identifier that survives renames, if it is reported. -/
def persistentId? (r : Record) : Option String := r.text? .persistentId

/-- The reported email addresses; none if they are not answered with a list. -/
def emails (r : Record) : List String :=
  ((r.get .emails).value?.bind Value.asTextList?).getD []

theorem emails_eq {r : Record} {xs : List String} (h : r.get .emails = .set (.textList xs)) :
    r.emails = xs := by
  rw [emails, h]
  rfl

/-- Where there are emails, they are the reported list. -/
theorem get_emails_of_mem {r : Record} {x : String} (h : x ∈ r.emails) :
    r.get .emails = .set (.textList r.emails) := by
  revert h
  unfold emails
  rcases r.get .emails with _ | _ | (_ | _ | _ | _) <;> simp [Remote.value?, Value.asTextList?]

/-- The properties about which the record says something, in canonical order. -/
def reported (r : Record) : List (Property × Remote Value) :=
  Property.all.filterMap fun p => if (r.get p).isUnset then none else some (p, r.get p)

theorem mem_reported {r : Record} {p : Property} {s : Remote Value} :
    (p, s) ∈ r.reported ↔ r.get p = s ∧ s.isUnset = false := by
  simp only [reported, List.mem_filterMap]
  constructor
  · rintro ⟨q, -, h⟩
    split at h
    · simp at h
    · next hq =>
      obtain ⟨rfl, rfl⟩ := Prod.mk.injEq .. ▸ Option.some.injEq .. ▸ h
      exact ⟨rfl, by simpa using hq⟩
  · rintro ⟨rfl, h⟩
    exact ⟨p, p.mem_all, by simp [h]⟩

end Record

end Federation
