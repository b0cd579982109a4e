import Federation.Call.Work
import Federation.Directory.Entry
import Federation.Table

/-! # Directory servers

The `Server` of a directory holds its entries, and every connection works on it.  It can be made
slow, and it can be made to fail; both are looked up by each call: the latency when the call
arrives, the failure after the latency.

* `entries_enter`, `entries_leave` — only an answer changes entries.
* `entries_answer_read` — and only to a change of a password. -/

namespace Federation.Directory

/-- What all connections to a directory share. -/
structure Server where
  entries : Table String Entry := Table.empty
  /-- The message with which every call fails. -/
  failure : Option String := none
  /-- How many milliseconds a call takes. -/
  latency : Nat := 0
  /-- The calls that arrived. -/
  calls : Nat := 0
  /-- The calls in progress. -/
  active : Nat := 0
  /-- The most calls that were in progress at the same time. -/
  maxActive : Nat := 0

namespace Server

/-- Add an entry, or replace the one of the same identifier. -/
def insert (s : Server) (e : Entry) : Server :=
  { s with entries := s.entries.insert e.localId e }

/-- The entry of an identifier. -/
def entry? (s : Server) (localId : String) : Option Entry := s.entries.get? localId

/-- A call arrives. -/
def enter (s : Server) : Server :=
  { s with
    calls := s.calls + 1
    active := s.active + 1
    maxActive := max s.maxActive (s.active + 1) }

/-- A call is over. -/
def leave (s : Server) : Server := { s with active := s.active - 1 }

/-- Read an entry. -/
def read (provider : ProviderId) (supported : List Property) (o : Operation) (localId : String)
    (s : Server) : Output :=
  match s.entry? localId with
  | some e => .record (e.record provider supported o)
  | none => .notFound

/-- Store a password. -/
def changePassword (provider : ProviderId) (localId password : String) (s : Server) :
    Server × Except Fault Output :=
  match s.entry? localId with
  | some e =>
    ({ s with entries := s.entries.insert localId { e with password := some password } },
      .ok .completed)
  | none => (s, .error (.provider provider s!"no such user '{localId}'"))

/-- Answer a call. -/
def answer (provider : ProviderId) (supported : List Property) (o : Operation) (localId : String)
    (s : Server) : Server × Except Fault Output :=
  match s.failure, o with
  | some message, _ => (s, .error (.provider provider message))
  | none, .read _ => (s, .ok (s.read provider supported o localId))
  | none, .changePassword password => s.changePassword provider localId password

/-- The work of a call: it arrives, waits for the latency, is answered and leaves. -/
def work (provider : ProviderId) (supported : List Property) (o : Operation) (localId : String) :
    Work Unit Server Output := fun _ s =>
  ((), s.enter,
    { pause := some s.latency
      finish := fun _ s =>
        let (s, r) := s.answer provider supported o localId
        ((), s.leave, .returned r)
      leave := leave })

@[simp] theorem entries_enter (s : Server) : s.enter.entries = s.entries := rfl

@[simp] theorem entries_leave (s : Server) : s.leave.entries = s.entries := rfl

theorem entries_answer_read (provider : ProviderId) (supported : List Property)
    (ps : Option (List Property)) (localId : String) (s : Server) :
    (s.answer provider supported (.read ps) localId).1 = s := by
  unfold answer; split <;> simp_all

end Server

end Federation.Directory
