import Federation.Coordinator.Batch
import Federation.Domain.Journal
import Federation.Wire.Action
import Federation.Wire.User

/-! # Documents of providers

What can be told of a provider, of what it answers, and of the actions about its users. -/

namespace Federation.Wire

/-- The document of a record. -/
def ofRecord (r : Record) : Json :=
  .object
    [ ("provider", ofProviderId r.provider), ("local_id", .string r.localId),
      ("properties", ofReports r) ]

/-- The document of what a provider answers. -/
def ofOutput : Output → Json
  | .record r => ofRecord r
  | .notFound => .string "not_found"
  | .completed => .string "completed"

/-- The document of an entry of a directory, without its password. -/
def ofEntry (e : Directory.Entry) : Json :=
  .array
    [ .string e.localId, .string e.persistentId, Json.ofString? e.firstName,
      Json.ofString? e.lastName, Json.ofString? e.nickname, .strings e.emails,
      .bool e.isSuspended ]

/-- The document of how calls are scheduled. -/
def ofMode : AccessMode → Json
  | .concurrent => .string "concurrent"
  | .serialized d => .object [("serialized", .string d)]

/-- The document of the statistics of an access domain. -/
def ofStats (s : Domain.Stats) : Json :=
  .array [.natural s.completed, .natural s.failed, .natural s.timedOut, .natural s.opened]

/-- The document of the statistics of a directory. -/
def ofDirectoryStats (d : Directory) : Json :=
  .object
    [ ("calls", .natural d.server.calls), ("max_concurrent", .natural d.server.maxActive),
      ("domain", Json.ofOption ofStats d.domainStats?) ]

/-- The members of the document of how a call on a journal ended. -/
def membersOfEnding : Ending Journal → List (String × Json)
  | .returned (.ok j) =>
    [("ok", .object [("handle", .natural j.number), ("log", .strings j.tags)])]
  | .returned (.error f) => membersOfFault f
  | .crashed => [("error", .string "Panicked")]

/-- What can be told of an action about a user of a provider. -/
def ofProviderAction (a : ProviderAction) : Json :=
  let final : Outcome Output → Json
    | .succeeded o => ofOutput o
    | o => ofOutcome ofOutput o
  .object
    [ ("status", ofStatus a.status), ("label", .string a.label),
      ("subject", Json.ofString? (a.subject.account?.map Account.text)),
      ("deadline_ms", Json.ofOption .natural a.deadline),
      ("parameters", Json.ofString? (a.latest.map Operation.inspect)),
      ("result", ofResult final a.result) ]

end Federation.Wire
