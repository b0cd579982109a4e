import Federation.Call.Pool
import Federation.Directory.LocalId
import Federation.Directory.Server
import Federation.Domain.Basic
import Federation.Request

/-! # Directories

A `Directory` is a provider that keeps its entries itself.  Its calls either run at the same time,
each on a connection of its own, or one after the other on the single connection of an exclusive
access domain.

* `server_mapServer` — what is done to the server is done to it, whatever the access. -/

namespace Federation

namespace Directory

/-- The connections to a directory's server. -/
inductive Access where
  | concurrent (pool : Pool Server Output)
  | serialized (domain : Domain Unit Server Output)

namespace Access

/-- The server behind the connections. -/
def server : Access → Server
  | concurrent pool => pool.shared
  | serialized domain => domain.shared

/-- Do something to the server. -/
def mapServer (f : Server → Server) : Access → Access
  | concurrent pool => concurrent { pool with shared := f pool.shared }
  | serialized domain => serialized { domain with shared := f domain.shared }

@[simp] theorem server_mapServer (f : Server → Server) (a : Access) :
    (a.mapServer f).server = f a.server := by
  cases a <;> rfl

/-- How calls are scheduled. -/
def mode : Access → AccessMode
  | concurrent _ => .concurrent
  | serialized domain => .serialized domain.name

instance : Host Access (Work Unit Server Output) Output where
  settle
    | now, concurrent pool => concurrent (Timed.settle now pool)
    | now, serialized domain => serialized (Timed.settle now domain)
  next?
    | concurrent pool => Timed.next? pool
    | serialized domain => Timed.next? domain
  load
    | concurrent pool => Timed.load pool
    | serialized domain => Timed.load domain
  submit
    | id, work, concurrent pool => concurrent (Host.submit id work pool)
    | id, work, serialized domain => serialized (Host.submit id (.async, work) domain)
  ripen
    | now, concurrent pool => concurrent (Host.ripen now pool)
    | now, serialized domain => serialized (Host.ripen now domain)
  due?
    | concurrent pool, id => Host.due? pool id
    | serialized domain, id => Host.due? domain id
  abort
    | id, concurrent pool => concurrent (Host.abort id pool)
    | id, serialized domain => serialized (Host.abort id domain)
  ended?
    | concurrent pool, id => Host.ended? pool id
    | serialized domain, id => Host.ended? domain id

end Access

end Directory

/-- A provider with entries of its own. -/
structure Directory where
  id : ProviderId
  capabilities : Capabilities := .all
  rule : Directory.LocalIdRule := .asIs
  /-- The data model. -/
  supported : List Property := Property.all
  access : Directory.Access := .concurrent { shared := {} }

namespace Directory

/-- Any number of connections to a server. -/
def concurrently (s : Server) : Access := .concurrent { shared := s }

/-- One connection to the server of a directory. -/
def serially (id : ProviderId) (callDeadline : Option Nat) (s : Server) : Access :=
  .serialized
    { name := id.name ++ "-connection", callDeadline := callDeadline, factory := fun _ => .ok ()
      shared := s }

/-- The server of a directory. -/
def server (d : Directory) : Server := d.access.server

/-- Do something to the server of a directory. -/
def mapServer (f : Server → Server) (d : Directory) : Directory :=
  { d with access := d.access.mapServer f }

/-- The statistics of the access domain, if there is one. -/
def domainStats? (d : Directory) : Option Domain.Stats :=
  match d.access with
  | .concurrent _ => none
  | .serialized domain => some domain.stats

/-- The local identifier of the user that a caller knows as `external`. -/
def localId (d : Directory) (external : String) : Except Fault String :=
  orCannotInfer d.id external (d.rule.ofExternal? external)

/-- The local identifier of the user of whom another provider has a record. -/
def localIdFrom (d : Directory) (r : Record) : Except Fault String :=
  orCannotInfer d.id r.account.text (d.rule.ofRecord? r)

/-- The work of a request. -/
def work (d : Directory) (r : Request) : Work Unit Server Output :=
  Server.work d.id d.supported r.operation r.localId

instance : Host Directory Request Output where
  settle now d := { d with access := Timed.settle now d.access }
  next? d := Timed.next? d.access
  load d := Timed.load d.access
  submit id r d := { d with access := Host.submit id (d.work r) d.access }
  ripen now d := { d with access := Host.ripen now d.access }
  due? d id := Host.due? d.access id
  abort id d := { d with access := Host.abort id d.access }
  ended? d id := Host.ended? d.access id

end Directory

end Federation
