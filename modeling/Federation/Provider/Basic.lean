import Federation.Directory.Basic
import Federation.Provider.Custom

/-! # Providers

What takes part in a federation: a directory that keeps its entries itself, or a custom provider. -/

namespace Federation

/-- A member of a federation. -/
inductive Provider where
  | directory (d : Directory)
  | custom (c : Custom)

namespace Provider

/-- The name of a provider. -/
def id : Provider → ProviderId
  | directory d => d.id
  | custom c => c.id

/-- The operations that a provider says it can perform. -/
def capabilities : Provider → Capabilities
  | directory d => d.capabilities
  | custom c => c.capabilities

/-- How calls into a provider are scheduled. -/
def mode : Provider → AccessMode
  | directory d => d.access.mode
  | custom _ => .concurrent

/-- The local identifier of the user that a caller knows as `external`. -/
def localId (external : String) : Provider → Except Fault String
  | directory d => d.localId external
  | custom c => c.localId external

/-- The local identifier of the user of whom another provider has a record. -/
def localIdFrom (r : Record) : Provider → Except Fault String
  | directory d => d.localIdFrom r
  | custom c => c.localIdFrom r

/-- Do something to a directory. -/
def mapDirectory (f : Directory → Directory) : Provider → Provider
  | directory d => directory (f d)
  | custom c => custom c

/-- The directory that a provider is. -/
def directory? : Provider → Option Directory
  | directory d => some d
  | custom _ => none

/-- The requests that a custom provider has seen. -/
def seen? : Provider → Option (List Request)
  | directory _ => none
  | custom c => some c.seen

instance : Host Provider Request Output where
  settle
    | now, directory d => directory (Timed.settle now d)
    | now, custom c => custom (Timed.settle now c)
  next?
    | directory d => Timed.next? d
    | custom c => Timed.next? c
  load
    | directory d => Timed.load d
    | custom c => Timed.load c
  submit
    | i, r, directory d => directory (Host.submit i r d)
    | i, r, custom c => custom (Host.submit i r c)
  ripen
    | now, directory d => directory (Host.ripen now d)
    | now, custom c => custom (Host.ripen now c)
  due?
    | directory d, i => Host.due? d i
    | custom c, i => Host.due? c i
  abort
    | i, directory d => directory (Host.abort i d)
    | i, custom c => custom (Host.abort i c)
  ended?
    | directory d, i => Host.ended? d i
    | custom c, i => Host.ended? c i

end Provider

end Federation
