import Federation.Coordinator.Batch
import Federation.Coordinator.Inference
import Federation.Merge.Tally

/-! # Fetching a user

A user is read from every target, and the records are merged.  Targets that cannot infer their local
identifier are tried again with the identifiers that the records of the others suggest. -/

namespace Federation

/-- A user who was fetched from several providers. -/
structure FederatedUser where
  user : LogicalUser
  outcomes : Outcomes Output

namespace FederatedUser

/-- The records that were merged. -/
def records (u : FederatedUser) : List Record :=
  u.outcomes.successes.filterMap fun e => e.2.record?

/-- Whether some provider knows the user. -/
def isFound (u : FederatedUser) : Bool := !u.records.isEmpty

end FederatedUser

namespace Coordinator

/-- How a target infers its local identifiers, if it is registered. -/
def infer? (c : Coordinator) (p : ProviderId) : Option (Record → Except Fault String) :=
  (c.station? p).map fun s r => s.provider.localIdFrom r

/-- Read the user again from some targets, with the local identifiers given for them. -/
def retry (limit : Nat) (attempts : List (ProviderId × String)) (c : Coordinator) :
    Coordinator × Option (Outcomes Output) :=
  let (c, es) := launchAll .readAll (attempts.map fun (p, id) => (p, fun _ => .ok id)) c
  c.wait limit ⟨Operation.readAll.name, es⟩

/-- Merge the records among some results; the observer is told of the warnings. -/
def merge (rs : Inference.Results) (c : Coordinator) : Coordinator × FederatedUser :=
  let outcomes := Outcomes.ofList rs
  let records := outcomes.successes.filterMap fun e => e.2.record?
  let (user, told) := c.engine.mergeObserved records
  (c.tell (told.map .warning), ⟨user, outcomes⟩)

/-- Read the user from every target and merge the records, but do not wait beyond `limit`. -/
def fetch (limit : Nat) (external : String) (targets : Targets) (c : Coordinator) :
    Coordinator × Option FederatedUser :=
  match c.execute limit .readAll external targets with
  | (c, none) => (c, none)
  | (c, some first) =>
    let rounds := Inference.maxRounds first.size
    match Inference.repeatedly c.infer? (retry limit) rounds first.entries {} c with
    | (c, none) => (c, none)
    | (c, some rs) =>
      let (c, u) := c.merge rs
      (c, some u)

end Coordinator

end Federation
