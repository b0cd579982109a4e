import Federation.Action.Workshop
import Federation.Call.Caller
import Federation.Coordinator.Blueprint
import Federation.Coordinator.Fetch
import Federation.Uuid
import Federation.Wire.Provider
import Federation.Proofs.Merge.FirstSet
import Federation.Proofs.Action.Delivery
import Federation.Proofs.Action.History
import Federation.Proofs.Action.Settling
import Federation.Proofs.Action.Lifecycle
import Federation.Proofs.Call.Lawful
import Federation.Proofs.Call.Pool
import Federation.Proofs.Timed
import Federation.Proofs.Domain.Lawful
import Federation.Proofs.Provider.Lawful
import Federation.Proofs.Action.Watch
import Federation.Proofs.Action.Verdict
import Federation.Proofs.Action.Account
import Federation.Proofs.Provider.Profile
import Federation.Proofs.Coordinator.Blueprint
import Federation.Proofs.Coordinator.Reachable
import Federation.Proofs.Coordinator.Batch
import Federation.Proofs.Coordinator.Execute
import Federation.Proofs.Coordinator.Inference
import Federation.Proofs.Coordinator.Fetch
import Federation.Proofs.Action.Pledge
import Federation.Proofs.Provider.Pledge
import Federation.Proofs.Domain.Custody
import Federation.Proofs.Domain.Balance
import Federation.Proofs.Fault
import Federation.Proofs.Outcomes
import Federation.Proofs.Call.Regime
import Federation.Proofs.Domain.Regime
import Federation.Proofs.Provider.Regime
import Federation.Proofs.Directory.Ledger
import Federation.Proofs.Coordinator.Each
import Federation.Proofs.Coordinator.Scenario
import Federation.Proofs.Coordinator.Change
import Federation.Proofs.Coordinator.Saturation
import Federation.Proofs.Provider.Records
import Federation.Proofs.Coordinator.Exhaustion
import Federation.Proofs.Merge.Support
import Federation.Proofs.Action.Cancellation
import Federation.Proofs.Action.Callbacks
import Federation.Proofs.Action.Onset
import Federation.Proofs.Merge.Accounting
import Federation.Proofs.Merge.Union
import Federation.Proofs.Action.Lasting
import Federation.Proofs.Action.Joining
import Federation.Proofs.Call.Errand
import Federation.Proofs.Action.Heat
import Federation.Proofs.Action.Race
import Federation.Proofs.Coordinator.Isolation
import Federation.Proofs.Coordinator.Closure
import Federation.Proofs.Coordinator.Permutation
import Federation.Proofs.Merge.Isolation
import Federation.Proofs.Merge.Ranks
import Federation.Proofs.Config.Validity
import Federation.Proofs.Config.Ranks
import Federation.Proofs.Domain.Desk
import Federation.Proofs.Action.Progress
import Federation.Proofs.Coordinator.Progress
import Federation.Proofs.Coordinator.Cancel
import Federation.Proofs.Coordinator.Events
import Federation.Proofs.Directory.Schedule
import Federation.Proofs.Coordinator.Connection
import Federation.Proofs.Directory.Secret
import Federation.Proofs.Action.Alike
import Federation.Proofs.Coordinator.Alike
import Federation.Proofs.Coordinator.Secret
import Federation.Proofs.Wire.Remote
import Federation.Proofs.Wire.Config
import Federation.Proofs.Coordinator.Recount
import Federation.Proofs.Coordinator.Repeats
import Federation.Proofs.Action.Workshop
import Federation.Proofs.Directory.Reading
import Federation.Proofs.Outcomes.History
import Federation.Proofs.Directory.Identifiers
import Federation.Proofs.Merge.Identity
import Federation.Proofs.Config.Deadlines
import Federation.Proofs.Action.Sections
