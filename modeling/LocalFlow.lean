import LocalFlow.QueueOrder
import LocalFlow.EnqueueOrder
import LocalFlow.Lifecycle
import LocalFlow.Ownership
import LocalFlow.Deferral
import LocalFlow.Replay
import LocalFlow.Requests
import LocalFlow.Recovery
import LocalFlow.Stages
import LocalFlow.Outcomes
import LocalFlow.Completion
import LocalFlow.Boots
import LocalFlow.Shutdown
import LocalFlow.Survival
import LocalFlow.Snapshots
import LocalFlow.Eviction
import LocalFlow.Pagination
import LocalFlow.Supervisor
import LocalFlow.ProcessOwner
import LocalFlow.Freezing
import LocalFlow.Planning
import LocalFlow.Terminal
import LocalFlow.Residue
import LocalFlow.Archive
import LocalFlow.Integrity
import LocalFlow.LogVerdict
import LocalFlow.Evaluating
import LocalFlow.Includes
import LocalFlow.Watching
import LocalFlow.Stranding
import LocalFlow.Waiting
import LocalFlow.Signing
import LocalFlow.Preemption
import LocalFlow.Versioning
import LocalFlow.Displaying
import LocalFlow.Delivering
import LocalFlow.Disclosing
import LocalFlow.Library.Fillings
import LocalFlow.QueueIdentity
import LocalFlow.Layers
import LocalFlow.Library.Calendar
import LocalFlow.Library.Wildcard
import LocalFlow.Resolver
import LocalFlow.Storage.Remapping
import LocalFlow.TimeFilters
import LocalFlow.Capping
import LocalFlow.TerminalWindows
import LocalFlow.Reachability
import LocalFlow.Registering
import LocalFlow.Library.JsonText
import LocalFlow.Quarantine
import LocalFlow.Moving
import LocalFlow.Naming
import LocalFlow.Relocating
import LocalFlow.Library.Decoding
import LocalFlow.LogMerge
import LocalFlow.Launching
import LocalFlow.Attending
import LocalFlow.ConfigRoot
import LocalFlow.Library.Searching
import LocalFlow.LogSearch
import LocalFlow.Library.Subtrees
import LocalFlow.Workspace
import LocalFlow.WorkspaceListing
import LocalFlow.Recent
import LocalFlow.Sessions
import LocalFlow.EventChannel
import LocalFlow.Listening
import LocalFlow.Consumers
import LocalFlow.Library.Fairness
import LocalFlow.Settling
