import Dataflow.CommandLine.Transcript
import Dataflow.Executor.Detached
import Dataflow.Main
import Dataflow.Rehearsal
import Dataflow.Proofs.Basic
import Dataflow.Proofs.Port.Elements
import Dataflow.Proofs.Port.Tree
import Dataflow.Proofs.Port.Placement
import Dataflow.Proofs.Port.Edit
import Dataflow.Proofs.Port.Mirror
import Dataflow.Proofs.Graph
import Dataflow.Proofs.Graph.Editing
import Dataflow.Proofs.Graph.Indexes
import Dataflow.Proofs.Graph.Transfer
import Dataflow.Proofs.Run.Acts
import Dataflow.Proofs.Run.Driving
import Dataflow.Proofs.Run.Moves
import Dataflow.Proofs.Run.Relays
import Dataflow.Proofs.Run.Delivery
import Dataflow.Proofs.Run.Deeds
import Dataflow.Proofs.Run.Fellows
import Dataflow.Proofs.Run.Events
import Dataflow.Proofs.Run.Control
import Dataflow.Proofs.Run.Endings
import Dataflow.Proofs.Run.Outputs
import Dataflow.Proofs.Run.Reached
import Dataflow.Proofs.Document.Loading
import Dataflow.Proofs.Document.RoundTrip
import Dataflow.Proofs.Document.Identity
import Dataflow.Proofs.Run.Pledges
import Dataflow.Proofs.Run.Essence
import Dataflow.Proofs.Run.Advances
import Dataflow.Proofs.Run.Simulation
import Dataflow.Proofs.Run.Agreement
import Dataflow.Proofs.Run.Pauses
import Dataflow.Proofs.Run.Journal
import Dataflow.Proofs.Run.Telling
import Dataflow.Proofs.Run.Record
import Dataflow.Proofs.Graph.RelayCycles
import Dataflow.Proofs.Graph.Removal
import Dataflow.Proofs.Run.RelayChains
import Dataflow.Proofs.Run.Demand
import Dataflow.Proofs.Run.Unattended
import Dataflow.Proofs.Run.Quiescence
import Dataflow.Proofs.Run.Sources
import Dataflow.Proofs.Event.Stream
import Dataflow.Proofs.Run.Statuses
import Dataflow.Proofs.Run.Conclusion
import Dataflow.Proofs.Run.Rousing
import Dataflow.Proofs.Run.Waking
import Dataflow.Proofs.Run.Cancellation
import Dataflow.Proofs.Run.Reuse
import Dataflow.Proofs.Run.Accord
import Dataflow.Proofs.Run.Barrier
import Dataflow.Proofs.Run.Failures
import Dataflow.Proofs.Port.Renaming
import Dataflow.Proofs.Node.Renaming
import Dataflow.Proofs.Node.Places
import Dataflow.Proofs.Run.Likeness
import Dataflow.Proofs.Run.Twins
import Dataflow.Proofs.Run.Confluence
import Dataflow.Proofs.Run.Arrivals
import Dataflow.Proofs.Run.Convoys
import Dataflow.Proofs.Run.Rounds
import Dataflow.Proofs.Run.Courses
import Dataflow.Proofs.Run.Headway
import Dataflow.Proofs.Run.ScanOrder
import Dataflow.Proofs.Document.Wiring
import Dataflow.Proofs.Document.Containers
import Dataflow.Proofs.Id
import Dataflow.Proofs.Port.Faithful
import Dataflow.Proofs.Port.Lens
import Dataflow.Proofs.Port.Identity
import Dataflow.Proofs.Node.Consumption
import Dataflow.Proofs.Json.Tokens
import Dataflow.Proofs.Json.Layouts
import Dataflow.Proofs.Json.Values
import Dataflow.Proofs.Json.Records
import Dataflow.Proofs.Document.Tree
import Dataflow.Proofs.Document.Text
import Dataflow.Proofs.Run.Dispatch
import Dataflow.Proofs.Run.Propagation
import Dataflow.Proofs.Port.Retyping
import Dataflow.Proofs.Graph.Retyping
import Dataflow.Proofs.Graph.Revalidation
import Dataflow.Proofs.Graph.Undoing
import Dataflow.Proofs.Graph.RelayGroups
import Dataflow.Proofs.Binary64
import Dataflow.Proofs.Value.Conversion
import Dataflow.Proofs.Value.Integers
import Dataflow.Proofs.Run.Unfolding
import Dataflow.Proofs.Run.Turns
import Dataflow.Proofs.Run.Wires
import Dataflow.Proofs.Run.PromptRounds
import Dataflow.Proofs.Run.Lanes
import Dataflow.Proofs.Run.WiredIterations
import Dataflow.Proofs.Standard.Nodes
import Dataflow.Proofs.Standard.Circuits
import Dataflow.Proofs.Standard.RelayLines
import Dataflow.Proofs.Standard.Distribution
import Dataflow.Proofs.Standard.Buffering
import Dataflow.Proofs.Node.Completion
import Dataflow.Proofs.Run.Readiness
