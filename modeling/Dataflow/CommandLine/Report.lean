import Dataflow.Graph.RelayCycles
import Dataflow.Registry
import Dataflow.Text.Lines
import Dataflow.Value.Text

/-!
# What commands print

* `EventKind.lines` tells an event, `ExecutionResult.summary` the end of a run;
* `Graph.outputLines` lists the values that the outputs of a graph hold;
* `Graph.problems` lists edges whose types do not fit, and cycles of relays;
* `Registry.listing` lists the types of nodes.
-/

namespace Dataflow

/-- The text of a number of milliseconds. -/
def milliseconds (ms : Nat) : String :=
  toString ms ++ "ms"

/-- The line of a message of a node. -/
def NodeEvent.line (id : NodeId) (event : NodeEvent) : String :=
  let said := match event with
    | info message => message
    | warning message => "warning: " ++ message
    | progress percent none => String.ofList percent.plain ++ "%"
    | progress percent (some message) => String.ofList percent.plain ++ "% - " ++ message
  "     [" ++ id.text ++ "] " ++ said

/-- What is printed for an event. -/
def EventKind.texts : EventKind → List String
  | started nodes edges => ["Execution started (" ++ toString nodes ++ " nodes, " ++ toString edges ++ " edges)"]
  | stateChanged source target => ["  state: " ++ source.name ++ " -> " ++ target.name]
  | iteration n => ["Iteration " ++ toString n]
  | nodeStarted id typeId => ["  > " ++ id.text ++ " (" ++ typeId ++ ")"]
  | nodeCompleted id true _ duration => ["  ok " ++ id.text ++ " in " ++ milliseconds duration]
  | nodeCompleted id false error _ => ["  FAILED " ++ id.text ++ ": " ++ error.getD "unknown error"]
  | dataPropagated id transfers => transfers.map fun t =>
    "  " ++ id.text ++ " -> " ++ t.target.text ++ ": " ++ t.value.display
  | nodeEvent id event => [event.line id]
  | completed result => ["Execution completed in " ++ milliseconds result.duration]
  | cancelled result => ["Execution cancelled after " ++ toString result.iterations ++ " iterations"]
  | failed error _ => ["Execution failed: " ++ error]

/-- The lines that are printed for an event. -/
def EventKind.lines (kind : EventKind) : List String :=
  kind.texts.flatMap Text.lines

/-- The end of a run. -/
def ExecutionResult.summary (r : ExecutionResult) : List String :=
  ["", "Execution Summary:", "   Execution ID: " ++ r.executionId.text,
   "   Iterations: " ++ toString r.iterations, "   Duration: " ++ milliseconds r.duration]

/-- The outputs of a node that hold a value. -/
def Node.heldOutputs (n : Node) : Keyed Value :=
  (Keyed.mapValues Port.data n.outputs).filter fun entry => !entry.2.isNull

/-- The outputs of a node, if there are any with a value. -/
def Node.outputTexts (n : Node) : List String :=
  match n.heldOutputs with
  | [] => []
  | held => ("   " ++ n.label ++ " (" ++ n.typeId ++ "):") ::
    held.map fun (name, v) => "     " ++ name ++ ": " ++ v.display

/-- The outputs of all nodes, if there are any with a value. -/
def Graph.outputLines (g : Graph) : List String :=
  match g.nodeList.flatMap Node.outputTexts with
  | [] => []
  | texts => "" :: "Outputs:" :: texts.flatMap Text.lines

/-- How many nodes and edges a graph has. -/
def Graph.sizeLines (g : Graph) : List String :=
  ["   Nodes: " ++ toString g.order.length, "   Edges: " ++ toString g.edges.length]

/-- The type of a port in a report, which says so if there is no such port. -/
def Graph.typeText (g : Graph) (id : PortId) : String :=
  match g.port? id with
  | some p => "Some(" ++ p.dataType.name.capitalize ++ ")"
  | none => "None"

/-- The report of an edge whose types do not fit. -/
def Graph.flaggedText (g : Graph) (e : Edge) : String :=
  "   incompatible edge " ++ e.describe ++ " (" ++ g.typeText e.source ++ " -> " ++ g.typeText e.target ++ ")"

/-- The report of a cycle of relays. -/
def Graph.cycleText (g : Graph) (cycle : List NodeId) : String :=
  "   direct-through relay cycle: " ++ " -> ".intercalate ((cycle.filterMap g.node?).map Node.label)

/-- The reports of all that is wrong with a graph. -/
def Graph.problems (g : Graph) : List String :=
  g.flagged.map g.flaggedText ++ g.relayCycles.map g.cycleText

/-- The types of nodes that a registry knows. -/
def Registry.listing (registry : Registry) : List String :=
  "Available Node Types:" :: "" :: registry.flatMap fun (typeId, type) =>
    ["  - " ++ typeId ++ " (" ++ type.metadata.category ++ ")", "    " ++ type.metadata.description]

end Dataflow
