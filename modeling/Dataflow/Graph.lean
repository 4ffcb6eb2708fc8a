import Dataflow.Node
import Dataflow.Table

/-!
# Graphs

Nodes, and edges from output-side ports to input-side ports.

* `Graph` keeps, beside the nodes and edges, indexes for every question about connections: the owner of a
  port, the ports it feeds and those that feed it, and the edges whose types do not fit any more;
* `Graph.addNode`, `removeNode`, `addEdge` and `removeEdge` change what is connected;
* `Graph.write` and `Graph.setPortType` change ports and bring the index of owners up to date;
* `Graph.checkEdges` looks again at the edges of a node and flags those whose types do not fit.
-/

namespace Dataflow

/-- A connection from an output-side port to an input-side port. -/
structure Edge where
  source : PortId
  target : PortId
  deriving DecidableEq, Repr, Inhabited

/-- Why a graph refuses a change or a document. -/
inductive GraphError where
  | nodeNotFound (node : NodeId)
  | portNotFound (port : PortId)
  | duplicateNode (node : NodeId)
  | duplicateEdge (edge : Edge)
  | invalidDirection (edge : Edge)
  | incompatibleEdge (edge : Edge) (sourceType targetType : DataType)
  | unknownNodeType (typeId : String)
  | write (port : PortId) (source : ConversionError)
  | invalidDocument (message : String)
  deriving DecidableEq, Repr

/-- The two ends of an edge in words. -/
def Edge.describe (e : Edge) : String :=
  e.source.text ++ " -> " ++ e.target.text

/-- The wording of a refusal. -/
def GraphError.message : GraphError → String
  | nodeNotFound node => "Node not found: " ++ node.text
  | portNotFound port => "Port not found: " ++ port.text
  | duplicateNode node => "Duplicate node: " ++ node.text
  | duplicateEdge edge => "Edge " ++ edge.describe ++ " already exists"
  | invalidDirection edge => "Edge " ++ edge.describe ++ " must run from an output port to an input port"
  | incompatibleEdge edge sourceType targetType =>
    "Incompatible edge " ++ edge.describe ++ ": " ++ sourceType.name ++ " cannot flow into " ++ targetType.name
  | unknownNodeType typeId => "Unknown node type: " ++ typeId
  | write port source => "Port " ++ port.text ++ " rejected value: " ++ source.message
  | invalidDocument message => "Invalid graph document: " ++ message

/-- The name of a refusal. -/
def GraphError.kind : GraphError → String
  | nodeNotFound _ => "NodeNotFound"
  | portNotFound _ => "PortNotFound"
  | duplicateNode _ => "DuplicateNode"
  | duplicateEdge _ => "DuplicateEdge"
  | invalidDirection _ => "InvalidDirection"
  | incompatibleEdge .. => "IncompatibleEdge"
  | unknownNodeType _ => "UnknownNodeType"
  | write .. => "Write"
  | invalidDocument _ => "InvalidDocument"

/-- Nodes and edges with their indexes, and the identifiers that are left for new ports. -/
structure Graph where
  /-- The nodes in the order in which they were added, which is the order in which they are scanned. -/
  order : List NodeId
  nodes : Table NodeId Node
  /-- The edges in the order in which they were added. -/
  edges : List Edge
  /-- The edges as a set. -/
  edgeSet : List Edge
  /-- The node that a port belongs to. -/
  owners : Table PortId NodeId
  /-- The ports that a port feeds. -/
  outEdges : Table PortId (List PortId)
  /-- The ports that feed a port. -/
  inEdges : Table PortId (List PortId)
  /-- The edges that are known not to fit. -/
  flagged : List Edge
  supply : Supply

namespace Graph

/-- A graph without nodes. -/
def empty (supply : Supply) : Graph :=
  { order := [], nodes := [], edges := [], edgeSet := [], owners := [], outEdges := [], inEdges := [],
    flagged := [], supply }

/-- The node with an identifier. -/
def node? (g : Graph) (id : NodeId) : Option Node :=
  Table.find? id g.nodes

/-- The nodes in the order in which they were added. -/
def nodeList (g : Graph) : List Node :=
  g.order.filterMap g.node?

/-- Put a changed node in the place of the one with its identifier. -/
def setNode (g : Graph) (n : Node) : Graph :=
  { g with nodes := Table.set n.id n g.nodes }

/-- Change the node with an identifier, if there is one. -/
def modifyNode (g : Graph) (id : NodeId) (f : Node → Node) : Graph :=
  match g.node? id with
  | some n => g.setNode (f n)
  | none => g

/-- The node that a port belongs to. -/
def ownerOf? (g : Graph) (port : PortId) : Option NodeId :=
  Table.find? port g.owners

/-- The port with an identifier, found through its owner. -/
def port? (g : Graph) (port : PortId) : Option Port := do
  let owner ← g.ownerOf? port
  let n ← g.node? owner
  n.port? port

/-- The ports that a port feeds. -/
def outgoing (g : Graph) (port : PortId) : List PortId :=
  (Table.find? port g.outEdges).getD []

/-- The ports that feed a port. -/
def incoming (g : Graph) (port : PortId) : List PortId :=
  (Table.find? port g.inEdges).getD []

/-- The ports on the other side of the edges of a port. -/
def connectedPorts (g : Graph) (port : PortId) : List PortId :=
  g.incoming port ++ g.outgoing port

/-- Whether an edge is there and not flagged. -/
def isEdgeValid (g : Graph) (e : Edge) : Bool :=
  g.edgeSet.contains e && !g.flagged.contains e

/-- Enter a node as the owner of ports. -/
def own (node : NodeId) (owners : Table PortId NodeId) (ports : List PortId) : Table PortId NodeId :=
  ports.foldl (fun owners port => Table.set port node owners) owners

/-- The owners without the ports of a node. -/
def disown (node : NodeId) (owners : Table PortId NodeId) : Table PortId NodeId :=
  owners.filter fun entry => entry.2 ≠ node

/-- Bring the index of owners up to date for one node. -/
def reindex (g : Graph) (node : NodeId) : Graph :=
  match g.node? node with
  | none => g
  | some n => { g with owners := own node (disown node g.owners) n.portIds }

/-- Add a node. -/
def addNode (g : Graph) (n : Node) : Except GraphError Graph :=
  if Table.contains n.id g.nodes then .error (.duplicateNode n.id)
  else .ok
    { g with
      owners := own n.id g.owners n.portIds
      order := g.order ++ [n.id]
      nodes := Table.set n.id n g.nodes }

/-- Enter a neighbour of a port. -/
def enter (port neighbour : PortId) (index : Table PortId (List PortId)) : Table PortId (List PortId) :=
  Table.set port ((Table.find? port index).getD [] ++ [neighbour]) index

/-- Remove a neighbour of a port, and the entry of the port with its last neighbour. -/
def remove (port neighbour : PortId) (index : Table PortId (List PortId)) : Table PortId (List PortId) :=
  match Table.find? port index with
  | none => index
  | some neighbours =>
    let left := neighbours.filter (· ≠ neighbour)
    if left.isEmpty then Table.erase port index else Table.set port left index

/-- Add an edge to the list of edges and to the indexes. -/
def link (g : Graph) (e : Edge) : Graph :=
  { g with
    edges := g.edges ++ [e]
    edgeSet := insertNew e g.edgeSet
    outEdges := enter e.source e.target g.outEdges
    inEdges := enter e.target e.source g.inEdges }

/-- Add an edge that is known not to fit. -/
def linkFlagged (g : Graph) (e : Edge) : Graph :=
  let g := g.link e
  { g with flagged := insertNew e g.flagged }

/-- Take an edge out of the list of edges and out of the indexes. -/
def unlink (g : Graph) (e : Edge) : Graph :=
  { g with
    edges := g.edges.filter (· ≠ e)
    edgeSet := g.edgeSet.filter (· ≠ e)
    flagged := g.flagged.filter (· ≠ e)
    outEdges := remove e.source e.target g.outEdges
    inEdges := remove e.target e.source g.inEdges }

/-- Remove a node with every edge at its ports; the result is the node. -/
def removeNode (g : Graph) (id : NodeId) : Except GraphError (Node × Graph) :=
  match g.node? id with
  | none => .error (.nodeNotFound id)
  | some n =>
    let ids := n.portIds
    let touching := g.edges.filter fun e => ids.contains e.source || ids.contains e.target
    let g := touching.foldl unlink g
    .ok (n,
      { g with
        owners := disown id g.owners
        order := g.order.filter (· ≠ id)
        nodes := Table.erase id g.nodes })

/-- Connect two ports. -/
def addEdge (g : Graph) (source target : PortId) : Except GraphError Graph := do
  let some p := g.port? source | throw (.portNotFound source)
  let some q := g.port? target | throw (.portNotFound target)
  let e : Edge := ⟨source, target⟩
  if p.direction ≠ .output ∨ q.direction ≠ .input then throw (.invalidDirection e)
  if !p.canConnect q then throw (.incompatibleEdge e p.dataType q.dataType)
  if g.edgeSet.contains e then throw (.duplicateEdge e)
  return g.link e

/-- Remove an edge; the result says whether it was there. -/
def removeEdge (g : Graph) (source target : PortId) : Bool × Graph :=
  let e : Edge := ⟨source, target⟩
  if g.edgeSet.contains e then (true, g.unlink e) else (false, g)

/-- The owners of the neighbours of ports, each once. -/
def neighbours (g : Graph) (ports : List PortId) (adjacent : PortId → List PortId) : List NodeId :=
  ((ports.flatMap adjacent).filterMap g.ownerOf?).foldl (fun owners owner => insertNew owner owners) []

/-- The nodes that feed a node. -/
def predecessors (g : Graph) (id : NodeId) : List NodeId :=
  match g.node? id with
  | none => []
  | some n => g.neighbours n.portIds g.incoming

/-- The nodes that a node feeds. -/
def successors (g : Graph) (id : NodeId) : List NodeId :=
  match g.node? id with
  | none => []
  | some n => g.neighbours n.portIds g.outgoing

/-- The ports of a node that gate its readiness and have an incoming edge. -/
def connectedInputs (g : Graph) (id : NodeId) : List PortId :=
  match g.node? id with
  | none => []
  | some n => n.triggerIds.filter fun port => Table.contains port g.inEdges

/-- Whether a node is ready, given the edges of the graph. -/
def isReady (g : Graph) (id : NodeId) : Bool :=
  match g.node? id with
  | none => false
  | some n => n.readiness (g.connectedInputs id) = .ready

/-- Whether both ends of an edge are there and fit. -/
def fits (g : Graph) (e : Edge) : Bool :=
  match g.port? e.source, g.port? e.target with
  | some p, some q => p.canConnect q
  | _, _ => false

/-- Whether an end of an edge is missing. -/
def isStranded (g : Graph) (e : Edge) : Bool :=
  (g.port? e.source).isNone || (g.port? e.target).isNone

/-- The edges at the ports of a node, and all edges with a missing end. -/
def edgesToCheck (g : Graph) (n : Node) : List Edge :=
  (n.portIds.flatMap fun port =>
    (g.outgoing port).map (Edge.mk port) ++ (g.incoming port).map fun source => ⟨source, port⟩) ++
    g.edges.filter g.isStranded

/-- Flag edges that do not fit, and take the flag off those that do. -/
def markEdges (g : Graph) (edges : List Edge) : List Edge :=
  edges.foldl (fun flagged e => if g.fits e then flagged.filter (· ≠ e) else insertNew e flagged) g.flagged

/-- Look again at the edges of a node; the result lists those that do not fit. No edge is removed. -/
def checkEdges (g : Graph) (id : NodeId) : Except GraphError (List Edge × Graph) :=
  match g.node? id with
  | none => .error (.nodeNotFound id)
  | some n =>
    let edges := g.edgesToCheck n
    let misfits := (edges.filter fun e => !g.fits e).foldl (fun found e => insertNew e found) []
    .ok (misfits, { g with flagged := g.markEdges edges })

/-- Change the declared type of a port and look again at the edges of its owner. -/
def setPortType (g : Graph) (port : PortId) (dataType : DataType) : Except GraphError (List Edge × Graph) :=
  let changed := do
    let owner ← g.ownerOf? port
    let n ← g.node? owner
    let (n, supply) ← n.setPortType port dataType g.supply
    return (owner, { g.setNode n with supply })
  match changed with
  | none => .error (.portNotFound port)
  | some (owner, g) => (g.reindex owner).checkEdges owner

/-- Write to a port; the result is the value as stored. A write to an element port is folded into the
containers above it, and the index of owners follows the element ports that come and go. -/
def write (g : Graph) (port : PortId) (v : Value) : Except GraphError (Value × Graph) :=
  let written := do
    let owner ← g.ownerOf? port
    let n ← g.node? owner
    let result ← n.write port v g.supply
    return (owner, result)
  match written with
  | none => .error (.portNotFound port)
  | some (_, .error e) => .error (.write port e)
  | some (owner, .ok (w, n, supply)) => .ok (w, { g.setNode n with supply }.reindex owner)

end Graph

end Dataflow
