import Dataflow.Graph

/-!
# Moving outputs along edges

* `Graph.takeUnread` takes the unread outputs of a node;
* `Graph.transferOutputs` writes them to the ports that they feed, up to the first refused write.
-/

namespace Dataflow

/-- A value on its way along an edge. -/
structure Offer where
  edge : Edge
  value : Value
  deriving Repr, Inhabited

/-- What became of a sequence of offers: the graph, the values that moved, the relays they reached, and
the refusal that stopped the rest. -/
structure Delivery where
  graph : Graph
  transfers : List Transfer
  relays : List NodeId
  failure : Option String

/-- The wording of a refused transfer. -/
def Offer.failure (o : Offer) (e : GraphError) : String :=
  "propagation " ++ o.edge.describe ++ " failed: " ++ e.message

namespace Graph

/-- The output-side ports of a node that feed others, element ports included. -/
def feedingPorts (g : Graph) (n : Node) : List PortId :=
  n.outputIds.filter fun port => !(g.outgoing port).isEmpty

/-- Read those of the given ports that have unread data. -/
def takeUnread : List PortId → Node → List (PortId × Value) × Node
  | [], n => ([], n)
  | port :: rest, n =>
    match n.port? port with
    | none => takeUnread rest n
    | some p =>
      if p.hasNewData then
        let (v, p) := p.read
        let (values, n) := takeUnread rest ((n.replacePort? port p).getD n)
        ((port, v) :: values, n)
      else takeUnread rest n

/-- The offers of values to the ports that they feed. -/
def offers (g : Graph) (values : List (PortId × Value)) : List Offer :=
  values.flatMap fun (source, v) => (g.outgoing source).map fun target => ⟨⟨source, target⟩, v⟩

/-- Whether an offer is passed over: its edge is flagged, or its target is gone. -/
def skips (g : Graph) (e : Edge) : Bool :=
  !g.isEdgeValid e || (g.ownerOf? e.target).isNone

/-- The relay that owns a port. -/
def relayAt? (g : Graph) (port : PortId) : Option NodeId := do
  let owner ← g.ownerOf? port
  let n ← g.node? owner
  if n.isDirectThrough then some owner else none

/-- Make offers one after the other, up to the first refused one. -/
def deliver : List Offer → Delivery → Delivery
  | [], d => d
  | o :: rest, d =>
    if d.graph.skips o.edge then deliver rest d
    else match d.graph.write o.edge.target o.value with
      | .error e => { d with failure := some (o.failure e) }
      | .ok (stored, graph) =>
        let relays := match graph.relayAt? o.edge.target with
          | some relay => insertNew relay d.relays
          | none => d.relays
        deliver rest
          { d with graph, relays, transfers := d.transfers ++ [⟨o.edge.source, o.edge.target, stored⟩] }

/-- Move the unread outputs of a node along its edges. -/
def transferOutputs (g : Graph) (id : NodeId) : Delivery :=
  match g.node? id with
  | none => ⟨g, [], [], none⟩
  | some n =>
    let (values, n) := takeUnread (g.feedingPorts n) n
    let g := g.setNode n
    deliver (g.offers values) ⟨g, [], [], none⟩

end Graph

end Dataflow
