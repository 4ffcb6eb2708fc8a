import Dataflow.Graph

/-!
# Cycles of relays

Direct-through nodes that feed each other in a circle never settle on their own.

* `Link.components` lists the strongly connected components of nodes with links, and `Link.isCyclic` tells those that lead
  back to themselves;
* `Graph.relays` lists the direct-through nodes, `Graph.relayLinks` the pairs of which one feeds the other;
* `Graph.relayGroups` lists the cyclic components of relays, as found by a search for components;
* `Graph.relayCycles` lists those that are found by `Link.components`.
-/

namespace Dataflow

/-- A pair of nodes of which the first feeds the second. -/
abbrev Link := NodeId × NodeId

namespace Link

/-- Nodes with all those that one of them feeds. -/
def follow (links : List Link) (found : List NodeId) : List NodeId :=
  links.foldl (fun found link => if found.contains link.1 then insertNew link.2 found else found) found

/-- The nodes that a node feeds. -/
def after (links : List Link) (id : NodeId) : List NodeId :=
  (links.filter (·.1 = id)).map Prod.snd

/-- The nodes that a node leads to in one or more steps. -/
def reach (links : List Link) (id : NodeId) : List NodeId :=
  Nat.repeat (follow links) links.length (after links id)

/-- The strongly connected components: each node together with those that it leads to and that lead back to it. The
components are in the order of their first nodes, and the nodes of each keep their order. -/
def components (nodes : List NodeId) (links : List Link) : List (List NodeId) :=
  let reached := nodes.map fun id => (id, reach links id)
  let groups := reached.map fun (id, onward) =>
    (reached.filter fun (other, back) => other = id || (onward.contains other && back.contains id)).map Prod.fst
  groups.foldl (fun components group => insertNew group components) []

/-- Whether a component leads back to itself: it has several nodes, or its one node is linked to itself. -/
def isCyclic (links : List Link) (component : List NodeId) : Bool :=
  1 < component.length || component.head?.any fun id => links.contains (id, id)

end Link

namespace Graph

/-- The direct-through nodes in the order in which they were added. -/
def relays (g : Graph) : List NodeId :=
  (g.nodeList.filter Node.isDirectThrough).map Node.id

/-- The owners of the two ends of an edge. -/
def endOwners? (g : Graph) (e : Edge) : Option Link := do
  let source ← g.ownerOf? e.source
  let target ← g.ownerOf? e.target
  return (source, target)

/-- The pairs of relays of which the first feeds the second. -/
def relayLinks (g : Graph) : List Link :=
  let relays := g.relays
  (g.edges.filterMap g.endOwners?).filter fun link => relays.contains link.1 && relays.contains link.2

/-- The groups of relays that feed each other in a circle, given a search for strongly connected components. -/
def relayGroups (components : List NodeId → List Link → List (List NodeId)) (g : Graph) : List (List NodeId) :=
  (components g.relays g.relayLinks).filter (Link.isCyclic g.relayLinks)

/-- The groups of relays that feed each other in a circle, each in the order in which its members were added. -/
def relayCycles (g : Graph) : List (List NodeId) :=
  g.relayGroups Link.components

end Graph

end Dataflow
