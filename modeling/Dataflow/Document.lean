import Dataflow.Graph

/-!
# Graphs as documents

A document is the plain form in which graphs are kept: nodes with their settings and ports, and edges.

* `GraphDocument.ofGraph` takes a graph down, `GraphDocument.restore` builds it up again;
* `Resolver` makes the nodes that a document asks for.

A document keeps the identifier, the type and the value of every port, and those of its element ports.
-/

namespace Dataflow

/-- A port in a document. No elements and an empty list of elements are told apart. -/
structure PortDocument where
  id : PortId
  dataType : DataType
  data : Value
  elements : Option (List (String × PortDocument))
  deriving Repr, Inhabited

/-- The ports of a node in a document, by place and name. -/
structure NodePorts where
  execIn : Option PortDocument
  execOut : Option PortDocument
  inputs : Keyed PortDocument
  outputs : Keyed PortDocument
  controlInputs : Keyed PortDocument
  controlOutputs : Keyed PortDocument
  deriving Repr, Inhabited

/-- No ports. -/
def NodePorts.empty : NodePorts :=
  { execIn := none, execOut := none, inputs := [], outputs := [], controlInputs := [], controlOutputs := [] }

/-- A node in a document. -/
structure NodeDocument where
  id : NodeId
  typeId : String
  label : String
  config : Config
  ports : NodePorts
  deriving Repr, Inhabited

/-- A graph in a document. -/
structure GraphDocument where
  nodes : List NodeDocument
  edges : List Edge
  deriving Repr, Inhabited

/-- Makes a node of a type with an identifier, a label and settings. -/
abbrev Resolver := String → NodeId → String → Config → Supply → Except GraphError (Node × Supply)

namespace PortDocument

mutual
/-- The document of a port. -/
def ofPort : Port → PortDocument
  | ⟨id, _, _, _, dataType, data, _, _, elements⟩ =>
    ⟨id, dataType, data, match ofElements elements with
      | [] => none
      | documents => some documents⟩
termination_by structural p => p

/-- The documents of element ports. -/
def ofElements : List (String × Port) → List (String × PortDocument)
  | [] => []
  | (key, p) :: rest => (key, ofPort p) :: ofElements rest
termination_by structural ps => ps
end

mutual
/-- The element ports of a document, on the side and of the kind of a given port. -/
def elementPorts (parent : Port) : PortDocument → Except ConversionError (List (String × Port))
  | ⟨_, _, _, elements⟩ => optionalPorts parent elements
termination_by structural d => d

/-- The ports of a list of documents that may be missing. -/
def optionalPorts (parent : Port) :
    Option (List (String × PortDocument)) → Except ConversionError (List (String × Port))
  | none => .ok []
  | some documents => listedPorts parent documents
termination_by structural ds => ds

/-- The ports of a list of documents. -/
def listedPorts (parent : Port) :
    List (String × PortDocument) → Except ConversionError (List (String × Port))
  | [] => .ok []
  | (key, d) :: rest => do
    let elements ← elementPorts parent d
    let p ← (Port.new d.id key parent.direction parent.kind d.dataType).restored d.id d.dataType d.data elements
    let rest ← listedPorts parent rest
    return (key, p) :: rest
termination_by structural ds => ds
end

/-- The port with the state of the document. -/
def apply (d : PortDocument) (p : Port) : Except GraphError Port :=
  let restored := do
    let elements ← elementPorts p d
    p.restored d.id d.dataType d.data elements
  restored.mapError fun e => .invalidDocument ("port " ++ d.id.text ++ ": " ++ e.message)

end PortDocument

namespace NodeDocument

/-- The document of a node. -/
def ofNode (n : Node) : NodeDocument :=
  { id := n.id
    typeId := n.typeId
    label := n.label
    config := n.config
    ports :=
      { execIn := some (.ofPort n.execIn)
        execOut := some (.ofPort n.execOut)
        inputs := Keyed.mapValues .ofPort n.inputs
        outputs := Keyed.mapValues .ofPort n.outputs
        controlInputs := Keyed.mapValues .ofPort n.controlInputs
        controlOutputs := Keyed.mapValues .ofPort n.controlOutputs } }

/-- The documents of the ports with their places. -/
def slots (d : NodeDocument) : List (Slot × PortDocument) :=
  let p := d.ports
  p.execIn.toList.map (Slot.execIn, ·) ++ p.execOut.toList.map (Slot.execOut, ·) ++
    p.inputs.map (fun (name, port) => (.input name, port)) ++
    p.outputs.map (fun (name, port) => (.output name, port)) ++
    p.controlInputs.map (fun (name, port) => (.controlInput name, port)) ++
    p.controlOutputs.map fun (name, port) => (.controlOutput name, port)

/-- Bring documented ports into a node. A place that the node does not have is passed over. -/
def applyPorts : List (Slot × PortDocument) → Node → Except GraphError Node
  | [], n => .ok n
  | (slot, d) :: rest, n =>
    match n.portAt? slot with
    | none => applyPorts rest n
    | some p => do
      let p ← d.apply p
      applyPorts rest (n.setPort slot p)

end NodeDocument

namespace GraphDocument

/-- The document of a graph. -/
def ofGraph (g : Graph) : GraphDocument :=
  { nodes := g.nodeList.map .ofNode, edges := g.edges }

/-- Add the nodes of a document. -/
def addNodes (resolver : Resolver) : List NodeDocument → Graph → Except GraphError Graph
  | [], g => .ok g
  | d :: rest, g => do
    let (n, supply) ← resolver d.typeId d.id d.label d.config g.supply
    let n ← NodeDocument.applyPorts d.slots n
    let g ← { g with supply }.addNode n
    addNodes resolver rest g

/-- Add the edges of a document. One whose types do not fit is kept with a flag. -/
def addEdges : List Edge → Graph → Except GraphError Graph
  | [], g => .ok g
  | e :: rest, g =>
    match g.addEdge e.source e.target with
    | .ok g => addEdges rest g
    | .error (.incompatibleEdge ..) => addEdges rest (g.linkFlagged e)
    | .error error => .error (.invalidDocument ("edge rejected: " ++ error.message))

/-- Build the graph of a document, with nodes from a resolver and identifiers from a supply. -/
def restore (d : GraphDocument) (resolver : Resolver) (supply : Supply) : Except GraphError Graph := do
  let g ← addNodes resolver d.nodes (.empty supply)
  addEdges d.edges g

end GraphDocument

end Dataflow
