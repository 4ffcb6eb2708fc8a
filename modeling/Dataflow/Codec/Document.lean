import Dataflow.Codec.Event
import Dataflow.Document

/-!
# Documents as JSON

A port or a group of ports that is not there is left out. Reading accepts everything that writing
produces, and shorter forms in which settings, ports, values and element ports are left out.
-/

namespace Dataflow

/-- Write an edge. -/
def Edge.toJson (e : Edge) : Json :=
  .object [("fromPortId", e.source.toJson), ("toPortId", e.target.toJson)]

/-- Read an edge. -/
def Edge.ofJson (j : Json) : Except Fault Edge := do
  let r ← Record.read ["fromPortId", "toPortId"] j
  return { source := ← r.required "fromPortId" Id.ofJson, target := ← r.required "toPortId" Id.ofJson }

namespace PortDocument

mutual
/-- Write a port. -/
def toJson : PortDocument → Json
  | ⟨id, dataType, data, elements⟩ =>
    .object (("id", id.toJson) :: ("dataType", dataType.toJson) :: ("data", data.toJson) ::
      elementsMember elements)
termination_by structural d => d

/-- The member for element ports, if there is one. -/
def elementsMember : Option (List (String × PortDocument)) → List (String × Json)
  | none => []
  | some documents => [("children", .object (membersOf documents))]
termination_by structural ds => ds

/-- The members for ports by name. -/
def membersOf : List (String × PortDocument) → List (String × Json)
  | [] => []
  | (key, d) :: rest => (key, toJson d) :: membersOf rest
termination_by structural ds => ds
end

/-- The names of the fields of a port. -/
def fieldNames : List String := ["id", "dataType", "data", "children"]

/-- Read a port that may nest other ports to the given depth. -/
def ofJsonWithin : Nat → Json → Except Fault PortDocument
  | 0, _ => .error .tooDeep
  | depth + 1, j => do
    let r ← Record.read fieldNames j
    return {
      id := ← r.required "id" Id.ofJson
      dataType := ← r.required "dataType" DataType.ofJson
      data := ← r.defaulted "data" .null Value.ofJson
      elements := ← r.defaulted "children" none (Record.nullable (Codec.keyed (ofJsonWithin depth))) }

/-- Read a port. The nesting of readable trees is bounded, so the depth is enough for all of them. -/
def ofJson (j : Json) : Except Fault PortDocument :=
  ofJsonWithin Json.maxDepth j

end PortDocument

namespace NodePorts

/-- The member for a port, if there is one. -/
def portMember (name : String) : Option PortDocument → List (String × Json)
  | none => []
  | some d => [(name, d.toJson)]

/-- The member for a group of ports, if there are any. -/
def groupMember (name : String) (ports : Keyed PortDocument) : List (String × Json) :=
  if ports.isEmpty then [] else [(name, .object (PortDocument.membersOf ports))]

/-- Write the ports of a node. -/
def toJson (p : NodePorts) : Json :=
  .object
    (portMember "inExec" p.execIn ++ portMember "outExec" p.execOut ++ groupMember "inputs" p.inputs ++
      groupMember "outputs" p.outputs ++ groupMember "controlInputs" p.controlInputs ++
      groupMember "controlOutputs" p.controlOutputs)

/-- The names of the fields of the ports of a node. -/
def fieldNames : List String :=
  ["inExec", "outExec", "inputs", "outputs", "controlInputs", "controlOutputs"]

/-- Read the ports of a node. -/
def ofJson (j : Json) : Except Fault NodePorts := do
  let r ← Record.read fieldNames j
  let port name := r.defaulted name none (Record.nullable PortDocument.ofJson)
  let group name := r.defaulted name [] (Codec.keyed PortDocument.ofJson)
  return {
    execIn := ← port "inExec"
    execOut := ← port "outExec"
    inputs := ← group "inputs"
    outputs := ← group "outputs"
    controlInputs := ← group "controlInputs"
    controlOutputs := ← group "controlOutputs" }

end NodePorts

namespace NodeDocument

/-- Write a node. -/
def toJson (d : NodeDocument) : Json :=
  .object
    [("id", d.id.toJson), ("typeId", .string d.typeId), ("label", .string d.label),
     ("context", NamedValues.toJson d.config), ("ports", d.ports.toJson)]

/-- Read a node. -/
def ofJson (j : Json) : Except Fault NodeDocument := do
  let r ← Record.read ["id", "typeId", "label", "context", "ports"] j
  return {
    id := ← r.required "id" Id.ofJson
    typeId := ← r.required "typeId" Codec.string
    label := ← r.required "label" Codec.string
    config := ← r.defaulted "context" [] NamedValues.ofJson
    ports := ← r.defaulted "ports" .empty NodePorts.ofJson }

end NodeDocument

namespace GraphDocument

/-- Write a graph. -/
def toJson (d : GraphDocument) : Json :=
  .object [("nodes", .array (d.nodes.map NodeDocument.toJson)), ("edges", .array (d.edges.map Edge.toJson))]

/-- Read a graph. -/
def ofJson (j : Json) : Except Fault GraphDocument := do
  let r ← Record.read ["nodes", "edges"] j
  return {
    nodes := ← r.required "nodes" (Codec.list NodeDocument.ofJson)
    edges := ← r.required "edges" (Codec.list Edge.ofJson) }

/-- The compact text of a graph. -/
def text (d : GraphDocument) : String :=
  String.ofList d.toJson.compact

/-- The text of a graph over several lines. -/
def prettyText (d : GraphDocument) : String :=
  String.ofList d.toJson.pretty

/-- Read a graph from its text. -/
def read (text : String) : Except ReadError GraphDocument :=
  Json.decode ofJson text

end GraphDocument

end Dataflow
