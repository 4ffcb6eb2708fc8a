import Dataflow.Graph

/-!
# Node types

A registry knows types of nodes by their identifier and makes nodes of them.

* `NodeType` makes behaviors from settings;
* `Registry.construct` makes a node, `Registry.ports` only lists the ports it would have.
-/

namespace Dataflow

/-- What a host may show about a type of node. -/
structure NodeMetadata where
  description : String
  category : String
  deriving DecidableEq, Repr

/-- What holds for a type of node that says nothing about itself. -/
def NodeMetadata.standard : NodeMetadata := ⟨"", "general"⟩

/-- A type of node: how its behavior follows from the settings of a node. -/
structure NodeType where
  typeId : String
  create : Config → Except NodeError Behavior
  metadata : NodeMetadata

/-- Types of nodes by identifier. -/
abbrev Registry := Keyed NodeType

namespace Registry

/-- Add a type, in the place of one with the same identifier. -/
def register (type : NodeType) (registry : Registry) : Registry :=
  Keyed.insert type.typeId type registry

/-- The registry of the given types. -/
def ofTypes (types : List NodeType) : Registry :=
  types.foldl (fun registry type => registry.register type) []

/-- The behavior of a type for the given settings. -/
def behavior (registry : Registry) (typeId : String) (config : Config) : Except GraphError Behavior :=
  match Keyed.find? typeId registry with
  | none => .error (.unknownNodeType typeId)
  | some type => (type.create config).mapError fun e =>
    .invalidDocument ("Failed to create node: " ++ e.message)

/-- The ports of a type for the given settings. -/
def ports (registry : Registry) (typeId : String) (config : Config) : Except GraphError (List PortDefinition) :=
  (registry.behavior typeId config).map Behavior.ports

/-- A node of a type, with fresh ports. -/
def construct (registry : Registry) (typeId : String) (id : NodeId) (label : String) (config : Config)
    (s : Supply) : Except GraphError (Node × Supply) :=
  (registry.behavior typeId config).map fun behavior => Node.create id label behavior config s

/-- A node of a type, with a fresh identifier and fresh ports. -/
def createNode (registry : Registry) (typeId label : String) (config : Config) (s : Supply) :
    Except GraphError (Node × Supply) :=
  let (id, s) := s.draw
  registry.construct typeId id label config s

end Registry

end Dataflow
