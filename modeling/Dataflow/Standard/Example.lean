import Dataflow.Standard

/-!
# The example graph

Three numbers are taken apart, pass through a relay one by one, and are logged.
-/

namespace Dataflow.Standard

/-- The node of a given type and label, added to a graph. -/
def addExample (typeId label : String) (config : Config) (g : Graph) : Except GraphError (Node × Graph) := do
  let (n, supply) ← registry.createNode typeId label config g.supply
  return (n, ← { g with supply }.addNode n)

/-- An edge from an output of one node to an input of another, added to a graph. -/
def connectExample (source : Node) (output : String) (target : Node) (input : String) (g : Graph) :
    Except GraphError Graph :=
  match source.portAt? (.output output), target.portAt? (.input input) with
  | some p, some q => g.addEdge p.id q.id
  | _, _ => .error (.invalidDocument "missing port")

/-- The example graph, with identifiers from a supply. -/
def example? (supply : Supply) : Except GraphError Graph := do
  let numbers : Value := .array [.integer 1, .integer 2, .integer 3]
  let (source, g) ← addExample "value.constant" "Numbers" [("value", numbers)] (.empty supply)
  let (each, g) ← addExample "flow.distribute" "Each" [] g
  let (relay, g) ← addExample "flow.relay" "Relay" [] g
  let (log, g) ← addExample "debug.log" "Log" [] g
  let g ← connectExample source "value" each "items" g
  let g ← connectExample each "item" relay "in" g
  connectExample relay "out" log "message" g

end Dataflow.Standard
