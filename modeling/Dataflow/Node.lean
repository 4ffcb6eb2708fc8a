import Dataflow.Behavior
import Dataflow.Port.Write

/-!
# Nodes

A node has a behavior, settings, and named ports on both sides.

* `Slot` is the place of a top-level port in a node; `Node.slots` lists the places of a node;
* `Node.create` makes a node with fresh ports for the declarations of its behavior;
* `Node.portIds`, `triggerIds` and `outputIds` list identifiers with those of element ports;
* `Node.readiness` decides whether the node may be activated;
* `Node.write` writes to any port of the node.
-/

namespace Dataflow

/-- How the latest activation of a node went. -/
inductive NodeStatus where
  | idle
  | executing
  | success
  | failed
  deriving DecidableEq, Repr, Inhabited

/-- The name of a status. -/
def NodeStatus.name : NodeStatus → String
  | idle => "idle"
  | executing => "executing"
  | success => "success"
  | failed => "failed"

/-- A node: its settings, its behavior with what it remembers, and its ports. -/
structure Node where
  id : NodeId
  label : String
  config : Config
  behavior : Behavior
  memory : Memory
  status : NodeStatus
  lastError : Option String
  execIn : Port
  execOut : Port
  inputs : Keyed Port
  outputs : Keyed Port
  controlInputs : Keyed Port
  controlOutputs : Keyed Port

/-- The place of a top-level port in a node. -/
inductive Slot where
  | execIn
  | execOut
  | input (name : String)
  | output (name : String)
  | controlInput (name : String)
  | controlOutput (name : String)
  deriving DecidableEq, Repr

namespace Node

/-- The type of a node. -/
def typeId (n : Node) : String :=
  n.behavior.typeId

/-- Whether a node is activated within the iteration that fed it. -/
def isDirectThrough (n : Node) : Bool :=
  n.behavior.isDirectThrough

/-- Whether what the node remembers keeps it ready. -/
def hasPendingWork (n : Node) : Bool :=
  n.behavior.hasPendingWork n.memory

/-- The name of the setting that switches a node off. -/
def disabledKey : String := "disabled"

/-- Whether a node is switched off. -/
def isDisabled (n : Node) : Bool :=
  Config.isOn disabledKey n.config

/-- Put a setting in place. -/
def setConfig (key : String) (v : Value) (n : Node) : Node :=
  { n with config := Keyed.insert key v n.config }

/-- The port in a place. -/
def portAt? (n : Node) : Slot → Option Port
  | .execIn => some n.execIn
  | .execOut => some n.execOut
  | .input name => Keyed.find? name n.inputs
  | .output name => Keyed.find? name n.outputs
  | .controlInput name => Keyed.find? name n.controlInputs
  | .controlOutput name => Keyed.find? name n.controlOutputs

/-- Put a port into a place. -/
def setPort (n : Node) (slot : Slot) (p : Port) : Node :=
  match slot with
  | .execIn => { n with execIn := p }
  | .execOut => { n with execOut := p }
  | .input name => { n with inputs := Keyed.insert name p n.inputs }
  | .output name => { n with outputs := Keyed.insert name p n.outputs }
  | .controlInput name => { n with controlInputs := Keyed.insert name p n.controlInputs }
  | .controlOutput name => { n with controlOutputs := Keyed.insert name p n.controlOutputs }

/-- The place of a declared port. Only control ports are kept apart. -/
def slotOf (definition : PortDefinition) : Slot :=
  match definition.kind, definition.direction with
  | .control, .input => .controlInput definition.name
  | .control, .output => .controlOutput definition.name
  | _, .input => .input definition.name
  | _, .output => .output definition.name

/-- Add fresh ports for declarations; a later one of the same place replaces an earlier one. -/
def addPorts : List PortDefinition → Node → Supply → Node × Supply
  | [], n, s => (n, s)
  | definition :: rest, n, s =>
    let (p, s) := Port.make definition.name definition.direction definition.kind definition.dataType s
    addPorts rest (n.setPort (slotOf definition) p) s

/-- The name of the two execution triggers. -/
def triggerName : String := "exec"

/-- A node with fresh ports. -/
def create (id : NodeId) (label : String) (behavior : Behavior) (config : Config) (s : Supply) : Node × Supply :=
  let (execIn, s) := Port.makeTrigger triggerName .input s
  let (execOut, s) := Port.makeTrigger triggerName .output s
  addPorts behavior.ports
    { id, label, config, behavior, memory := [], status := .idle, lastError := none, execIn, execOut,
      inputs := [], outputs := [], controlInputs := [], controlOutputs := [] } s

/-- The places of the top-level ports: the input side first, then the output side. -/
def slots (n : Node) : List Slot :=
  .execIn :: (Keyed.keys n.inputs).map .input ++ (Keyed.keys n.controlInputs).map .controlInput ++
    .execOut :: (Keyed.keys n.outputs).map .output ++ (Keyed.keys n.controlOutputs).map .controlOutput

/-- The top-level ports: the input side first, then the output side. -/
def ports (n : Node) : List Port :=
  n.execIn :: Keyed.values n.inputs ++ Keyed.values n.controlInputs ++
    n.execOut :: Keyed.values n.outputs ++ Keyed.values n.controlOutputs

/-- The ports that gate readiness, without their elements: the trigger and the data inputs. -/
def triggers (n : Node) : List Port :=
  n.execIn :: Keyed.values n.inputs

/-- The ports on the output side, without their elements. -/
def outputSide (n : Node) : List Port :=
  n.execOut :: Keyed.values n.outputs ++ Keyed.values n.controlOutputs

/-- The identifiers of all ports, element ports included. -/
def portIds (n : Node) : List PortId :=
  n.ports.flatMap Port.ids

/-- The identifiers of the ports that gate readiness, element ports included. -/
def triggerIds (n : Node) : List PortId :=
  n.triggers.flatMap Port.ids

/-- The identifiers of the ports on the output side, element ports included. -/
def outputIds (n : Node) : List PortId :=
  n.outputSide.flatMap Port.ids

/-- The port with an identifier, which may be an element port. -/
def port? (n : Node) (id : PortId) : Option Port :=
  n.ports.findSome? (Port.find? id)

/-- The place of the top-level port that has an identifier in its tree. -/
def locate? (n : Node) (id : PortId) : Option Slot :=
  n.slots.find? fun slot => (n.portAt? slot).any (Port.hasId id)

/-- Exchange the port with an identifier, leaving the containers above it as they are. -/
def replacePort? (n : Node) (id : PortId) (new : Port) : Option Node := do
  let slot ← n.locate? id
  let top ← n.portAt? slot
  let top ← Port.replace? id new top
  return n.setPort slot top

/-- Write to the port with an identifier. None if the node has no such port. -/
def write (n : Node) (id : PortId) (v : Value) (s : Supply) :
    Option (Except ConversionError (Value × Node × Supply)) := do
  let slot ← n.locate? id
  let top ← n.portAt? slot
  let result ← top.writeAt id v s
  return result.map fun (w, top, s) => (w, n.setPort slot top, s)

/-- Change the declared type of the port with an identifier. None if the node has no such port. -/
def setPortType (n : Node) (id : PortId) (dataType : DataType) (s : Supply) : Option (Node × Supply) := do
  let p ← n.port? id
  let (p, s) := p.setDataType dataType s
  let n ← n.replacePort? id p
  return (n, s)

/-- Whether a node may be activated, given those of its ports that have incoming edges. A node without
any is ready; what it remembers may make it ready as well. -/
def readiness (n : Node) (connected : List PortId) : Readiness :=
  if n.isDisabled then .notReady
  else if n.hasPendingWork then .ready
  else
    let fed := (n.triggers.flatMap Port.flatten).filter fun p => connected.contains p.id
    if fed.isEmpty then .ready
    else match n.behavior.policy with
      | .allConnected => if fed.all Port.hasData then .ready else .notReadyUntilAllPortsFilled
      | .anyConnected => if fed.any Port.hasData then .ready else .notReadyUntilAnyPortsFilled

/-- Forget consumed inputs, so that they are not delivered again. Control inputs keep their signals. -/
def clearInputs (n : Node) : Node :=
  { n with execIn := n.execIn.clear, inputs := Keyed.mapValues Port.clear n.inputs }

/-- Forget how the latest activation went. -/
def resetStatus (n : Node) : Node :=
  { n with status := .idle, lastError := none }

end Node

end Dataflow
