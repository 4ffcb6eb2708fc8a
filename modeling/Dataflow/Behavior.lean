import Dataflow.Event
import Dataflow.Execution.Context
import Dataflow.Port

/-!
# Behaviors

What a type of node does, as seen by an executor.

* `Behavior` is the behavior of a node: its ports, when it is ready, and what an activation does;
* `Script` is what an activation does, step by step, up to its result;
* `NamedValues` are the values of ports by name, where `null` counts as absent when it is looked up;
* `NodeError` lists how an activation may fail.
-/

namespace Dataflow

/-- Why an activation failed. -/
inductive NodeError where
  | missingInput (name : String)
  | invalidInputType (field expected actual : String)
  | configuration (message : String)
  | executionFailed (message : String)
  | unknownPort (name : String)
  | conversion (port : String) (source : ConversionError)
  | cancelled
  deriving DecidableEq, Repr

/-- The wording of a failure. -/
def NodeError.message : NodeError → String
  | missingInput name => "Missing required input: " ++ name
  | invalidInputType field expected actual =>
    "Invalid input type for '" ++ field ++ "': expected " ++ expected ++ ", got " ++ actual
  | configuration message => "Configuration error: " ++ message
  | executionFailed message => "Execution failed: " ++ message
  | unknownPort name => "Unknown output port: " ++ name
  | conversion port source => "Output '" ++ port ++ "' rejected: " ++ source.message
  | cancelled => "Cancelled"

/-- The name of a failure. -/
def NodeError.kind : NodeError → String
  | missingInput _ => "MissingInput"
  | invalidInputType .. => "InvalidInputType"
  | configuration _ => "Configuration"
  | executionFailed _ => "ExecutionFailed"
  | unknownPort _ => "UnknownPort"
  | conversion .. => "Conversion"
  | cancelled => "Cancelled"

/-- The failure with a name and its details, which for a rejected output are the port and the two types. -/
def NodeError.ofKind? (kind : String) (details : List String) : Option NodeError :=
  match kind, details with
  | "MissingInput", [name] => some (missingInput name)
  | "InvalidInputType", [field, expected, actual] => some (invalidInputType field expected actual)
  | "Configuration", [message] => some (configuration message)
  | "ExecutionFailed", [message] => some (executionFailed message)
  | "UnknownPort", [name] => some (unknownPort name)
  | "Conversion", [port, source, target] => do
    return conversion port (.incompatible (← DataType.ofName? source) (← DataType.ofName? target))
  | "Cancelled", [] => some cancelled
  | _, _ => none

/-- Values of ports by name. -/
abbrev NamedValues := Keyed Value

/-- The value of a port, if there is one that is not `null`. -/
def NamedValues.lookup (name : String) (values : NamedValues) : Option Value :=
  (Keyed.find? name values).filter fun v => !v.isNull

/-- The value of a port that has to be there. -/
def NamedValues.require (name : String) (values : NamedValues) : Except NodeError Value :=
  match NamedValues.lookup name values with
  | some v => .ok v
  | none => .error (.missingInput name)

/-- The settings of a node by name. -/
abbrev Config := Keyed Value

/-- A setting that has to be there. -/
def Config.require (name : String) (config : Config) : Except NodeError Value :=
  match Keyed.find? name config with
  | some v => .ok v
  | none => .error (.configuration ("Missing config: " ++ name))

/-- A setting, or the value it has when it is not there. -/
def Config.getOr (name : String) (default : Value) (config : Config) : Value :=
  (Keyed.find? name config).getD default

/-- A setting that is on only if it is the boolean `true`. -/
def Config.isOn (name : String) (config : Config) : Bool :=
  ((Keyed.find? name config).bind Value.asBoolean?).getD false

/-- The declaration of a port. -/
structure PortDefinition where
  name : String
  direction : Direction
  kind : PortKind
  dataType : DataType
  deriving DecidableEq, Repr, Inhabited

namespace PortDefinition

/-- A data input. -/
def input (name : String) (dataType : DataType) : PortDefinition :=
  ⟨name, .input, .data, dataType⟩

/-- A data output. -/
def output (name : String) (dataType : DataType) : PortDefinition :=
  ⟨name, .output, .data, dataType⟩

/-- A control input. -/
def controlInput (name : String) (dataType : DataType) : PortDefinition :=
  ⟨name, .input, .control, dataType⟩

/-- A control output. -/
def controlOutput (name : String) (dataType : DataType) : PortDefinition :=
  ⟨name, .output, .control, dataType⟩

end PortDefinition

/-- How the connected inputs of a node decide whether it is ready. -/
inductive ReadinessPolicy where
  | allConnected
  | anyConnected
  deriving DecidableEq, Repr, Inhabited

/-- Whether a node is ready to be activated. -/
inductive Readiness where
  | ready
  | notReadyUntilAnyPortsFilled
  | notReadyUntilAllPortsFilled
  | notReady
  deriving DecidableEq, Repr, Inhabited

/-- What an activation returns: values for data outputs and for control outputs. -/
structure Output where
  outputs : NamedValues
  controls : NamedValues
  deriving DecidableEq, Repr, Inhabited

/-- An output without any value. -/
def Output.empty : Output := ⟨[], []⟩

/-- An output with one value for a data output. -/
def Output.single (port : String) (v : Value) : Output := ⟨[(port, v)], []⟩

/-- What a node keeps from one activation to the next. -/
abbrev Memory := List Value

/-- What a node is activated with. -/
structure Activation where
  node : NodeId
  iteration : Nat
  config : Config
  context : Context
  inputs : NamedValues
  controls : NamedValues
  deriving Repr, Inhabited

/-- What an activation does. Everything but the result and the panic is an effect, followed by the rest. -/
inductive Script where
  /-- The activation ends with a result. -/
  | finish (result : Except NodeError Output)
  /-- The activation breaks down. -/
  | panic (message : String)
  /-- A message to the subscribers. -/
  | emit (event : NodeEvent) (rest : Script)
  /-- A call to the executor; the rest depends on its answer and on the state after it. -/
  | control (call : Control) (rest : Except TransitionError Unit → ExecutionState → Script)
  /-- An entry in the log of the host. -/
  | log (entry : Value) (rest : Script)
  /-- From now on the node remembers this. -/
  | remember (memory : Memory) (rest : Script)
  /-- Wait for a number of milliseconds. A wait that heeds cancellation fails as soon as the run is
  cancelled. -/
  | sleep (ms : Nat) (heedsCancel : Bool) (rest : Script)

/-- The script that ends with an output. -/
def Script.done (output : Output) : Script :=
  .finish (.ok output)

/-- The script that fails. -/
def Script.fail (e : NodeError) : Script :=
  .finish (.error e)

/-- The behavior of a node. -/
structure Behavior where
  typeId : String
  ports : List PortDefinition
  activate : Activation → Memory → Script
  policy : ReadinessPolicy := .allConnected
  /-- Whether what the node remembers keeps it ready without new input. -/
  hasPendingWork : Memory → Bool := fun _ => false
  /-- Whether it is activated within the iteration that fed it. -/
  isDirectThrough : Bool := false
  /-- Whether it is activated again and again while no input is connected. -/
  refires : Bool := false

end Dataflow
