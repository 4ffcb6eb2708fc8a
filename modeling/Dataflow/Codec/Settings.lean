import Dataflow.Behavior
import Dataflow.Codec
import Dataflow.Executor.Config
import Dataflow.Node
import Dataflow.Value.Text

/-!
# States, declarations and settings as JSON

Each type has a function `toJson` and a function `ofJson`.
-/

namespace Dataflow

/-- The tree of named values. -/
def NamedValues.toJson (values : NamedValues) : Json :=
  (Value.object values).toJson

/-- Read named values. -/
def NamedValues.ofJson : Json → Except Fault NamedValues :=
  Codec.keyed Value.ofJson

/-- Write the name of a data type. -/
def DataType.toJson (t : DataType) : Json := .string t.name

/-- Read the name of a data type. -/
def DataType.ofJson : Json → Except Fault DataType :=
  Codec.choice DataType.all DataType.name

/-- Write the name of a direction. -/
def Direction.toJson (d : Direction) : Json := .string d.name

/-- Read the name of a direction. -/
def Direction.ofJson : Json → Except Fault Direction :=
  Codec.choice [.input, .output] Direction.name

/-- Write the name of a kind of port. -/
def PortKind.toJson (k : PortKind) : Json := .string k.name

/-- Read the name of a kind of port. -/
def PortKind.ofJson : Json → Except Fault PortKind :=
  Codec.choice [.data, .control, .exec] PortKind.name

/-- Write the declaration of a port. -/
def PortDefinition.toJson (d : PortDefinition) : Json :=
  .object
    [("name", .string d.name), ("direction", d.direction.toJson), ("kind", d.kind.toJson),
     ("data_type", d.dataType.toJson)]

/-- Read the declaration of a port. -/
def PortDefinition.ofJson (j : Json) : Except Fault PortDefinition := do
  let r ← Record.read ["name", "direction", "kind", "data_type"] j
  return {
    name := ← r.required "name" Codec.string
    direction := ← r.required "direction" Direction.ofJson
    kind := ← r.required "kind" PortKind.ofJson
    dataType := ← r.required "data_type" DataType.ofJson }

/-- The name of a degree of readiness. -/
def Readiness.name : Readiness → String
  | ready => "Ready"
  | notReadyUntilAnyPortsFilled => "NotReadyUntilAnyPortsFilled"
  | notReadyUntilAllPortsFilled => "NotReadyUntilAllPortsFilled"
  | notReady => "NotReady"

/-- Write a degree of readiness. -/
def Readiness.toJson (r : Readiness) : Json := .string r.name

/-- Read a degree of readiness. -/
def Readiness.ofJson : Json → Except Fault Readiness :=
  Codec.choice [.ready, .notReadyUntilAnyPortsFilled, .notReadyUntilAllPortsFilled, .notReady] Readiness.name

/-- The name of a policy. -/
def ReadinessPolicy.name : ReadinessPolicy → String
  | allConnected => "AllConnected"
  | anyConnected => "AnyConnected"

/-- Write a policy. -/
def ReadinessPolicy.toJson (p : ReadinessPolicy) : Json := .string p.name

/-- Read a policy. -/
def ReadinessPolicy.ofJson : Json → Except Fault ReadinessPolicy :=
  Codec.choice [.allConnected, .anyConnected] ReadinessPolicy.name

/-- Write the status of a node. -/
def NodeStatus.toJson (s : NodeStatus) : Json := .string s.name

/-- Read the status of a node. -/
def NodeStatus.ofJson : Json → Except Fault NodeStatus :=
  Codec.choice [.idle, .executing, .success, .failed] NodeStatus.name

/-- Write the state of an executor. -/
def ExecutionState.toJson (s : ExecutionState) : Json := .string s.name

/-- Read the state of an executor. -/
def ExecutionState.ofJson : Json → Except Fault ExecutionState :=
  Codec.choice [.idle, .running, .paused, .stepping] ExecutionState.name

/-- The name of a way to start. -/
def StartMode.name : StartMode → String
  | continuous => "continuous"
  | step => "step"

/-- Write a way to start. -/
def StartMode.toJson (m : StartMode) : Json := .string m.name

/-- Read a way to start. -/
def StartMode.ofJson : Json → Except Fault StartMode :=
  Codec.choice [.continuous, .step] StartMode.name

/-- The name of a transition. -/
def Transition.name : Transition → String
  | start _ => "start"
  | pause => "pause"
  | resume => "resume"
  | step => "step"
  | stepComplete => "step_complete"
  | cancel => "cancel"
  | complete => "complete"
  | fail => "error"

/-- Write a transition: its name, or for a start an object with the name and the way to start. -/
def Transition.toJson (t : Transition) : Json :=
  match t with
  | start mode => .object [(t.name, mode.toJson)]
  | _ => .string t.name

/-- Read a transition. -/
def Transition.ofJson (j : Json) : Except Fault Transition :=
  match j with
  | .object [("start", mode)] => (StartMode.ofJson mode).map start
  | _ => Codec.choice [pause, resume, step, stepComplete, cancel, complete, fail] Transition.name j

/-- Write the settings of an executor. -/
def ExecutorConfig.toJson (c : ExecutorConfig) : Json :=
  .object
    [("iteration_delay_ms", .integer c.iterationDelay), ("max_relay_depth", .integer c.maxRelayDepth),
     ("event_buffer_size", .integer c.eventBufferSize)]

/-- Read the settings of an executor. Those that are missing keep their standard values. -/
def ExecutorConfig.ofJson (j : Json) : Except Fault ExecutorConfig := do
  let r ← Record.read ["iteration_delay_ms", "max_relay_depth", "event_buffer_size"] j
  return {
    iterationDelay := ← r.defaulted "iteration_delay_ms" standard.iterationDelay Codec.natural
    maxRelayDepth := ← r.defaulted "max_relay_depth" standard.maxRelayDepth Codec.natural
    eventBufferSize := ← r.defaulted "event_buffer_size" standard.eventBufferSize Codec.natural }

/-- Write the settings of an executor as those of an engine, where they are one field. -/
def ExecutorConfig.toEngineJson (c : ExecutorConfig) : Json :=
  .object [("executor", c.toJson)]

/-- Read the settings of an executor from those of an engine. -/
def ExecutorConfig.ofEngineJson (j : Json) : Except Fault ExecutorConfig := do
  let r ← Record.read ["executor"] j
  r.defaulted "executor" standard ofJson

end Dataflow
