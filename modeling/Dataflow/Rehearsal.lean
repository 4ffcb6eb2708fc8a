import Dataflow.Registry

/-!
# Rehearsed nodes

Types of nodes whose activations are planned in advance, for trying out how a host runs a graph.

* `Scene` is what one activation does, `Source` where a value that it puts out comes from;
* `Scene.script` is the script of a scene;
* `Rehearsal.nodeType` is the type whose nodes play the scenes in turn, and the last one again and again.
-/

namespace Dataflow

/-- Where a value comes from. What is not there is `null`. -/
inductive Source where
  | value (v : Value)
  | input (name : String)
  | control (name : String)
  | setting (name : String) (default : Value)
  | environment (name : String)

/-- The value of a source in an activation. -/
def Source.read (a : Activation) : Source → Value
  | value v => v
  | input name => (NamedValues.lookup name a.inputs).getD .null
  | control name => (NamedValues.lookup name a.controls).getD .null
  | setting name default => Config.getOr name default a.config
  | environment name => (Keyed.find? name a.context).getD .null

/-- What one activation does, in the order of the fields. -/
structure Scene where
  messages : List NodeEvent := []
  /-- The calls to the executor, if the log is to tell about them. -/
  calls : Option (List Control) := none
  /-- A wait in milliseconds, and whether it heeds cancellation. -/
  wait : Option (Nat × Bool) := none
  panic : Option String := none
  failure : Option NodeError := none
  requiredInput : Option String := none
  requiredSetting : Option String := none
  /-- The outputs; of several with one name the last counts. -/
  outputs : List (String × Source) := []
  controls : List (String × Source) := []

namespace Scene

/-- The result of a scene that does not break down. -/
def result (s : Scene) (a : Activation) : Except NodeError Output := do
  if let some e := s.failure then throw e
  if let some name := s.requiredInput then discard (NamedValues.require name a.inputs)
  if let some name := s.requiredSetting then discard (Config.require name a.config)
  let read (ports : List (String × Source)) : NamedValues :=
    Keyed.ofList (ports.map fun (name, source) => (name, source.read a))
  return ⟨read s.outputs, read s.controls⟩

/-- What a scene leaves in the log: what it was activated with, and how its calls were answered. -/
def entry (s : Scene) (a : Activation) (answers : List Value) : Value :=
  let calls := s.calls.map fun _ => ("calls", Value.array answers)
  .object (calls.toList ++
    [("ctl", .object a.controls), ("in", .object a.inputs), ("iteration", .integer a.iteration),
     ("node", .string a.node.text)])

/-- The wait, the breakdown and the result. -/
def ending (s : Scene) (a : Activation) : Script :=
  let last := match s.panic with
    | some message => Script.panic message
    | none => .finish (s.result a)
  match s.wait with
  | some (ms, heedsCancel) => .sleep ms heedsCancel last
  | none => last

/-- An answered call: its name, `ok` or the refusal, and the state after it. -/
def answered (call : Control) (answer : Except TransitionError Unit) (state : ExecutionState) : Value :=
  let text := match answer with
    | .ok _ => "ok"
    | .error e => e.message
  .array [.string call.name, .string text, .string state.name]

/-- Make calls one after the other, leave the entry in the log, and end. -/
def callAll (s : Scene) (a : Activation) : List Control → List Value → Script
  | [], answers => .log (s.entry a answers) (s.ending a)
  | call :: rest, answers => .control call fun answer state =>
    callAll s a rest (answers ++ [answered call answer state])

/-- The script of a scene. -/
def script (s : Scene) (a : Activation) : Script :=
  s.messages.foldr Script.emit (callAll s a (s.calls.getD []) [])

end Scene

/-- A type of node with its scenes. -/
structure Rehearsal where
  typeId : String
  ports : List PortDefinition
  policy : ReadinessPolicy := .allConnected
  isDirectThrough : Bool := false
  refires : Bool := false
  /-- How many activations keep the node ready without new input. -/
  pending : Nat := 0
  /-- Why no node of the type can be made. -/
  failure : Option NodeError := none
  scenes : List Scene := []

namespace Rehearsal

/-- The scene of an activation, counted from zero. -/
def scene (r : Rehearsal) (index : Nat) : Scene :=
  (r.scenes[min index (r.scenes.length - 1)]?).getD {}

/-- The behavior that plays the scenes. What it remembers is one value per activation. -/
def behavior (r : Rehearsal) : Behavior where
  typeId := r.typeId
  ports := r.ports
  policy := r.policy
  isDirectThrough := r.isDirectThrough
  refires := r.refires
  hasPendingWork played := played.length < r.pending
  activate a played := .remember (.null :: played) ((r.scene played.length).script a)

/-- The type of nodes that play the scenes. -/
def nodeType (r : Rehearsal) : NodeType where
  typeId := r.typeId
  create _ := match r.failure with
    | some e => .error e
    | none => .ok r.behavior
  metadata := .standard

end Rehearsal

end Dataflow
