import Dataflow.Node

/-!
# Activating a node

* `Node.prepare` consumes the inputs and collects what an activation starts from;
* `Node.complete` writes the result of an activation to the outputs and settles the status.

Outputs are written in the order of their names, data before control. The first one that cannot be
written stops the rest; those before it stay written.
-/

namespace Dataflow.Node

/-- The values collected for an activation. -/
structure Prepared where
  inputs : NamedValues
  controls : NamedValues
  deriving Repr, Inhabited

/-- Mark the node as executing and collect its inputs, which count as read from now on. Control inputs
are looked at only. -/
def prepare (n : Node) : Prepared × Node :=
  let inputs := Keyed.mapValues (fun p => (Port.read p).1) n.inputs
  let controls := Keyed.mapValues Port.data n.controlInputs
  let node :=
    { n with
      status := .executing
      lastError := none
      execIn := n.execIn.read.2
      inputs := Keyed.mapValues (fun p => (Port.read p).2) n.inputs }
  (⟨inputs, controls⟩, node)

/-- The activation that starts from prepared values. -/
def activation (n : Node) (prepared : Prepared) (iteration : Nat) (context : Context) : Activation :=
  { node := n.id, iteration, config := n.config, context, inputs := prepared.inputs, controls := prepared.controls }

/-- Write values to the named ports of a group, in order, up to the first that cannot be written. -/
def writeNamed : NamedValues → Keyed Port → Supply → Option NodeError × Keyed Port × Supply
  | [], group, s => (none, group, s)
  | (name, v) :: rest, group, s =>
    match Keyed.find? name group with
    | none => (some (.unknownPort name), group, s)
    | some p =>
      match p.write v s with
      | .error e => (some (.conversion name e), group, s)
      | .ok (_, p, s) => writeNamed rest (Keyed.insert name p group) s

/-- Write an output to the ports of a node, data before control, and signal the trigger at the end. -/
def writeOutput (n : Node) (output : Output) (s : Supply) : Option NodeError × Node × Supply :=
  match writeNamed output.outputs n.outputs s with
  | (some e, outputs, s) => (some e, { n with outputs }, s)
  | (none, outputs, s) =>
    match writeNamed output.controls n.controlOutputs s with
    | (some e, controlOutputs, s) => (some e, { n with outputs, controlOutputs }, s)
    | (none, controlOutputs, s) =>
      match n.execOut.write .null s with
      | .ok (_, execOut, s) => (none, { n with outputs, controlOutputs, execOut }, s)
      | .error _ => (none, { n with outputs, controlOutputs }, s)

/-- Note a failure. -/
def failWith (n : Node) (e : NodeError) : Node :=
  { n with status := .failed, lastError := some e.message }

/-- Settle an activation: write its output, or note why it failed. -/
def complete (n : Node) (result : Except NodeError Output) (s : Supply) :
    Except NodeError Unit × Node × Supply :=
  match result with
  | .error e => (.error e, n.failWith e, s)
  | .ok output =>
    match n.writeOutput output s with
    | (some e, n, s) => (.error e, n.failWith e, s)
    | (none, n, s) => (.ok (), { n with status := .success }, s)

end Dataflow.Node
