import Dataflow.Executor
import Dataflow.Node.Activation

/-!
# Activations outside a run

A node may be activated without a run: its messages go to whoever called, and its waits pass at once.

* `Script.runDetached` carries out a script to its end;
* `Node.activateDetached` prepares, activates and completes a node.
-/

namespace Dataflow

/-- What a detached activation leaves behind. -/
structure Detached where
  executor : Executor
  memory : Memory
  messages : List NodeEvent
  log : List Value
  /-- The time spent waiting, in milliseconds. -/
  elapsed : Nat

/-- How a detached activation ends: with a result, or by breaking down. -/
inductive DetachedEnd where
  | result (result : Except NodeError Output)
  | panicked (message : String)

/-- Carry out a script to its end. If the activation is cancelled already, waits that heed it fail. -/
def Script.runDetached (cancelled : Bool) : Script → Detached → DetachedEnd × Detached
  | .finish result, d => (.result result, d)
  | .panic message, d => (.panicked message, d)
  | .emit event rest, d => rest.runDetached cancelled { d with messages := d.messages ++ [event] }
  | .control call rest, d =>
    let (answer, executor) := d.executor.call call
    (rest answer executor.state).runDetached cancelled { d with executor }
  | .log entry rest, d => rest.runDetached cancelled { d with log := d.log ++ [entry] }
  | .remember memory rest, d => rest.runDetached cancelled { d with memory }
  | .sleep ms heedsCancel rest, d =>
    if cancelled && heedsCancel then (.result (.error .cancelled), d)
    else rest.runDetached cancelled { d with elapsed := d.elapsed + ms }

/-- The state before a detached activation of a node. -/
def Detached.initial (x : Executor) (memory : Memory) : Detached :=
  { executor := x, memory, messages := [], log := [], elapsed := 0 }

/-- Activate a node from prepared values, outside any run: the result, and the node with what it remembers
now. -/
def Node.runDetached (n : Node) (prepared : Node.Prepared) (x : Executor) : DetachedEnd × Node × Detached :=
  let script := n.behavior.activate (n.activation prepared 0 []) n.memory
  let (ended, d) := script.runDetached false (.initial x n.memory)
  (ended, { n with memory := d.memory }, d)

end Dataflow
