import Dataflow.Execution.Result
import Dataflow.Execution.State
import Dataflow.Value

/-!
# Events

What an executor publishes while it runs a graph, in the order in which it happens.

* `NodeEvent` is what a node says about itself while it is active;
* `Transfer` is a value that moved across an edge;
* `Event` is an event of one execution; `Event.isTerminal` says whether it ends the execution.
-/

namespace Dataflow

/-- A message of a node about itself. -/
inductive NodeEvent where
  | info (message : String)
  | warning (message : String)
  | progress (percent : Binary64) (message : Option String)
  deriving DecidableEq, Repr, Inhabited

/-- A value that moved across an edge, as it was stored. -/
structure Transfer where
  source : PortId
  target : PortId
  value : Value
  deriving DecidableEq, Repr, Inhabited

/-- What happened. Durations are in milliseconds. -/
inductive EventKind where
  | started (nodes edges : Nat)
  | stateChanged (source target : ExecutionState)
  | iteration (number : Nat)
  | nodeStarted (node : NodeId) (typeId : String)
  | nodeCompleted (node : NodeId) (success : Bool) (error : Option String) (duration : Nat)
  | dataPropagated (node : NodeId) (transfers : List Transfer)
  | nodeEvent (node : NodeId) (event : NodeEvent)
  | completed (result : ExecutionResult)
  | cancelled (result : ExecutionResult)
  | failed (error : String) (result : ExecutionResult)
  deriving DecidableEq, Repr, Inhabited

/-- An event of one execution. -/
structure Event where
  executionId : ExecutionId
  kind : EventKind
  deriving DecidableEq, Repr, Inhabited

/-- Whether an event ends its execution. -/
def Event.isTerminal (e : Event) : Bool :=
  match e.kind with
  | .completed _ | .cancelled _ | .failed .. => true
  | _ => false

end Dataflow
