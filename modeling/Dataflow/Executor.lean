import Dataflow.Event.Bus
import Dataflow.Executor.Config

/-!
# Executors

An executor runs one graph at a time. What it keeps from call to call is its state, whether the run is
cancelled, and a wake-up for a run that waits while it has paused.

* `Executor.begin` accepts or refuses the start of a run;
* `Executor.call` is what the calls `pause`, `resume`, `step` and `cancel` do;
* `Executor.finish` returns to idle and publishes how the run ended.
-/

namespace Dataflow

/-- An executor: its settings, the state of its run, and the bus it publishes on. -/
structure Executor where
  config : ExecutorConfig
  state : ExecutionState
  executionId : ExecutionId
  /-- Whether the run is to be cancelled. -/
  cancelled : Bool
  /-- Whether a wake-up waits for a paused run. -/
  wake : Bool
  bus : EventBus
  deriving Repr

namespace Executor

/-- An idle executor. -/
def create (config : ExecutorConfig) : Executor :=
  { config, state := .idle, executionId := .nil, cancelled := false, wake := false,
    bus := .create config.eventBufferSize }

/-- Publish an event of the current run. -/
def publish (x : Executor) (kind : EventKind) : Executor :=
  { x with bus := x.bus.publish ⟨x.executionId, kind⟩ }

/-- Change the state, if the transition is allowed, and publish the change. -/
def transition (x : Executor) (t : Transition) : Except TransitionError Executor :=
  (x.state.apply t).map fun next =>
    { x with state := next }.publish (.stateChanged x.state next)

/-- Start a run with the given identifier, unless one is under way. -/
def begin (x : Executor) (mode : StartMode) (id : ExecutionId) : Except TransitionError Executor :=
  (x.state.apply (.start mode)).map fun next =>
    { x with state := next, executionId := id, cancelled := false }

/-- Leave a wake-up for the run. -/
def notify (x : Executor) : Executor :=
  { x with wake := true }

/-- Carry out a call. Cancelling leaves the state to the run, which notices it at its next wait. -/
def perform (x : Executor) (call : Control) : Except TransitionError Executor :=
  match call with
  | .pause => x.transition .pause
  | .resume => (x.transition .resume).map notify
  | .step => (x.transition .step).map notify
  | .cancel => (x.state.apply .cancel).map fun _ => { x with cancelled := true }.notify

/-- Carry out a call; a refused one changes nothing. -/
def call (x : Executor) (call : Control) : Except TransitionError Unit × Executor :=
  match x.perform call with
  | .ok x => (.ok (), x)
  | .error e => (.error e, x)

/-- The event that ends a run. -/
def terminalEvent (result : ExecutionResult) : EventKind :=
  match result.outcome with
  | .completed => .completed result
  | .cancelled => .cancelled result
  | .failed error => .failed error result

/-- Return to idle, then publish how the run ended. -/
def finish (x : Executor) (result : ExecutionResult) : Executor :=
  ({ x with state := .idle }.publish (.stateChanged x.state .idle)).publish (terminalEvent result)

end Executor

end Dataflow
