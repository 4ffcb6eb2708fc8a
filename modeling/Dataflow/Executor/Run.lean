import Dataflow.Executor
import Dataflow.Graph.RelayCycles
import Dataflow.Graph.Transfer
import Dataflow.Node.Activation

/-!
# Runs

A run activates the ready nodes of a graph, moves their outputs along the edges, and begins again, until
no node is ready. Its driver works in steps. Between two steps the driver waits, and only then may time
pass and calls arrive from outside.

* `Run` is the state of a run, `Phase` what its driver is about to do or waits for;
* `Run.start` begins a run;
* `Signal` is what may happen next, `Run.step?` what it changes;
* `Run.drive?` is one step of the driver.

An iteration scans the nodes for those that are ready, activates all of them side by side, and waits until
all have ended. If none failed, their inputs are cleared and their outputs are moved, node by node in the
order of the scan. Direct-through nodes that are reached on the way are activated at once, and their
outputs are moved before anything else.
-/

namespace Dataflow

/-- An activation under way, or about to begin. `index` is its place in the scan. -/
structure Task where
  node : NodeId
  index : Nat
  startedAt : Nat
  script : Script

/-- An activation that waits for an instant. -/
structure Sleeper where
  wakeAt : Nat
  task : Task

/-- An activation that has ended. -/
structure Finished where
  node : NodeId
  startedAt : Nat
  result : Except NodeError Output

/-- The activations of one iteration. -/
structure Batch where
  /-- The nodes of the scan. -/
  ready : List NodeId
  /-- Activations that can go on, in the order in which they became able to. -/
  runnable : List Task
  asleep : List Sleeper
  /-- Activations that have ended and are not settled yet, in the order in which they ended. -/
  finished : List Finished
  /-- The nodes whose activation is settled. -/
  settled : List NodeId
  /-- The lines of the failed activations. -/
  failures : List String

/-- Work that is left while outputs are moved: to move the outputs of a node, or to activate a relay. The
number is the length of the chain of relays up to here. -/
inductive Work where
  | propagate (node : NodeId) (depth : Nat)
  | activate (node : NodeId) (depth : Nat)
  deriving DecidableEq, Repr

/-- The work that is left in an iteration: for the current node, and the nodes of the scan after it. -/
structure Agenda where
  work : List Work
  origins : List NodeId
  deriving DecidableEq, Repr

/-- What the driver of a run is about to do, or waits for. -/
inductive Phase where
  /-- Look at the state of the executor. -/
  | boundary
  /-- Wait for a wake-up while paused. -/
  | parked
  /-- Settle the activations of an iteration. -/
  | activating (batch : Batch)
  /-- Move outputs. -/
  | propagating (agenda : Agenda)
  /-- Wait for a relay that sleeps. -/
  | relaying (relay : Sleeper) (depth : Nat) (agenda : Agenda)
  /-- Wait between iterations. -/
  | delaying (wakeAt : Nat)
  /-- Report the outcome. -/
  | ending (outcome : Outcome)
  /-- The run is over. -/
  | over (result : ExecutionResult)
  /-- A relay broke down and took the driver with it; there is no outcome. -/
  | broken (message : String)

/-- The state of a run. -/
structure Run where
  executor : Executor
  graph : Graph
  context : Context
  iteration : Nat
  /-- The nodes without connected inputs that were activated already. -/
  firedSources : List NodeId
  /-- Whether the iteration under way is a single step. -/
  stepping : Bool
  startedAt : Nat
  /-- The current instant, in milliseconds. -/
  now : Nat
  log : List Value
  phase : Phase

namespace Run

/-- Publish an event. -/
def publish (r : Run) (kind : EventKind) : Run :=
  { r with executor := r.executor.publish kind }

/-- End with an outcome. -/
def endWith (r : Run) (outcome : Outcome) : Run :=
  { r with phase := .ending outcome }

/-- Change a node. -/
def modifyNode (r : Run) (id : NodeId) (f : Node → Node) : Run :=
  { r with graph := r.graph.modifyNode id f }

/-- The label of a node. -/
def labelOf (r : Run) (id : NodeId) : String :=
  match r.graph.node? id with
  | some n => n.label
  | none => ""

/-! ### Starting -/

/-- Forget how the latest activations went. -/
def resetNodes (g : Graph) : Graph :=
  g.order.foldl (fun g id => g.modifyNode id Node.resetStatus) g

/-- Begin a run at an instant, unless one is under way. Its identifier comes from the graph's supply. -/
def start (x : Executor) (g : Graph) (context : Context) (mode : StartMode) (now : Nat) :
    Except TransitionError Run :=
  let (id, supply) := g.supply.draw
  (x.begin mode id).map fun y =>
    let y := y.publish (.started g.order.length g.edges.length)
    let y := y.publish (.stateChanged x.state y.state)
    { executor := y, graph := resetNodes { g with supply }, context, iteration := 0, firedSources := [],
      stepping := false, startedAt := now, now, log := [], phase := .boundary }

/-! ### Activations -/

/-- How far a script got: to its end, or to a wait. -/
inductive Stop where
  | finished (result : Except NodeError Output)
  | panicked (message : String)
  | asleep (ms : Nat) (rest : Script)

/-- Carry out a script up to its next wait or its end. In a run that is cancelled already, a wait that heeds it
fails at once. -/
def perform (node : NodeId) : Script → Run → Stop × Run
  | .finish result, r => (.finished result, r)
  | .panic message, r => (.panicked message, r)
  | .emit event rest, r => perform node rest (r.publish (.nodeEvent node event))
  | .control call rest, r =>
    let (answer, executor) := r.executor.call call
    perform node (rest answer executor.state) { r with executor }
  | .log entry rest, r => perform node rest { r with log := r.log ++ [entry] }
  | .remember memory rest, r => perform node rest (r.modifyNode node fun n => { n with memory })
  | .sleep ms heedsCancel rest, r =>
    if heedsCancel && r.executor.cancelled then (.finished (.error .cancelled), r) else (.asleep ms rest, r)

/-- Consume the inputs of a node; the result is the script of its activation. -/
def prepare (r : Run) (n : Node) : Script × Run :=
  let (prepared, n) := n.prepare
  let script := n.behavior.activate (n.activation prepared r.iteration r.context) n.memory
  (script, { r with graph := r.graph.setNode n })

/-- Write the result of an activation to its node and publish how it went. -/
def complete (r : Run) (id : NodeId) (startedAt : Nat) (result : Except NodeError Output) :
    Except NodeError Unit × Run :=
  match r.graph.node? id with
  | none => (.ok (), r)
  | some n =>
    let (completed, n, supply) := n.complete result r.graph.supply
    let r := { r with graph := ({ r.graph.setNode n with supply }).reindex id }
    let duration := r.now - startedAt
    match completed with
    | .ok () => (.ok (), r.publish (.nodeCompleted id true none duration))
    | .error e => (.error e, r.publish (.nodeCompleted id false (some e.message) duration))

/-- The line of a failed activation. -/
def failureLine (r : Run) (id : NodeId) (message : String) : String :=
  r.labelOf id ++ ": " ++ message

/-- Clear the consumed inputs of a node; the index of owners is brought up to date. -/
def clearInputs (r : Run) (id : NodeId) : Run :=
  { r with graph := (r.graph.modifyNode id Node.clearInputs).reindex id }

/-! ### The scan -/

/-- Whether a node takes part in the next iteration, with the sources that have fired then. A node without
connected inputs fires once, unless it refires or has pending work. -/
def joins (g : Graph) (fired : List NodeId) (n : Node) : Bool :=
  let connected := g.connectedInputs n.id
  n.readiness connected = .ready &&
    (!connected.isEmpty || !fired.contains n.id || n.behavior.refires || n.hasPendingWork)

/-- The nodes of the next iteration, and the sources that have fired then. -/
def collectReady (g : Graph) : List Node → List NodeId → List NodeId × List NodeId
  | [], fired => ([], fired)
  | n :: rest, fired =>
    if joins g fired n then
      let fired := if (g.connectedInputs n.id).isEmpty then insertNew n.id fired else fired
      let (ready, fired) := collectReady g rest fired
      (n.id :: ready, fired)
    else collectReady g rest fired

/-- Prepare the activations of the given nodes, from a place in the scan on. -/
def spawn : List NodeId → Nat → Run → List Task × Run
  | [], _, r => ([], r)
  | id :: rest, index, r =>
    match r.graph.node? id with
    | none => spawn rest index r
    | some n =>
      let (script, r) := r.prepare n
      let r := r.publish (.nodeStarted id n.typeId)
      let (tasks, r) := spawn rest (index + 1) r
      ({ node := id, index, startedAt := r.now, script } :: tasks, r)

/-- Scan for ready nodes and begin an iteration, or end if there are none. -/
def beginIteration (r : Run) : Run :=
  let (ready, firedSources) := collectReady r.graph r.graph.nodeList r.firedSources
  if ready.isEmpty then { r with firedSources }.endWith .completed
  else
    let r := { r with firedSources, iteration := r.iteration + 1, stepping := r.executor.state == ExecutionState.stepping }
    let r := r.publish (.iteration r.iteration)
    let (runnable, r) := spawn ready 0 r
    { r with
      phase := .activating { ready, runnable, asleep := [], finished := [], settled := [], failures := [] } }

/-- Look at the state of the executor. -/
def atBoundary (r : Run) : Run :=
  if r.executor.cancelled then r.endWith .cancelled
  else match r.executor.state with
    | .running | .stepping => r.beginIteration
    | .paused => { r with phase := .parked }
    | .idle => r.endWith .cancelled

/-- Wait for a wake-up while paused. -/
def whileParked? (r : Run) : Option Run :=
  if r.executor.wake then some { r with executor := { r.executor with wake := false }, phase := .boundary }
  else if r.executor.cancelled then some { r with phase := .boundary }
  else none

/-! ### Settling an iteration -/

/-- Give up the activations that are not settled. -/
def abandon (r : Run) (batch : Batch) : Run :=
  ((batch.ready.filter fun id => !batch.settled.contains id).foldl
    (fun r id => r.modifyNode id Node.resetStatus) r).endWith .cancelled

/-- Settle an activation that has ended. -/
def settle (r : Run) (batch : Batch) (f : Finished) (finished : List Finished) : Run :=
  let (completed, r) := r.complete f.node f.startedAt f.result
  let failures := match completed with
    | .ok () => batch.failures
    | .error e => batch.failures ++ [r.failureLine f.node e.message]
  { r with phase := .activating { batch with finished, failures, settled := batch.settled ++ [f.node] } }

/-- All activations are settled: clear their inputs and go on to their outputs, or fail. Every input is
cleared before any output moves, so that nothing delivered is cleared away. -/
def passBarrier (r : Run) (batch : Batch) : Run :=
  if batch.failures.isEmpty then
    let r := batch.ready.foldl clearInputs r
    { r with phase := .propagating ⟨[], batch.ready⟩ }
  else r.endWith (.failed ("; ".intercalate batch.failures))

/-- Settle what has ended; a cancelled run gives up all that is left. -/
def whileActivating? (r : Run) (batch : Batch) : Option Run :=
  if r.executor.cancelled then some (r.abandon batch)
  else match batch.finished with
    | f :: rest => some (r.settle batch f rest)
    | [] => if batch.runnable.isEmpty && batch.asleep.isEmpty then some (r.passBarrier batch) else none

/-! ### Moving outputs -/

/-- Move the outputs of a node; relays that become ready are next. -/
def propagateFrom (r : Run) (id : NodeId) (depth : Nat) (agenda : Agenda) : Run :=
  let d := r.graph.transferOutputs id
  let r := { r with graph := d.graph }
  let r := if d.transfers.isEmpty then r else r.publish (.dataPropagated id d.transfers)
  match d.failure with
  | some error => r.endWith (.failed error)
  | none =>
    let triggered := (d.relays.filter r.graph.isReady).map fun relay => Work.activate relay (depth + 1)
    { r with phase := .propagating { agenda with work := triggered ++ agenda.work } }

/-- Go on after the activation of a relay has got as far as `stop`. -/
def afterRelay (task : Task) (depth : Nat) (agenda : Agenda) (stop : Stop) (r : Run) : Run :=
  match stop with
  | .finished result =>
    match r.complete task.node task.startedAt result with
    | (.error e, r) => r.endWith (.failed (r.failureLine task.node e.message))
    | (.ok (), r) =>
      { r.clearInputs task.node with
        phase := .propagating { agenda with work := .propagate task.node depth :: agenda.work } }
  | .panicked message => { r with phase := .broken message }
  | .asleep ms rest => { r with phase := .relaying ⟨r.now + ms, { task with script := rest }⟩ depth agenda }

/-- Activate a relay. A run that is cancelled already does not let it begin. -/
def activateRelay (r : Run) (n : Node) (depth : Nat) (agenda : Agenda) : Run :=
  let r := r.publish (.nodeStarted n.id n.typeId)
  if r.executor.cancelled then (r.modifyNode n.id Node.resetStatus).endWith .cancelled
  else
    let (script, r) := r.prepare n
    let (stop, r) := perform n.id script r
    afterRelay { node := n.id, index := 0, startedAt := r.now, script } depth agenda stop r

/-- The wording of a chain of relays that is too long. -/
def depthFailure (r : Run) (id : NodeId) : String :=
  r.failureLine id
    ("direct-through relay depth limit of " ++ toString r.executor.config.maxRelayDepth ++ " exceeded")

/-- Activate a relay if it is still ready and the chain is not too long. -/
def reachRelay (r : Run) (id : NodeId) (depth : Nat) (agenda : Agenda) : Run :=
  match r.graph.node? id with
  | none => { r with phase := .propagating agenda }
  | some n =>
    if !r.graph.isReady id then { r with phase := .propagating agenda }
    else if r.executor.config.maxRelayDepth < depth then r.endWith (.failed (r.depthFailure id))
    else r.activateRelay n depth agenda

/-- Wait for a relay that sleeps; a cancelled run gives it up. -/
def whileRelaying? (r : Run) (relay : Sleeper) (depth : Nat) (agenda : Agenda) : Option Run :=
  if r.executor.cancelled then some ((r.modifyNode relay.task.node Node.resetStatus).endWith .cancelled)
  else if relay.wakeAt ≤ r.now then
    let (stop, r) := perform relay.task.node relay.task.script r
    some (afterRelay relay.task depth agenda stop r)
  else none

/-! ### Between iterations -/

/-- The pause between iterations: that of the context comes before that of the settings. -/
def delay? (r : Run) : Option Nat :=
  r.context.iterationDelay?.or r.executor.config.delay?

/-- An iteration is over; a single step returns to paused. -/
def endIteration (r : Run) : Run :=
  let executor :=
    if r.stepping then
      match r.executor.transition .stepComplete with
      | .ok executor => executor
      | .error _ => r.executor
    else r.executor
  { r with executor, stepping := false, phase := .boundary }

/-- Wait between iterations, if there is a pause. -/
def beginDelay (r : Run) : Run :=
  match r.delay? with
  | some ms => { r with phase := .delaying (r.now + ms) }
  | none => r.endIteration

/-- Wait between iterations; a cancelled run ends here. -/
def whileDelaying? (r : Run) (wakeAt : Nat) : Option Run :=
  if r.executor.cancelled then some (r.endWith .cancelled)
  else if wakeAt ≤ r.now then some r.endIteration
  else none

/-- Take the next piece of work. -/
def propagateNext (r : Run) (agenda : Agenda) : Run :=
  match agenda.work with
  | .propagate id depth :: work => r.propagateFrom id depth { agenda with work }
  | .activate id depth :: work => r.reachRelay id depth { agenda with work }
  | [] =>
    match agenda.origins with
    | id :: origins => { r with phase := .propagating ⟨[.propagate id 0], origins⟩ }
    | [] => r.beginDelay

/-- Report the outcome. -/
def report (r : Run) (outcome : Outcome) : Run :=
  let result : ExecutionResult :=
    { executionId := r.executor.executionId, outcome, iterations := r.iteration, duration := r.now - r.startedAt }
  { r with executor := r.executor.finish result, phase := .over result }

/-- One step of the driver; none if it waits or the run is over. -/
def drive? (r : Run) : Option Run :=
  match r.phase with
  | .boundary => some r.atBoundary
  | .parked => r.whileParked?
  | .activating batch => r.whileActivating? batch
  | .propagating agenda => some (r.propagateNext agenda)
  | .relaying relay depth agenda => r.whileRelaying? relay depth agenda
  | .delaying wakeAt => r.whileDelaying? wakeAt
  | .ending outcome => some (r.report outcome)
  | .over _ | .broken _ => none

/-! ### Activations side by side -/

/-- The failure of an activation that broke down. -/
def panicError (index : Nat) (message : String) : NodeError :=
  .executionFailed
    ("activation task failed: task " ++ toString index ++ " panicked with message " ++ Text.quote message)

/-- Let an activation go on up to its next wait or its end. -/
def runTask (r : Run) (batch : Batch) (task : Task) (runnable : List Task) : Run :=
  let (stop, r) := perform task.node task.script r
  let ended result :=
    { batch with runnable, finished := batch.finished ++ [⟨task.node, task.startedAt, result⟩] }
  let batch := match stop with
    | .finished result => ended result
    | .panicked message => ended (.error (panicError task.index message))
    | .asleep ms rest =>
      { batch with runnable, asleep := batch.asleep ++ [⟨r.now + ms, { task with script := rest }⟩] }
  { r with phase := .activating batch }

/-- Let the activation of a node go on. -/
def runNode? (r : Run) (id : NodeId) : Option Run :=
  match r.phase with
  | .activating batch => do
    let task ← batch.runnable.find? (·.node = id)
    return r.runTask batch task (batch.runnable.filter (·.node ≠ id))
  | _ => none

/-- Wake the activation of a node whose instant has come. -/
def wakeNode? (r : Run) (id : NodeId) : Option Run :=
  match r.phase with
  | .activating batch => do
    let sleeper ← batch.asleep.find? (·.task.node = id)
    if sleeper.wakeAt ≤ r.now then
      return { r with
        phase := .activating
          { batch with
            runnable := batch.runnable ++ [sleeper.task]
            asleep := batch.asleep.filter (·.task.node ≠ id) } }
    else none
  | _ => none

/-- What may happen next in a run. -/
inductive Signal where
  /-- The driver makes a step. -/
  | drive
  /-- The activation of a node goes on. -/
  | run (node : NodeId)
  /-- The activation of a node wakes up. -/
  | wake (node : NodeId)
  /-- A call arrives from outside. -/
  | control (call : Control)
  /-- Time passes. -/
  | pass (ms : Nat)
  deriving DecidableEq, Repr

/-- The run after a signal; none if the signal cannot come now. -/
def step? (r : Run) : Signal → Option Run
  | .drive => r.drive?
  | .run node => r.runNode? node
  | .wake node => r.wakeNode? node
  | .control call => some { r with executor := (r.executor.call call).2 }
  | .pass ms => some { r with now := r.now + ms }

end Run

end Dataflow
