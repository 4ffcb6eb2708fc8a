import Dataflow.Proofs.Run.Acts

/-!
# What a run does to its executor

Every step of a run changes the executor by a list of deeds, and each deed publishes events.

* `Deed` lists what may happen to an executor in a run; `Deed.after` and `Deed.voices` say what each deed makes of its
  state and what it publishes, and `Executor.enact` is the executor after it;
* `Run.deeds` are the deeds of a step;
* `Run.perform_executor` and those after it say which deeds each function of the driver comes to;
* `Executor.replay_spec` says what executors keep to themselves after some deeds.

Nothing is asked of the graph here.
-/

namespace Dataflow

/-- What may happen to an executor in a run. -/
inductive Deed where
  | publish (kind : EventKind)
  | call (call : Control)
  /-- A single step is over. -/
  | endStep
  /-- The driver takes the wake-up. -/
  | takeWake
  /-- The run is over. -/
  | finish (result : ExecutionResult)

namespace Deed

/-- The transition that a deed tries. A cancelled run leaves its state later, when it notices. -/
def transition? : Deed → Option Transition
  | .call .cancel => none
  | .call c => some c.transition
  | .endStep => some .stepComplete
  | .publish _ | .takeWake | .finish _ => none

/-- The state of an executor after a deed: a refused transition leaves it as it is. -/
def after (s : ExecutionState) : Deed → ExecutionState
  | .finish _ => .idle
  | d => (d.transition?.bind s.next?).getD s

/-- What a deed publishes in a state: a refused transition publishes nothing. -/
def voices (s : ExecutionState) : Deed → List EventKind
  | .publish kind => [kind]
  | .finish result => [.stateChanged s .idle, Executor.terminalEvent result]
  | d => ((d.transition?.bind s.next?).map (EventKind.stateChanged s)).toList

/-- Whether a deed cancels a run in a state. -/
def cancels (s : ExecutionState) : Deed → Bool
  | .call .cancel => s.isActive
  | _ => false

/-- The state after some deeds. -/
def afterAll (s : ExecutionState) (deeds : List Deed) : ExecutionState :=
  deeds.foldl after s

/-- What some deeds publish, one after the other. -/
def voicesAll (s : ExecutionState) : List Deed → List EventKind
  | [] => []
  | d :: rest => d.voices s ++ voicesAll (d.after s) rest

end Deed

/-- Publish events of one execution. -/
def EventBus.publishAll (bus : EventBus) (id : ExecutionId) (kinds : List EventKind) : EventBus :=
  kinds.foldl (fun bus kind => bus.publish ⟨id, kind⟩) bus

theorem EventBus.publishAll_append (bus : EventBus) (id : ExecutionId) (kinds kinds' : List EventKind) :
    bus.publishAll id (kinds ++ kinds') = (bus.publishAll id kinds).publishAll id kinds' :=
  List.foldl_append

namespace Executor

/-- Return to paused after a single step. -/
def endStep (x : Executor) : Executor :=
  match x.transition .stepComplete with
  | .ok y => y
  | .error _ => x

/-- The executor after a deed. -/
def enact (x : Executor) : Deed → Executor
  | .publish kind => x.publish kind
  | .call call => (x.call call).2
  | .endStep => x.endStep
  | .takeWake => { x with wake := false }
  | .finish result => x.finish result

/-- The executor after some deeds. -/
def replay (x : Executor) (deeds : List Deed) : Executor :=
  deeds.foldl enact x

@[simp] theorem replay_nil (x : Executor) : x.replay [] = x := rfl

@[simp] theorem replay_cons (x : Executor) (d : Deed) (deeds : List Deed) :
    x.replay (d :: deeds) = (x.enact d).replay deeds := rfl

theorem replay_append (x : Executor) (deeds deeds' : List Deed) :
    x.replay (deeds ++ deeds') = (x.replay deeds).replay deeds' :=
  List.foldl_append

/-- Nothing but the bus gets to know what is published. -/
theorem replay_publish (x : Executor) (kinds : List EventKind) :
    x.replay (kinds.map .publish) = { x with bus := x.bus.publishAll x.executionId kinds } := by
  induction kinds generalizing x with
  | nil => rfl
  | cons kind rest ih => exact ih (x.publish kind)

/-- What executors keep to themselves after a deed. -/
structure Enacted (x : Executor) (d : Deed) (y : Executor) : Prop where
  state : y.state = d.after x.state
  bus : y.bus = x.bus.publishAll x.executionId (d.voices x.state)
  executionId : y.executionId = x.executionId
  config : y.config = x.config
  cancelled : y.cancelled = (x.cancelled || d.cancels x.state)

theorem enacted_call (x : Executor) (c : Control) : x.Enacted (.call c) (x.call c).2 := by
  cases hs : x.state <;> cases c <;> constructor <;>
    simp [call, perform, transition, ExecutionState.apply, Control.transition, ExecutionState.next?, notify,
      ExecutionState.isActive, Except.map, Executor.publish, EventBus.publishAll, Deed.after, Deed.voices,
      Deed.cancels, Deed.transition?, hs]

theorem enacted_endStep (x : Executor) : x.Enacted .endStep x.endStep := by
  cases hs : x.state <;> constructor <;>
    simp [endStep, transition, ExecutionState.apply, ExecutionState.next?, Except.map, Executor.publish,
      EventBus.publishAll, Deed.after, Deed.voices, Deed.cancels, Deed.transition?, hs]

theorem enacted (x : Executor) (d : Deed) : x.Enacted d (x.enact d) := by
  cases d with
  | publish kind => constructor <;> simp [enact, publish, Deed.after, Deed.voices, Deed.cancels, Deed.transition?, EventBus.publishAll]
  | call c => exact x.enacted_call c
  | endStep => exact x.enacted_endStep
  | takeWake => constructor <;> simp [enact, Deed.after, Deed.voices, Deed.cancels, Deed.transition?, EventBus.publishAll]
  | finish result => constructor <;> simp [enact, finish, publish, Deed.after, Deed.voices, Deed.cancels, EventBus.publishAll]

end Executor

namespace Run

/-! ### The deeds of a step -/

/-- The deeds of a script up to its next wait or its end. -/
def performed (node : NodeId) : Script → Executor → List Deed
  | .finish _, _ | .panic _, _ | .sleep .., _ => []
  | .emit event rest, x => .publish (.nodeEvent node event) :: performed node rest (x.publish (.nodeEvent node event))
  | .control c rest, x => .call c :: performed node (rest (x.call c).1 (x.call c).2.state) (x.call c).2
  | .log _ rest, x => performed node rest x
  | .remember _ rest, x => performed node rest x

/-- The event at the end of an activation. -/
def completed (g : Graph) (id : NodeId) (result : Except NodeError Output) (duration : Nat) : List EventKind :=
  match g.node? id with
  | none => []
  | some n =>
    match (n.complete result g.supply).1 with
    | .ok () => [.nodeCompleted id true none duration]
    | .error e => [.nodeCompleted id false (some e.message) duration]

/-- The events by which the activations of an iteration begin. -/
def startings : List NodeId → Graph → List EventKind
  | [], _ => []
  | id :: rest, g =>
    match g.node? id with
    | none => startings rest g
    | some n => .nodeStarted id n.typeId :: startings rest (g.setNode n.prepare.2)

/-- The deeds after the activation of a relay has got as far as `stop`. -/
def closing (task : Task) (stop : Stop) (r : Run) : List Deed :=
  match stop with
  | .finished result => (completed r.graph task.node result (r.now - task.startedAt)).map .publish
  | .panicked _ | .asleep .. => []

/-- The deeds of the activation of a relay that goes on, and of its end. -/
def carried (r : Run) (task : Task) (script : Script) : List Deed :=
  performed task.node script r.executor ++ closing task (perform task.node script r).1 (perform task.node script r).2

/-- The deeds by which a relay is activated. -/
def relayed (r : Run) (n : Node) : List Deed :=
  let r := r.publish (.nodeStarted n.id n.typeId)
  .publish (.nodeStarted n.id n.typeId) ::
    if r.executor.cancelled then []
    else
      let (script, r) := r.prepare n
      r.carried { node := n.id, index := 0, startedAt := (perform n.id script r).2.now, script } script

/-- The deeds by which an iteration begins. -/
def begun (r : Run) : List Deed :=
  let ready := (collectReady r.graph r.graph.nodeList r.firedSources).1
  if ready.isEmpty then [] else (.iteration (r.iteration + 1) :: startings ready r.graph).map .publish

/-- The deeds by which an iteration ends. -/
def ended (r : Run) : List Deed :=
  if r.stepping then [.endStep] else []

/-- The report of a run. -/
def summary (r : Run) (outcome : Outcome) : ExecutionResult :=
  { executionId := r.executor.executionId, outcome, iterations := r.iteration, duration := r.now - r.startedAt }

theorem report_eq (r : Run) (outcome : Outcome) :
    r.report outcome = { r with executor := r.executor.finish (r.summary outcome), phase := .over (r.summary outcome) } := rfl

/-- The deeds of a step of the driver. -/
def driven (r : Run) : List Deed :=
  match r.phase with
  | .boundary =>
    if r.executor.cancelled then []
    else match r.executor.state with
      | .running | .stepping => r.begun
      | .paused | .idle => []
  | .parked => if r.executor.wake then [.takeWake] else []
  | .activating batch =>
    if r.executor.cancelled then []
    else match batch.finished with
      | f :: _ => (completed r.graph f.node f.result (r.now - f.startedAt)).map .publish
      | [] => []
  | .propagating agenda =>
    match agenda.work with
    | .propagate id _ :: _ =>
      if (r.graph.transferOutputs id).transfers.isEmpty then []
      else [.publish (.dataPropagated id (r.graph.transferOutputs id).transfers)]
    | .activate id depth :: _ =>
      match r.graph.node? id with
      | none => []
      | some n => if r.graph.isReady id && depth ≤ r.executor.config.maxRelayDepth then r.relayed n else []
    | [] => if agenda.origins.isEmpty && r.delay?.isNone then r.ended else []
  | .relaying relay _ _ =>
    if r.executor.cancelled then []
    else if relay.wakeAt ≤ r.now then r.carried relay.task relay.task.script
    else []
  | .delaying wakeAt => if r.executor.cancelled then [] else if wakeAt ≤ r.now then r.ended else []
  | .ending outcome => [.finish (r.summary outcome)]
  | .over _ | .broken _ => []

/-- The deeds of a step. -/
def deeds (r : Run) : Signal → List Deed
  | .drive => r.driven
  | .run node =>
    match r.phase with
    | .activating batch =>
      match batch.runnable.find? (·.node = node) with
      | some task => performed task.node task.script r.executor
      | none => []
    | _ => []
  | .control c => [.call c]
  | .wake _ | .pass _ => []

/-! ### The executor, function by function -/

theorem perform_executor (node : NodeId) (script : Script) (r : Run) :
    (perform node script r).2.executor = r.executor.replay (performed node script r.executor) := by
  induction script generalizing r with
  | finish | panic => rfl
  | sleep => rw [perform_sleep]; rfl
  | emit event rest ih => exact ih _
  | control c rest ih => exact ih _ _ _
  | log entry rest ih => exact ih _
  | remember memory rest ih => exact ih _

theorem complete_executor (r : Run) (id : NodeId) (startedAt : Nat) (result : Except NodeError Output) :
    (r.complete id startedAt result).2.executor =
      r.executor.replay ((completed r.graph id result (r.now - startedAt)).map .publish) := by
  cases hn : r.graph.node? id with
  | none => simp only [complete, completed, hn]; rfl
  | some n =>
    simp only [complete, completed, hn]
    cases (n.complete result r.graph.supply).1 <;> rfl

theorem afterRelay_executor (task : Task) (depth : Nat) (agenda : Agenda) (stop : Stop) (r : Run) :
    (afterRelay task depth agenda stop r).executor = r.executor.replay (closing task stop r) := by
  cases stop with
  | finished result =>
    rw [closing, ← complete_executor, afterRelay]
    rcases r.complete task.node task.startedAt result with ⟨completed, r'⟩
    cases completed <;> rfl
  | panicked => rfl
  | asleep => rfl

theorem carry_executor (r : Run) (task : Task) (depth : Nat) (agenda : Agenda) :
    (r.carry task depth agenda).executor = r.executor.replay (r.carried task task.script) := by
  rw [carry, afterRelay_executor, carried, Executor.replay_append, ← perform_executor]

theorem relayed_of_cancelled {r : Run} (hc : r.executor.cancelled = true) (n : Node) :
    r.relayed n = [.publish (.nodeStarted n.id n.typeId)] := by
  simp only [relayed, publish_cancelled, hc, if_true]

theorem relayed_of_not_cancelled {r : Run} (hc : r.executor.cancelled = false) (n : Node) : r.relayed n =
    .publish (.nodeStarted n.id n.typeId) :: (r.launch n).2.carried (r.launch n).1 (r.launch n).1.script := by
  simp only [relayed, publish_cancelled, hc, Bool.false_eq_true, if_false, perform_now]
  rfl

theorem activateRelay_executor (r : Run) (n : Node) (depth : Nat) (agenda : Agenda) :
    (r.activateRelay n depth agenda).executor = r.executor.replay (r.relayed n) := by
  cases hc : r.executor.cancelled with
  | true =>
    rw [activateRelay_of_cancelled hc, relayed_of_cancelled hc]
    rfl
  | false =>
    rw [activateRelay_of_not_cancelled hc, relayed_of_not_cancelled hc, carry_executor]
    rfl

theorem spawn_executor (ids : List NodeId) (index : Nat) (r : Run) :
    (spawn ids index r).2.executor = r.executor.replay ((startings ids r.graph).map .publish) := by
  induction ids generalizing index r with
  | nil => rfl
  | cons id rest ih =>
    cases hn : r.graph.node? id with
    | none =>
      simp only [spawn, startings, hn]
      exact ih _ _
    | some n =>
      simp only [spawn, startings, hn]
      exact ih _ _

theorem beginIteration_executor (r : Run) : r.beginIteration.executor = r.executor.replay r.begun := by
  unfold beginIteration begun
  rcases collectReady r.graph r.graph.nodeList r.firedSources with ⟨ready, fired⟩
  dsimp only
  split_ifs
  · rfl
  · exact spawn_executor _ _ _

theorem propagateFrom_executor (r : Run) (id : NodeId) (depth : Nat) (agenda : Agenda) :
    (r.propagateFrom id depth agenda).executor =
      r.executor.replay (if (r.graph.transferOutputs id).transfers.isEmpty then []
        else [.publish (.dataPropagated id (r.graph.transferOutputs id).transfers)]) := by
  unfold propagateFrom
  dsimp only
  split <;> split_ifs <;> rfl

theorem endIteration_executor (r : Run) : r.endIteration.executor = r.executor.replay r.ended := by
  unfold endIteration ended
  split_ifs <;> rfl

end Run

namespace Executor

/-- What executors keep to themselves after some deeds. -/
theorem replay_spec (x : Executor) (deeds : List Deed) :
    (x.replay deeds).state = Deed.afterAll x.state deeds ∧
      (x.replay deeds).bus = x.bus.publishAll x.executionId (Deed.voicesAll x.state deeds) ∧
      (x.replay deeds).executionId = x.executionId ∧ (x.replay deeds).config = x.config := by
  induction deeds generalizing x with
  | nil => exact ⟨rfl, rfl, rfl, rfl⟩
  | cons d rest ih =>
    have hd := x.enacted d
    obtain ⟨hstate, hbus, hid, hconfig⟩ := ih (x.enact d)
    rw [hd.state] at hstate
    rw [hd.state, hd.bus, hd.executionId] at hbus
    rw [hd.executionId] at hid
    rw [hd.config] at hconfig
    exact ⟨hstate, hbus.trans (EventBus.publishAll_append ..).symm, hid, hconfig⟩

/-- Cancelling a run is never taken back. -/
theorem replay_cancelled {x : Executor} {deeds : List Deed} (h : (x.replay deeds).cancelled = false) :
    x.cancelled = false := by
  induction deeds generalizing x with
  | nil => exact h
  | cons d rest ih =>
    have hd := ih h
    rw [(x.enacted d).cancelled, Bool.or_eq_false_iff] at hd
    exact hd.1

end Executor

end Dataflow
