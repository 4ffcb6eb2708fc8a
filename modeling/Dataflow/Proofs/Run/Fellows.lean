import Dataflow.Proofs.Run.Events

/-!
# Runs on another executor

A run looks at the settings of its executor, at its state, at whether it is cancelled, and at the identifier of the
execution. It does not look at the bus; and a wake-up makes a difference only to a driver that waits for one.

* `Executor.Peer` and `Executor.Fellow` say what executors have in common that runs cannot tell apart, and
  `Executor.Fellow.replay` that deeds preserve it;
* `Run.on` is a run on another executor; the functions of the driver do the same in it;
* `Run.step_on`: a step of a run is the same on every such executor, with the same deeds there;
* `Run.voices_on`: it publishes the same events.
-/

namespace Dataflow

namespace Executor

/-- Executors that answer calls alike. -/
structure Peer (x y : Executor) : Prop where
  config : y.config = x.config
  state : y.state = x.state
  cancelled : y.cancelled = x.cancelled

variable {x y : Executor}

theorem Peer.enact (h : x.Peer y) (d : Deed) : (x.enact d).Peer (y.enact d) where
  config := by rw [(y.enacted d).config, (x.enacted d).config, h.config]
  state := by rw [(y.enacted d).state, (x.enacted d).state, h.state]
  cancelled := by rw [(y.enacted d).cancelled, (x.enacted d).cancelled, h.cancelled, h.state]

theorem Peer.replay (h : x.Peer y) (deeds : List Deed) : (x.replay deeds).Peer (y.replay deeds) := by
  induction deeds generalizing x y with
  | nil => exact h
  | cons d deeds ih => exact ih (h.enact d)

/-- A call is answered as the state allows. -/
theorem call_fst (x : Executor) (c : Control) : (x.call c).1 = (x.state.apply c.transition).map fun _ => () := by
  cases c <;>
    simp only [call, perform, transition, Control.transition] <;>
    cases x.state.apply _ <;> rfl

/-- Executors of the same execution that answer calls alike. They may differ in their buses and by a wake-up. -/
structure Fellow (x y : Executor) : Prop extends Peer x y where
  executionId : y.executionId = x.executionId

theorem Fellow.symm (h : x.Fellow y) : y.Fellow x :=
  ⟨⟨h.config.symm, h.state.symm, h.cancelled.symm⟩, h.executionId.symm⟩

theorem Fellow.enact (h : x.Fellow y) (d : Deed) : (x.enact d).Fellow (y.enact d) :=
  { h.toPeer.enact d with
    executionId := by rw [(y.enacted d).executionId, (x.enacted d).executionId, h.executionId] }

theorem Fellow.replay (h : x.Fellow y) (deeds : List Deed) : (x.replay deeds).Fellow (y.replay deeds) := by
  induction deeds generalizing x y with
  | nil => exact h
  | cons d deeds ih => exact ih (h.enact d)

end Executor

namespace Run

/-- A run on another executor. -/
def on (r : Run) (y : Executor) : Run :=
  { r with executor := y }

@[simp] theorem on_self (r : Run) : r.on r.executor = r := rfl

@[simp] theorem on_on (r : Run) (y z : Executor) : (r.on y).on z = r.on z := rfl

section Fields

variable (r : Run) (y : Executor)

@[simp] theorem on_executor : (r.on y).executor = y := rfl

@[simp] theorem on_graph : (r.on y).graph = r.graph := rfl

@[simp] theorem on_phase : (r.on y).phase = r.phase := rfl

@[simp] theorem on_now : (r.on y).now = r.now := rfl

@[simp] theorem on_firedSources : (r.on y).firedSources = r.firedSources := rfl

@[simp] theorem on_stepping : (r.on y).stepping = r.stepping := rfl

end Fields

variable {r : Run} {y : Executor}

/-! ### The driver, function by function -/

theorem performed_on {x : Executor} (node : NodeId) (script : Script) (h : x.Fellow y) :
    performed node script y = performed node script x := by
  induction script generalizing x y with
  | finish | panic | sleep => rfl
  | emit event rest ih => exact congrArg (_ :: ·) (ih (h.enact (.publish (.nodeEvent node event))))
  | control c rest ih =>
    have hlater := h.enact (.call c)
    have hstate : (y.call c).2.state = (x.call c).2.state := hlater.state
    simp only [performed]
    rw [Executor.call_fst, Executor.call_fst, h.state, hstate]
    exact congrArg (_ :: ·) (ih _ _ hlater)
  | log entry rest ih => exact ih h
  | remember memory rest ih => exact ih h

theorem performing_on (node : NodeId) (script : Script) (h : r.executor.Fellow y) :
    performing node script (r.on y) = performing node script r := by
  induction script generalizing r y with
  | finish | panic | sleep => rfl
  | emit event rest ih =>
    exact ih (r := r.publish (.nodeEvent node event)) (h.enact (.publish (.nodeEvent node event)))
  | control c rest ih =>
    have hlater := h.enact (.call c)
    have hstate : (y.call c).2.state = (r.executor.call c).2.state := hlater.state
    have hrest := ih (r.executor.call c).1 (r.executor.call c).2.state (r := { r with executor := (r.executor.call c).2 }) hlater
    simp only [performing]
    rw [on_executor, Executor.call_fst y, h.state, ← Executor.call_fst, hstate]
    exact hrest
  | log entry rest ih => exact ih (r := { r with log := r.log ++ [entry] }) h
  | remember memory rest ih =>
    exact congrArg (_ :: ·) (ih (r := r.modifyNode node fun n => { n with memory }) h)

theorem perform_on (node : NodeId) (script : Script) (h : r.executor.Fellow y) :
    perform node script (r.on y) =
      ((perform node script r).1, (perform node script r).2.on (y.replay (performed node script r.executor))) := by
  induction script generalizing r y with
  | finish | panic => rfl
  | sleep ms heedsCancel rest =>
    rw [perform_sleep, perform_sleep, on_executor, h.cancelled]
    rfl
  | emit event rest ih =>
    exact ih (r := r.publish (.nodeEvent node event)) (h.enact (.publish (.nodeEvent node event)))
  | control c rest ih =>
    have hlater := h.enact (.call c)
    have hstate : (y.call c).2.state = (r.executor.call c).2.state := hlater.state
    have hrest := ih (r.executor.call c).1 (r.executor.call c).2.state (r := r.on (r.executor.call c).2) hlater
    simp only [perform, performed]
    rw [on_executor, Executor.call_fst y, h.state, ← Executor.call_fst, hstate]
    exact hrest
  | log entry rest ih => exact ih (r := { r with log := r.log ++ [entry] }) h
  | remember memory rest ih => exact ih (r := r.modifyNode node fun n => { n with memory }) h

theorem complete_on (r : Run) (y : Executor) (id : NodeId) (startedAt : Nat) (result : Except NodeError Output) :
    (r.on y).complete id startedAt result = ((r.complete id startedAt result).1,
      (r.complete id startedAt result).2.on
        (y.replay ((completed r.graph id result (r.now - startedAt)).map .publish))) := by
  unfold complete completed
  rw [on_graph]
  cases r.graph.node? id with
  | none => rfl
  | some n =>
    dsimp only
    cases (n.complete result r.graph.supply).1 <;> rfl

theorem spawn_on (ids : List NodeId) (index : Nat) (r : Run) (y : Executor) :
    spawn ids index (r.on y) = ((spawn ids index r).1,
      (spawn ids index r).2.on (y.replay ((startings ids r.graph).map .publish))) := by
  induction ids generalizing index r y with
  | nil => rfl
  | cons id rest ih =>
    unfold spawn startings
    rw [on_graph]
    cases r.graph.node? id with
    | none => exact ih index r y
    | some n =>
      have hrest := ih (index + 1) ((r.prepare n).2.publish (.nodeStarted id n.typeId)) (y.publish (.nodeStarted id n.typeId))
      dsimp only
      rw [show ((r.on y).prepare n).2.publish (.nodeStarted id n.typeId) =
        ((r.prepare n).2.publish (.nodeStarted id n.typeId)).on (y.publish (.nodeStarted id n.typeId)) from rfl, hrest]
      rfl

theorem beginIteration_on (h : r.executor.Fellow y) :
    (r.on y).beginIteration = r.beginIteration.on (y.replay r.begun) := by
  unfold beginIteration begun
  rw [on_graph, on_firedSources,
    on_executor, h.state]
  rcases collectReady r.graph r.graph.nodeList r.firedSources with ⟨ready, fired⟩
  dsimp only
  split_ifs
  · rfl
  · have hspawn := spawn_on ready 0 (({ r with
      firedSources := fired, iteration := r.iteration + 1,
      stepping := r.executor.state == ExecutionState.stepping } : Run).publish (.iteration (r.iteration + 1)))
      (y.publish (.iteration (r.iteration + 1)))
    exact congrArg (fun p : List Task × Run => { p.2 with phase := Phase.activating ⟨ready, p.1, [], [], [], []⟩ }) hspawn

theorem settle_on (r : Run) (y : Executor) (batch : Batch) (f : Finished) (rest : List Finished) :
    (r.on y).settle batch f rest = (r.settle batch f rest).on
      (y.replay ((completed r.graph f.node f.result (r.now - f.startedAt)).map .publish)) := by
  unfold Run.settle
  rw [complete_on]
  rfl

theorem propagateFrom_on (r : Run) (y : Executor) (id : NodeId) (depth : Nat) (agenda : Agenda) :
    (r.on y).propagateFrom id depth agenda = (r.propagateFrom id depth agenda).on
      (y.replay (if (r.graph.transferOutputs id).transfers.isEmpty then []
        else [.publish (.dataPropagated id (r.graph.transferOutputs id).transfers)])) := by
  unfold propagateFrom
  rw [on_graph]
  dsimp only
  cases (r.graph.transferOutputs id).failure <;> split_ifs <;> rfl

theorem afterRelay_on (task : Task) (depth : Nat) (agenda : Agenda) (stop : Stop) (r : Run) (y : Executor) :
    afterRelay task depth agenda stop (r.on y) =
      (afterRelay task depth agenda stop r).on (y.replay (closing task stop r)) := by
  cases stop with
  | finished result =>
    unfold afterRelay closing
    dsimp only
    rw [complete_on]
    rcases r.complete task.node task.startedAt result with ⟨answer, r'⟩
    cases answer <;> rfl
  | panicked | asleep => rfl

/-- A relay goes on as it does on the other executor. -/
theorem carry_on (h : r.executor.Fellow y) (task : Task) (depth : Nat) (agenda : Agenda) :
    (r.on y).carry task depth agenda = (r.carry task depth agenda).on (y.replay (r.carried task task.script)) := by
  rw [carry, perform_on task.node task.script h, afterRelay_on, carried, Executor.replay_append]
  rfl

theorem carried_on (task : Task) (script : Script) (h : r.executor.Fellow y) :
    (r.on y).carried task script = r.carried task script := by
  unfold carried
  rw [on_executor, performed_on task.node script h, perform_on task.node script h]
  cases (perform task.node script r).1 <;> rfl

theorem carrying_on (node : NodeId) (script : Script) (h : r.executor.Fellow y) :
    (r.on y).carrying node script = r.carrying node script := by
  unfold carrying
  rw [performing_on node script h, perform_on node script h]
  rfl

theorem launch_on (r : Run) (y : Executor) (n : Node) :
    (r.on y).launch n = ((r.launch n).1, (r.launch n).2.on (y.publish (.nodeStarted n.id n.typeId))) := rfl

theorem delay?_on (h : r.executor.Fellow y) : (r.on y).delay? = r.delay? := by
  rw [delay?, on_executor, h.config]
  rfl

theorem endIteration_on (r : Run) (y : Executor) : (r.on y).endIteration = r.endIteration.on (y.replay r.ended) := by
  unfold endIteration ended
  rw [on_stepping]
  split_ifs <;> rfl

/-! ### Step by step -/

/-- The driver decides alike, and does the same. -/
theorem Drives.on {r' : Run} {acts : List Act} {deeds : List Deed} (hd : r.Drives acts deeds r') (h : r.executor.Fellow y)
    (hp : r.phase ≠ .parked) : (r.on y).Drives acts deeds (r'.on (y.replay deeds)) := by
  have hcancelled : ∀ {b : Bool}, r.executor.cancelled = b → (r.on y).executor.cancelled = b := h.cancelled.trans
  have hstate : ∀ {s : ExecutionState}, r.executor.state = s → (r.on y).executor.state = s := h.state.trans
  have hlimit : (r.on y).executor.config.maxRelayDepth = r.executor.config.maxRelayDepth :=
    congrArg ExecutorConfig.maxRelayDepth h.config
  cases hd with
  | desist hp hc => exact .desist hp (hcancelled hc)
  | begin hp hc hs =>
    rw [← beginIteration_on h]
    exact .begin hp (hcancelled hc) (hs.imp hstate hstate)
  | park hp hc hs => exact .park hp (hcancelled hc) (hstate hs)
  | lose hp hc hs => exact .lose hp (hcancelled hc) (hstate hs)
  | rouse hp' | look hp' => exact absurd hp' hp
  | @abandon batch hp hc =>
    rw [show (r.abandon batch).on (y.replay []) = (r.on y).abandon batch by rw [abandon_eq, abandon_eq]; rfl]
    exact .abandon hp (hcancelled hc)
  | settle hp hc hf =>
    rw [← settle_on]
    exact .settle hp (hcancelled hc) hf
  | @pass batch hp hc hf hrunnable hasleep hfailures =>
    have hpass : (r.pass batch).on (y.replay []) = (r.on y).pass batch := by
      rw [pass_eq, pass_eq]
      rfl
    rw [hpass]
    exact .pass hp (hcancelled hc) hf hrunnable hasleep hfailures
  | fail hp hc hf hrunnable hasleep hfailures => exact .fail hp (hcancelled hc) hf hrunnable hasleep hfailures
  | move hp =>
    rw [← propagateFrom_on]
    exact .move hp
  | skip hp hready => exact .skip hp hready
  | @exceed id _ _ _ _ hp hn hready hdepth =>
    have hline : (r.on y).depthFailure id = r.depthFailure id := by
      rw [depthFailure, hlimit]
      rfl
    rw [← hline]
    exact .exceed hp hn hready (hlimit.symm ▸ hdepth)
  | refuse hp hn hready hdepth hc => exact .refuse hp hn hready (hlimit.symm ▸ hdepth) (hcancelled hc)
  | @relay _ n _ _ _ hp hn hready hdepth hc =>
    have hstarted : (r.launch n).2.executor.Fellow (y.publish (.nodeStarted n.id n.typeId)) :=
      h.enact (.publish (.nodeStarted n.id n.typeId))
    have hrelay : (r.on y).Drives _ _ _ := .relay hp hn hready (hlimit.symm ▸ hdepth) (hcancelled hc)
    simp only [launch_on, carrying_on _ _ hstarted, carried_on _ _ hstarted, carry_on hstarted] at hrelay
    exact hrelay
  | next hp => exact .next hp
  | delay hp hdelay => exact .delay hp ((delay?_on h).trans hdelay)
  | turn hp hdelay =>
    rw [← endIteration_on]
    exact .turn hp ((delay?_on h).trans hdelay)
  | leave hp hc => exact .leave hp (hcancelled hc)
  | resume hp hc hnow =>
    have hresume : (r.on y).Drives _ _ _ := .resume hp (hcancelled hc) hnow
    rw [carrying_on _ _ h, carried_on _ _ h, carry_on h] at hresume
    exact hresume
  | quit hp hc => exact .quit hp (hcancelled hc)
  | elapse hp hc hnow =>
    rw [← endIteration_on]
    exact .elapse hp (hcancelled hc) hnow
  | @report outcome hp =>
    have hsummary : (r.on y).summary outcome = r.summary outcome := by
      rw [summary, on_executor, h.executionId]
      rfl
    have hreport : (r.on y).Drives _ _ _ := .report hp
    rw [hsummary, report_eq, hsummary] at hreport
    exact hreport

theorem drive_on (h : r.executor.Fellow y) (hp : r.phase ≠ .parked) :
    (r.on y).drive? = r.drive?.map (·.on (y.replay r.driven)) := by
  cases hs : r.drive? with
  | some r' => exact ((drives_of_drive? hs).on h hp).drive?_eq
  | none =>
    -- What the driver did on the other executor, it would do on this one.
    refine Option.eq_none_iff_forall_ne_some.2 fun q hq => ?_
    have hback := ((drives_of_drive? hq).on h.symm hp).drive?_eq
    rw [on_on, on_self, hs] at hback
    cases hback

/-- **A step is the same on every executor that the run cannot tell apart**, unless the driver waits for a wake-up. -/
theorem step_on (h : r.executor.Fellow y) {s : Signal} (hp : s = .drive → r.phase ≠ .parked) :
    (r.on y).step? s = (r.step? s).map (·.on (y.replay (r.deeds s))) := by
  cases s with
  | drive => exact drive_on h (hp rfl)
  | run node =>
    simp only [step?, runNode?, deeds, on_phase]
    cases r.phase with
    | activating batch =>
      dsimp only
      cases batch.runnable.find? (·.node = node) with
      | none => rfl
      | some task =>
        simp only [runTask, perform_on task.node task.script h, Option.bind_eq_bind, Option.bind_some, Option.pure_def,
          Option.map_some]
        rfl
    | _ => rfl
  | wake node =>
    simp only [step?, wakeNode?, deeds, on_phase]
    cases r.phase with
    | activating batch =>
      dsimp only
      cases batch.asleep.find? (·.task.node = node) with
      | none => rfl
      | some sleeper =>
        rw [on_now]
        simp only [Option.bind_eq_bind, Option.bind_some]
        split_ifs <;> rfl
    | _ => rfl
  | control c => rfl
  | pass ms => rfl

/-- What the driver does to the executor is the same. -/
theorem driven_on (h : r.executor.Fellow y) (hp : r.phase ≠ .parked) : (r.on y).driven = r.driven := by
  cases hs : r.drive? with
  | some r' => exact ((drives_of_drive? hs).on h hp).eq.2.2
  | none =>
    have hs' : (r.on y).drive? = none := by
      rw [drive_on h hp, hs]
      rfl
    rw [driven_of_drive?_eq_none hs, driven_of_drive?_eq_none hs']

/-- The deeds are the same. -/
theorem deeds_on (h : r.executor.Fellow y) {s : Signal} (hp : s = .drive → r.phase ≠ .parked) :
    (r.on y).deeds s = r.deeds s := by
  cases s with
  | drive => exact driven_on h (hp rfl)
  | run node => simp only [deeds, on_phase, on_executor, performed_on _ _ h]
  | _ => rfl

/-- **It publishes the same events.** -/
theorem voices_on (h : r.executor.Fellow y) {s : Signal} (hp : s = .drive → r.phase ≠ .parked) :
    (r.on y).voices s = r.voices s := by
  rw [voices, deeds_on h hp, on_executor, h.state, voices]

end Run

end Dataflow
