import Dataflow.Proofs.Run.Deeds

/-!
# The decisions of the driver

* `Run.Drives` lists what a step of the driver may be: what the driver has found, its acts and its deeds, and the run
  after it;
* `Run.drives_iff`: the driver makes these steps and no others;
* `Run.runNode?_eq_some` and `Run.wakeNode?_eq_some` say how an activation goes on;
* `Run.graph_step` and `Run.executor_step`: the graph and the executor after a step are those before it, after its acts
  and its deeds.

What is true of every step of the driver is proved with one case for each of its decisions.
-/

namespace Dataflow.Run

/-- The inputs of an iteration are cleared, and its outputs are next. -/
def pass (r : Run) (batch : Batch) : Run :=
  { batch.ready.foldl clearInputs r with phase := .propagating ⟨[], batch.ready⟩ }

theorem pass_eq (r : Run) (batch : Batch) : r.pass batch =
    { r with graph := r.graph.replay (batch.ready.map .clear), phase := .propagating ⟨[], batch.ready⟩ } := by
  rw [pass, foldl_clearInputs_eq]

theorem passBarrier_of_nil {batch : Batch} (r : Run) (h : batch.failures = []) : r.passBarrier batch = r.pass batch := by
  simp only [passBarrier, h, List.isEmpty_nil, if_true]
  rfl

theorem passBarrier_of_ne_nil {batch : Batch} (r : Run) (h : batch.failures ≠ []) :
    r.passBarrier batch = r.endWith (.failed ("; ".intercalate batch.failures)) := by
  simp only [passBarrier, List.isEmpty_eq_false_iff.2 h, Bool.false_eq_true, if_false]

/-- What the driver does in a step, and what it has found then. -/
inductive Drives (r : Run) : List Act → List Deed → Run → Prop
  /-- A cancelled run does not begin another iteration. -/
  | desist (hp : r.phase = .boundary) (hc : r.executor.cancelled = true) : Drives r [] [] (r.endWith .cancelled)
  /-- The nodes are scanned. -/
  | begin (hp : r.phase = .boundary) (hc : r.executor.cancelled = false)
      (hstate : r.executor.state = .running ∨ r.executor.state = .stepping) :
      Drives r (preparing (r.iteration + 1) r.context (collectReady r.graph r.graph.nodeList r.firedSources).1 r.graph)
        r.begun r.beginIteration
  /-- A paused run begins to wait. -/
  | park (hp : r.phase = .boundary) (hc : r.executor.cancelled = false) (hstate : r.executor.state = .paused) :
      Drives r [] [] { r with phase := .parked }
  /-- The executor is idle already. -/
  | lose (hp : r.phase = .boundary) (hc : r.executor.cancelled = false) (hstate : r.executor.state = .idle) :
      Drives r [] [] (r.endWith .cancelled)
  /-- A wake-up ends the wait. -/
  | rouse (hp : r.phase = .parked) (hwake : r.executor.wake = true) :
      Drives r [] [.takeWake] { r with executor := { r.executor with wake := false }, phase := .boundary }
  /-- A cancelled run waits no longer. -/
  | look (hp : r.phase = .parked) (hwake : r.executor.wake = false) (hc : r.executor.cancelled = true) :
      Drives r [] [] { r with phase := .boundary }
  /-- A cancelled run gives up its iteration. -/
  | abandon {batch : Batch} (hp : r.phase = .activating batch) (hc : r.executor.cancelled = true) :
      Drives r ((batch.ready.filter fun id => !batch.settled.contains id).map .reset) [] (r.abandon batch)
  /-- An activation that has ended is settled. -/
  | settle {batch : Batch} {f : Finished} {rest : List Finished} (hp : r.phase = .activating batch)
      (hc : r.executor.cancelled = false) (hf : batch.finished = f :: rest) :
      Drives r [.settle f.node f.result]
        ((completed r.graph f.node f.result (r.now - f.startedAt)).map .publish) (r.settle batch f rest)
  /-- All activations are settled, and none has failed. -/
  | pass {batch : Batch} (hp : r.phase = .activating batch) (hc : r.executor.cancelled = false)
      (hf : batch.finished = []) (hrunnable : batch.runnable = []) (hasleep : batch.asleep = [])
      (hfailures : batch.failures = []) : Drives r (batch.ready.map .clear) [] (r.pass batch)
  /-- All activations are settled, and some have failed. -/
  | fail {batch : Batch} (hp : r.phase = .activating batch) (hc : r.executor.cancelled = false)
      (hf : batch.finished = []) (hrunnable : batch.runnable = []) (hasleep : batch.asleep = [])
      (hfailures : batch.failures ≠ []) : Drives r [] [] (r.endWith (.failed ("; ".intercalate batch.failures)))
  /-- The outputs of a node are moved. -/
  | move {id : NodeId} {depth : Nat} {work : List Work} {origins : List NodeId}
      (hp : r.phase = .propagating ⟨.propagate id depth :: work, origins⟩) :
      Drives r (r.graph.moving id)
        (if (r.graph.transferOutputs id).transfers.isEmpty then []
          else [.publish (.dataPropagated id (r.graph.transferOutputs id).transfers)])
        (r.propagateFrom id depth ⟨work, origins⟩)
  /-- A relay that is not ready any more is passed over. -/
  | skip {id : NodeId} {depth : Nat} {work : List Work} {origins : List NodeId}
      (hp : r.phase = .propagating ⟨.activate id depth :: work, origins⟩) (hready : r.graph.isReady id = false) :
      Drives r [] [] { r with phase := .propagating ⟨work, origins⟩ }
  /-- The chain of relays is too long. -/
  | exceed {id : NodeId} {n : Node} {depth : Nat} {work : List Work} {origins : List NodeId}
      (hp : r.phase = .propagating ⟨.activate id depth :: work, origins⟩) (hn : r.graph.node? id = some n)
      (hready : r.graph.isReady id = true) (hdepth : r.executor.config.maxRelayDepth < depth) :
      Drives r [] [] (r.endWith (.failed (r.depthFailure id)))
  /-- A cancelled run does not let a relay begin. -/
  | refuse {id : NodeId} {n : Node} {depth : Nat} {work : List Work} {origins : List NodeId}
      (hp : r.phase = .propagating ⟨.activate id depth :: work, origins⟩) (hn : r.graph.node? id = some n)
      (hready : r.graph.isReady id = true) (hdepth : depth ≤ r.executor.config.maxRelayDepth)
      (hc : r.executor.cancelled = true) :
      Drives r [.reset n.id] [.publish (.nodeStarted n.id n.typeId)]
        (((r.publish (.nodeStarted n.id n.typeId)).modifyNode n.id Node.resetStatus).endWith .cancelled)
  /-- A relay is activated. -/
  | relay {id : NodeId} {n : Node} {depth : Nat} {work : List Work} {origins : List NodeId}
      (hp : r.phase = .propagating ⟨.activate id depth :: work, origins⟩) (hn : r.graph.node? id = some n)
      (hready : r.graph.isReady id = true) (hdepth : depth ≤ r.executor.config.maxRelayDepth)
      (hc : r.executor.cancelled = false) :
      Drives r
        (.prepare (n.activation n.prepare.1 r.iteration r.context) ::
          (r.launch n).2.carrying n.id (r.launch n).1.script)
        (.publish (.nodeStarted n.id n.typeId) :: (r.launch n).2.carried (r.launch n).1 (r.launch n).1.script)
        ((r.launch n).2.carry (r.launch n).1 depth ⟨work, origins⟩)
  /-- The next node of the scan is taken up. -/
  | next {id : NodeId} {origins : List NodeId} (hp : r.phase = .propagating ⟨[], id :: origins⟩) :
      Drives r [] [] { r with phase := .propagating ⟨[.propagate id 0], origins⟩ }
  /-- All outputs are moved, and a pause follows. -/
  | delay {ms : Nat} (hp : r.phase = .propagating ⟨[], []⟩) (hdelay : r.delay? = some ms) :
      Drives r [] [] { r with phase := .delaying (r.now + ms) }
  /-- All outputs are moved, and no pause follows. -/
  | turn (hp : r.phase = .propagating ⟨[], []⟩) (hdelay : r.delay? = none) : Drives r [] r.ended r.endIteration
  /-- A cancelled run gives up a relay that sleeps. -/
  | leave {relay : Sleeper} {depth : Nat} {agenda : Agenda} (hp : r.phase = .relaying relay depth agenda)
      (hc : r.executor.cancelled = true) :
      Drives r [.reset relay.task.node] [] ((r.modifyNode relay.task.node Node.resetStatus).endWith .cancelled)
  /-- A relay goes on after a wait. -/
  | resume {relay : Sleeper} {depth : Nat} {agenda : Agenda} (hp : r.phase = .relaying relay depth agenda)
      (hc : r.executor.cancelled = false) (hnow : relay.wakeAt ≤ r.now) :
      Drives r (r.carrying relay.task.node relay.task.script) (r.carried relay.task relay.task.script)
        (r.carry relay.task depth agenda)
  /-- A cancelled run does not sit out a pause. -/
  | quit {wakeAt : Nat} (hp : r.phase = .delaying wakeAt) (hc : r.executor.cancelled = true) :
      Drives r [] [] (r.endWith .cancelled)
  /-- A pause is over. -/
  | elapse {wakeAt : Nat} (hp : r.phase = .delaying wakeAt) (hc : r.executor.cancelled = false)
      (hnow : wakeAt ≤ r.now) : Drives r [] r.ended r.endIteration
  /-- The outcome is reported. -/
  | report {outcome : Outcome} (hp : r.phase = .ending outcome) :
      Drives r [] [.finish (r.summary outcome)] (r.report outcome)

variable {r r' : Run}

/-! ### The driver makes no other steps -/

theorem atBoundary_drives (hp : r.phase = .boundary) : r.Drives r.driving r.driven r.atBoundary := by
  unfold driving driven atBoundary
  rw [hp]
  cases hc : r.executor.cancelled with
  | true => exact .desist hp hc
  | false =>
    cases hstate : r.executor.state with
    | running => exact .begin hp hc (Or.inl hstate)
    | stepping => exact .begin hp hc (Or.inr hstate)
    | paused => exact .park hp hc hstate
    | idle => exact .lose hp hc hstate

theorem whileParked_drives (hp : r.phase = .parked) (h : r.whileParked? = some r') :
    r.Drives r.driving r.driven r' := by
  unfold whileParked? at h
  unfold driving driven
  rw [hp]
  dsimp only
  split_ifs at h ⊢ with hwake hc <;> cases h
  · exact .rouse hp hwake
  · exact .look hp (by simpa using hwake) hc

theorem whileActivating_drives {batch : Batch} (hp : r.phase = .activating batch)
    (h : r.whileActivating? batch = some r') : r.Drives r.driving r.driven r' := by
  unfold whileActivating? at h
  unfold driving driven
  rw [hp]
  dsimp only
  cases hc : r.executor.cancelled with
  | true =>
    rw [hc] at h
    cases h
    exact .abandon hp hc
  | false =>
    rw [hc] at h
    cases hf : batch.finished with
    | cons f rest =>
      rw [hf] at h
      cases h
      exact .settle hp hc hf
    | nil =>
      simp only [hf, Bool.false_eq_true, if_false] at h ⊢
      split_ifs at h with hdone
      cases h
      obtain ⟨hrunnable, hasleep⟩ : batch.runnable = [] ∧ batch.asleep = [] := by simpa using hdone
      by_cases hfailures : batch.failures = []
      · rw [passBarrier_of_nil r hfailures]
        simp only [hrunnable, hasleep, hfailures, List.isEmpty_nil, Bool.and_self, if_true]
        exact .pass hp hc hf hrunnable hasleep hfailures
      · rw [passBarrier_of_ne_nil r hfailures]
        simp only [List.isEmpty_eq_false_iff.2 hfailures, Bool.and_false, Bool.false_eq_true, if_false]
        exact .fail hp hc hf hrunnable hasleep hfailures

/-- A relay that gets to its turn is activated if it is ready, if the chain is not too long, and if the run is not
cancelled. -/
theorem reachRelay_drives {id : NodeId} {depth : Nat} {work : List Work} {origins : List NodeId}
    (hp : r.phase = .propagating ⟨.activate id depth :: work, origins⟩) :
    r.Drives r.driving r.driven (r.reachRelay id depth ⟨work, origins⟩) := by
  unfold driving driven reachRelay
  simp only [hp]
  cases hn : r.graph.node? id with
  | none => exact .skip hp (by simp only [Graph.isReady, hn])
  | some n =>
    dsimp only
    cases hready : r.graph.isReady id with
    | false => exact .skip hp hready
    | true =>
      by_cases hdepth : r.executor.config.maxRelayDepth < depth
      · simp only [hdepth, Nat.not_le.2 hdepth, Bool.not_true, Bool.false_eq_true, if_false, if_true, decide_false,
          Bool.and_false]
        exact .exceed hp hn hready hdepth
      · have hdepth' := Nat.not_lt.1 hdepth
        simp only [hdepth, hdepth', Bool.not_true, Bool.false_eq_true, if_false, if_true, decide_true, Bool.and_true]
        cases hc : r.executor.cancelled with
        | true =>
          rw [activateRelay_of_cancelled hc, relaying_of_cancelled hc, relayed_of_cancelled hc]
          exact .refuse hp hn hready hdepth' hc
        | false =>
          rw [activateRelay_of_not_cancelled hc, relaying_of_not_cancelled hc, relayed_of_not_cancelled hc]
          exact .relay hp hn hready hdepth' hc

theorem propagateNext_drives {agenda : Agenda} (hp : r.phase = .propagating agenda) :
    r.Drives r.driving r.driven (r.propagateNext agenda) := by
  obtain ⟨work, origins⟩ := agenda
  rcases work with _ | ⟨_ | _, work⟩
  · unfold driving driven
    simp only [hp, propagateNext]
    cases origins with
    | cons id origins => exact .next hp
    | nil =>
      unfold beginDelay
      cases hdelay : r.delay? with
      | some ms => exact .delay hp hdelay
      | none => exact .turn hp hdelay
  · unfold driving driven
    simp only [hp]
    exact .move hp
  · exact reachRelay_drives hp

theorem whileRelaying_drives {relay : Sleeper} {depth : Nat} {agenda : Agenda} (hp : r.phase = .relaying relay depth agenda)
    (h : r.whileRelaying? relay depth agenda = some r') : r.Drives r.driving r.driven r' := by
  unfold whileRelaying? at h
  unfold driving driven
  rw [hp]
  dsimp only
  split_ifs at h ⊢ with hc hnow <;> cases h
  · exact .leave hp hc
  · exact .resume hp (by simpa using hc) hnow

theorem whileDelaying_drives {wakeAt : Nat} (hp : r.phase = .delaying wakeAt) (h : r.whileDelaying? wakeAt = some r') :
    r.Drives r.driving r.driven r' := by
  unfold whileDelaying? at h
  unfold driving driven
  rw [hp]
  dsimp only
  split_ifs at h ⊢ with hc hnow <;> cases h
  · exact .quit hp hc
  · exact .elapse hp (by simpa using hc) hnow

theorem drives_of_drive? (h : r.drive? = some r') : r.Drives r.driving r.driven r' := by
  unfold drive? at h
  cases hp : r.phase with
  | boundary =>
    rw [hp] at h
    cases h
    exact atBoundary_drives hp
  | parked =>
    rw [hp] at h
    exact whileParked_drives hp h
  | activating batch =>
    rw [hp] at h
    exact whileActivating_drives hp h
  | propagating agenda =>
    rw [hp] at h
    cases h
    exact propagateNext_drives hp
  | relaying relay depth agenda =>
    rw [hp] at h
    exact whileRelaying_drives hp h
  | delaying wakeAt =>
    rw [hp] at h
    exact whileDelaying_drives hp h
  | ending outcome =>
    rw [hp] at h
    cases h
    unfold driving driven
    rw [hp]
    exact .report hp
  | _ =>
    rw [hp] at h
    cases h

/-! ### The driver makes all of these steps -/

theorem Drives.eq {acts : List Act} {deeds : List Deed} (h : r.Drives acts deeds r') :
    r.drive? = some r' ∧ r.driving = acts ∧ r.driven = deeds := by
  cases h with
  | desist hp hc => simp only [drive?, driving, driven, hp, atBoundary, hc, if_true, and_self]
  | begin hp hc hstate =>
    rcases hstate with hstate | hstate <;>
      simp only [drive?, driving, driven, hp, atBoundary, hc, hstate, Bool.false_eq_true, if_false, and_self]
  | park hp hc hstate | lose hp hc hstate =>
    simp only [drive?, driving, driven, hp, atBoundary, hc, hstate, Bool.false_eq_true, if_false, and_self]
  | rouse hp hwake => simp only [drive?, driving, driven, hp, whileParked?, hwake, if_true, and_self]
  | look hp hwake hc =>
    simp only [drive?, driving, driven, hp, whileParked?, hwake, hc, Bool.false_eq_true, if_false, if_true, and_self]
  | abandon hp hc => simp only [drive?, driving, driven, hp, whileActivating?, hc, if_true, and_self]
  | settle hp hc hf =>
    simp only [drive?, driving, driven, hp, whileActivating?, hc, hf, Bool.false_eq_true, if_false, and_self]
  | pass hp hc hf hrunnable hasleep hfailures =>
    simp [drive?, driving, driven, hp, whileActivating?, hc, hf, hrunnable, hasleep, hfailures, passBarrier_of_nil]
  | fail hp hc hf hrunnable hasleep hfailures =>
    simp [drive?, driving, driven, hp, whileActivating?, hc, hf, hrunnable, hasleep, hfailures, passBarrier_of_ne_nil]
  | move hp => simp only [drive?, driving, driven, hp, propagateNext, and_self]
  | @skip id _ _ _ hp hready =>
    simp only [drive?, driving, driven, hp, propagateNext, reachRelay, hready, Bool.not_false, Bool.false_and,
      Bool.false_eq_true, if_true, if_false]
    cases r.graph.node? id <;> exact ⟨rfl, rfl, rfl⟩
  | exceed hp hn hready hdepth =>
    simp only [drive?, driving, driven, hp, propagateNext, reachRelay, hn, hready, hdepth, Nat.not_le.2 hdepth,
      Bool.not_true, Bool.and_false, Bool.false_eq_true, decide_false, if_true, if_false, and_self]
  | refuse hp hn hready hdepth hc =>
    simp only [drive?, driving, driven, hp, propagateNext, reachRelay, hn, hready, hdepth, Nat.not_lt.2 hdepth,
      Bool.not_true, Bool.and_self, Bool.false_eq_true, decide_true, if_true, if_false, activateRelay_of_cancelled hc,
      relaying_of_cancelled hc, relayed_of_cancelled hc, and_self]
  | relay hp hn hready hdepth hc =>
    simp only [drive?, driving, driven, hp, propagateNext, reachRelay, hn, hready, hdepth, Nat.not_lt.2 hdepth,
      Bool.not_true, Bool.and_self, Bool.false_eq_true, decide_true, if_true, if_false, activateRelay_of_not_cancelled hc,
      relaying_of_not_cancelled hc, relayed_of_not_cancelled hc, and_self]
  | next hp => exact ⟨by simp only [drive?, hp, propagateNext], by simp only [driving, hp], by simp [driven, hp]⟩
  | delay hp hdelay => simp [drive?, driving, driven, hp, propagateNext, beginDelay, hdelay]
  | turn hp hdelay => simp [drive?, driving, driven, hp, propagateNext, beginDelay, hdelay]
  | leave hp hc => simp only [drive?, driving, driven, hp, whileRelaying?, hc, if_true, and_self]
  | resume hp hc hnow =>
    simp only [drive?, driving, driven, hp, whileRelaying?, hc, hnow, Bool.false_eq_true, if_false, if_true, carry, and_self]
  | quit hp hc => simp only [drive?, driving, driven, hp, whileDelaying?, hc, if_true, and_self]
  | elapse hp hc hnow =>
    simp only [drive?, driving, driven, hp, whileDelaying?, hc, hnow, Bool.false_eq_true, if_false, if_true, and_self]
  | report hp => simp only [drive?, driving, driven, hp, and_self]

theorem Drives.drive?_eq {acts : List Act} {deeds : List Deed} (h : r.Drives acts deeds r') : r.drive? = some r' :=
  h.eq.1

/-- **The decisions of the driver are its steps, with their acts and their deeds.** -/
theorem drives_iff {acts : List Act} {deeds : List Deed} :
    r.Drives acts deeds r' ↔ r.drive? = some r' ∧ r.driving = acts ∧ r.driven = deeds :=
  ⟨Drives.eq, fun ⟨h, hacts, hdeeds⟩ => hacts ▸ hdeeds ▸ drives_of_drive? h⟩

/-- A driver that waits leaves the executor alone. -/
theorem driven_of_drive?_eq_none (h : r.drive? = none) : r.driven = [] := by
  unfold drive? at h
  unfold driven
  cases hp : r.phase with
  | boundary | propagating | ending => simp only [hp, reduceCtorEq] at h
  | parked =>
    simp only [hp, whileParked?] at h
    split_ifs at h with hwake
    exact if_neg hwake
  | activating batch =>
    cases hf : batch.finished with
    | nil => simp only [hf, ite_self]
    | cons f rest =>
      simp only [hp, whileActivating?, hf] at h
      split_ifs at h
  | relaying relay depth agenda =>
    simp only [hp, whileRelaying?] at h
    split_ifs at h with hc hnow
    simp only [hc, hnow, Bool.false_eq_true, if_false]
  | delaying wakeAt =>
    simp only [hp, whileDelaying?] at h
    split_ifs at h with hc hnow
    simp only [hc, hnow, Bool.false_eq_true, if_false]
  | _ => rfl

/-- A deed of the driver belongs to a step of it. -/
theorem drives_of_mem_driven {d : Deed} (h : d ∈ r.driven) : ∃ r', r.Drives r.driving r.driven r' := by
  cases hs : r.drive? with
  | none =>
    rw [driven_of_drive?_eq_none hs] at h
    exact absurd h List.not_mem_nil
  | some r' => exact ⟨r', drives_of_drive? hs⟩

theorem atBoundary_of_running (hc : r.executor.cancelled = false) (hs : r.executor.state = .running) :
    r.atBoundary = r.beginIteration := by
  unfold atBoundary
  rw [hc, hs]
  rfl

/-! ### The graph and the executor after a step -/

variable {acts : List Act} {deeds : List Deed}

theorem Drives.graph (h : r.Drives acts deeds r') (hg : r.graph.Named) : r'.graph = r.graph.replay acts := by
  cases h with
  | begin => exact beginIteration_graph hg
  | abandon => rw [abandon_eq]
  | settle => exact complete_graph ..
  | pass => rw [pass_eq]
  | move => exact propagateFrom_graph ..
  | relay _ hn =>
    obtain rfl := hg _ _ hn
    rw [carry_graph, launch_graph hn]
    rfl
  | resume => exact carry_graph ..
  | _ => rfl

theorem Drives.executor (h : r.Drives acts deeds r') : r'.executor = r.executor.replay deeds := by
  cases h with
  | begin => exact beginIteration_executor r
  | abandon => rw [abandon_eq]; rfl
  | settle => exact complete_executor ..
  | pass => rw [pass_eq]; rfl
  | move => exact propagateFrom_executor ..
  | relay => exact carry_executor ..
  | turn | elapse => exact endIteration_executor r
  | resume => exact carry_executor ..
  | _ => rfl

/-- An activation goes on only in its iteration, and if it has something to do. -/
theorem runNode?_eq_some {r r' : Run} {node : NodeId} : r.runNode? node = some r' ↔
    ∃ batch task, r.phase = .activating batch ∧ batch.runnable.find? (·.node = node) = some task ∧
      r' = r.runTask batch task (batch.runnable.filter (·.node ≠ node)) := by
  constructor
  · intro h
    unfold runNode? at h
    cases hp : r.phase with
    | activating batch =>
      simp only [hp] at h
      obtain ⟨task, htask, hr⟩ := Option.bind_eq_some_iff.1 h
      exact ⟨batch, task, rfl, htask, (Option.some.inj hr).symm⟩
    | _ => simp only [hp, reduceCtorEq] at h
  · rintro ⟨batch, task, hp, htask, rfl⟩
    simp [runNode?, hp, htask]

/-- An activation wakes up only in its iteration, and if it is time. -/
theorem wakeNode?_eq_some {r r' : Run} {node : NodeId} : r.wakeNode? node = some r' ↔
    ∃ batch sleeper, r.phase = .activating batch ∧ batch.asleep.find? (·.task.node = node) = some sleeper ∧
      sleeper.wakeAt ≤ r.now ∧ r' = { r with
        phase := .activating
          { batch with
            runnable := batch.runnable ++ [sleeper.task]
            asleep := batch.asleep.filter (·.task.node ≠ node) } } := by
  constructor
  · intro h
    unfold wakeNode? at h
    cases hp : r.phase with
    | activating batch =>
      simp only [hp] at h
      obtain ⟨sleeper, hsleeper, hr⟩ := Option.bind_eq_some_iff.1 h
      split_ifs at hr with hnow
      exact ⟨batch, sleeper, rfl, hsleeper, hnow, (Option.some.inj hr).symm⟩
    | _ => simp only [hp, reduceCtorEq] at h
  · rintro ⟨batch, sleeper, hp, hsleeper, hnow, rfl⟩
    simp [wakeNode?, hp, hsleeper, hnow]

/-- **The graph after a step is the graph before it, after the acts of the step.** -/
theorem graph_step {r r' : Run} {s : Signal} (hg : r.graph.Named) (h : r.step? s = some r') :
    r'.graph = r.graph.replay (r.acts s) := by
  cases s with
  | drive => exact (drives_of_drive? h).graph hg
  | run node =>
    obtain ⟨batch, task, hp, htask, rfl⟩ := runNode?_eq_some.1 h
    simp only [acts, hp, htask]
    exact perform_graph ..
  | wake node =>
    obtain ⟨batch, sleeper, -, -, -, rfl⟩ := wakeNode?_eq_some.1 h
    rfl
  | control call => cases h; rfl
  | pass ms => cases h; rfl

/-- **The executor after a step is the executor before it, after the deeds of the step.** -/
theorem executor_step {r r' : Run} {s : Signal} (h : r.step? s = some r') :
    r'.executor = r.executor.replay (r.deeds s) := by
  cases s with
  | drive => exact (drives_of_drive? h).executor
  | run node =>
    obtain ⟨batch, task, hp, htask, rfl⟩ := runNode?_eq_some.1 h
    simp only [deeds, hp, htask]
    exact perform_executor ..
  | wake node =>
    obtain ⟨batch, sleeper, -, -, -, rfl⟩ := wakeNode?_eq_some.1 h
    rfl
  | control c => cases h; rfl
  | pass ms => cases h; rfl

end Dataflow.Run
