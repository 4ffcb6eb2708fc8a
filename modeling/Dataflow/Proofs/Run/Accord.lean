import Dataflow.Proofs.Run.Barrier
import Dataflow.Proofs.Run.Rousing

/-!
# Relays and scanned nodes

A node is activated in one of two ways: in an iteration, side by side with others, or as a relay, by the driver itself. Both
do the same with it, but for two exceptions. A relay that breaks down takes the driver with it, whereas an iteration notes
the breakdown as a failure. And a relay whose own call cancels the run may still come to its end, whereas an iteration gives
the activation up.

* `Run.into` is a run in another phase, which makes no difference to an activation;
* `Run.scanned` is the run in which a node is activated by itself in an iteration, and `Run.beginIteration_eq_scanned` says
  that an iteration begins so when no other node is ready;
* `Phase.Accord` compares what the driver is about to do in the two cases, and `Run.Accords` the runs as a whole;
* `Run.catchesUp_stretch`: the activation goes on up to its next wait or its end, in both runs;
* `Run.relay_accords`: the relay is activated as the scanned node is, with the two exceptions.
-/

namespace Dataflow

/-- Whether a relay still waits, or was given up. -/
def Phase.isYielding : Phase → Bool
  | .relaying .. | .ending .cancelled => true
  | _ => false

/-- Whether a signal comes from outside: a call, or the passing of time. -/
def Run.Signal.isOutside : Run.Signal → Bool
  | .control _ | .pass _ => true
  | .drive | .run _ | .wake _ => false

/-- The signals that come from outside. -/
def Run.Signal.outside (signals : List Run.Signal) : List Run.Signal :=
  signals.filter isOutside

/-- An iteration in which a single node takes part. -/
def Batch.alone (id : NodeId) : Batch :=
  { ready := [id], runnable := [], asleep := [], finished := [], settled := [], failures := [] }

/-- What the driver is about to do after a relay went as far as a scanned node. `index` is the place of the latter in the
scan, `depth` and `agenda` belong to the relay. -/
inductive Phase.Accord (id : NodeId) (index depth : Nat) (agenda : Agenda) : Phase → Phase → Prop
  /-- Both wait for the same instant, with the same left to do. -/
  | waiting (wakeAt startedAt index' : Nat) (script : Script) : Accord id index depth agenda
      (.relaying ⟨wakeAt, ⟨id, index', startedAt, script⟩⟩ depth agenda)
      (.activating { Batch.alone id with asleep := [⟨wakeAt, ⟨id, index, startedAt, script⟩⟩] })
  /-- Both have succeeded, and the outputs are next. -/
  | moving : Accord id index depth agenda (.propagating { agenda with work := .propagate id depth :: agenda.work })
      (.propagating ⟨[.propagate id 0], []⟩)
  /-- Both runs end in the same way. -/
  | ending (outcome : Outcome) : Accord id index depth agenda (.ending outcome) (.ending outcome)

namespace Deed

/-- A quiet deed does not lead to idle. -/
theorem after_ne_idle {s : ExecutionState} {d : Deed} (hd : d.isQuiet = true) (hs : s ≠ .idle) : d.after s ≠ .idle := by
  cases d with
  | publish | takeWake => exact hs
  | call c => cases c <;> cases s <;> first | exact absurd rfl hs | decide
  | endStep | finish => cases hd

theorem Quiet.afterAll_ne_idle {s : ExecutionState} {deeds : List Deed} (h : Quiet deeds) (hs : s ≠ .idle) :
    afterAll s deeds ≠ .idle := by
  induction deeds generalizing s with
  | nil => exact hs
  | cons d rest ih =>
    obtain ⟨hd, hrest⟩ := quiet_cons.1 h
    exact ih hrest (after_ne_idle hd hs)

end Deed

namespace Run

/-! ### The phase of a run makes no difference to an activation -/

/-- A run in another phase. -/
def into (r : Run) (p : Phase) : Run :=
  { r with phase := p }

section Fields

variable (r : Run) (p : Phase)

@[simp] theorem into_phase : (r.into p).phase = p := rfl

@[simp] theorem into_executor : (r.into p).executor = r.executor := rfl

@[simp] theorem into_graph : (r.into p).graph = r.graph := rfl

@[simp] theorem into_now : (r.into p).now = r.now := rfl

end Fields

theorem perform_into (node : NodeId) (script : Script) (r : Run) (p : Phase) :
    perform node script (r.into p) = ((perform node script r).1, (perform node script r).2.into p) := by
  induction script generalizing r with
  | finish | panic => rfl
  | sleep =>
    rw [perform_sleep, perform_sleep]
    rfl
  | emit event rest ih => exact ih (r.publish (.nodeEvent node event))
  | control c rest ih => exact ih _ _ { r with executor := (r.executor.call c).2 }
  | log entry rest ih => exact ih { r with log := r.log ++ [entry] }
  | remember memory rest ih => exact ih (r.modifyNode node fun n => { n with memory })

theorem complete_into (r : Run) (p : Phase) (id : NodeId) (startedAt : Nat) (result : Except NodeError Output) :
    (r.into p).complete id startedAt result =
      ((r.complete id startedAt result).1, (r.complete id startedAt result).2.into p) := by
  unfold complete
  rw [into_graph]
  cases r.graph.node? id with
  | none => rfl
  | some n =>
    dsimp only
    cases (n.complete result r.graph.supply).1 <;> rfl

/-- The end of an activation does not cancel the run. -/
theorem complete_cancelled (r : Run) (id : NodeId) (startedAt : Nat) (result : Except NodeError Output) :
    (r.complete id startedAt result).2.executor.cancelled = r.executor.cancelled := by
  rw [complete_executor, Executor.replay_publish]

/-! ### The end of an activation -/

/-- Note how an activation went; if it succeeded, its inputs are cleared, and `next` is what comes then. -/
def conclude (r : Run) (id : NodeId) (startedAt : Nat) (result : Except NodeError Output) (next : Phase) : Run :=
  match r.complete id startedAt result with
  | (.error e, r) => r.endWith (.failed (r.failureLine id e.message))
  | (.ok (), r) => (r.clearInputs id).into next

theorem conclude_into (r : Run) (p : Phase) (id : NodeId) (startedAt : Nat) (result : Except NodeError Output)
    (next : Phase) : (r.into p).conclude id startedAt result next = r.conclude id startedAt result next := by
  unfold conclude
  rw [complete_into]
  rcases r.complete id startedAt result with ⟨_ | _, r'⟩ <;> rfl

/-- A failure is noted, and the run fails with its line. -/
theorem conclude_error {r : Run} {id : NodeId} (hnode : (r.graph.node? id).isSome) (startedAt : Nat) (e : NodeError)
    (next : Phase) : r.conclude id startedAt (.error e) next =
      (r.complete id startedAt (.error e)).2.endWith
        (.failed ((r.complete id startedAt (.error e)).2.failureLine id e.message)) := by
  have hanswer : (r.complete id startedAt (.error e)).1 = .error e := by
    obtain ⟨n, hn⟩ := Option.isSome_iff_exists.1 hnode
    rw [complete_fst, Graph.completion, hn]
    rfl
  unfold conclude
  rcases hcomplete : r.complete id startedAt (.error e) with ⟨answer, q⟩
  rw [hcomplete] at hanswer
  cases hanswer
  rfl

/-- The only activation of an iteration can go on. -/
def running (r : Run) (task : Task) : Run :=
  r.into (.activating { Batch.alone task.node with runnable := [task] })

/-- The only activation of an iteration waits for an instant. -/
def sleeping (r : Run) (sleeper : Sleeper) : Run :=
  r.into (.activating { Batch.alone sleeper.task.node with asleep := [sleeper] })

/-- The only activation of an iteration has ended. -/
def stopped (r : Run) (f : Finished) : Run :=
  r.into (.activating { Batch.alone f.node with finished := [f] })

/-- What has come of a relay and of a scanned node. -/
inductive Accords (id : NodeId) (index depth : Nat) (agenda : Agenda) : Run → Run → Prop
  /-- The runs differ only in the work that their drivers have left. -/
  | same {R : Run} {p : Phase} (hp : Phase.Accord id index depth agenda R.phase p)
      (hheeds : R.executor.cancelled = true → R.phase.isYielding = true)
      (hline : ∀ error, R.phase = .ending (.failed error) → ∃ message, error = R.failureLine id message)
      (hnode : R.phase.isRelaying = true → (R.graph.node? id).isSome) : Accords id index depth agenda R (R.into p)
  /-- The relay has cancelled the run and come to its end all the same; the scanned node was given up. -/
  | overrun {R S : Run} (hc : R.executor.cancelled = true) (hR : R.phase.isYielding = false)
      (hS : S.phase = .ending .cancelled) : Accords id index depth agenda R S
  /-- The relay has broken down; for the scanned node, this is a failure. -/
  | broken {R : Run} {message : String} (hR : R.phase = .broken message) (hc : R.executor.cancelled = false)
      (hnode : (R.graph.node? id).isSome) (startedAt : Nat) (next : Phase) :
      Accords id index depth agenda R (R.conclude id startedAt (.error (panicError index message)) next)

/-- With some signals from outside, a scanned node gets as far as a relay. -/
def CatchesUp (id : NodeId) (index depth : Nat) (agenda : Agenda) (S : Run) (outside : List Signal) (R : Run) : Prop :=
  ∃ signals S', S.follow signals = some S' ∧ Signal.outside signals = outside ∧ Accords id index depth agenda R S'

variable {r : Run} {id : NodeId} {index depth : Nat} {agenda : Agenda}

theorem Accords.catchesUp {R S : Run} (h : Accords id index depth agenda R S) :
    CatchesUp id index depth agenda S [] R :=
  ⟨[], S, rfl, rfl, h⟩

/-- A step that does not come from outside goes before. -/
theorem CatchesUp.cons {R S S₁ : Run} {outside : List Signal} {s : Signal}
    (h : CatchesUp id index depth agenda S₁ outside R) (hs : S.step? s = some S₁) (hinside : s.isOutside = false) :
    CatchesUp id index depth agenda S outside R := by
  obtain ⟨signals, S', hfollow, hout, haccords⟩ := h
  refine ⟨s :: signals, S', ?_, ?_, haccords⟩
  · rw [follow, hs, Option.bind_some, hfollow]
  · rw [← hout, Signal.outside, List.filter_cons_of_neg (by simp [hinside])]
    rfl

/-- The end of an activation is the same for both, but for what comes next. -/
theorem accords_conclude (hc : r.executor.cancelled = false) (startedAt : Nat) (result : Except NodeError Output) :
    Accords id index depth agenda
      (r.conclude id startedAt result (.propagating { agenda with work := .propagate id depth :: agenda.work }))
      (r.conclude id startedAt result (.propagating ⟨[.propagate id 0], []⟩)) := by
  have hcancelled := (r.complete_cancelled id startedAt result).trans hc
  unfold conclude
  rcases hcomplete : r.complete id startedAt result with ⟨_ | _, r'⟩ <;> rw [hcomplete] at hcancelled
  case error e =>
    refine .same (R := r'.endWith (.failed (r'.failureLine id e.message))) (.ending _) (fun h => ?_) (fun error h => ?_)
      fun h => by cases h
    · rw [show (r'.endWith _).executor.cancelled = false from hcancelled] at h
      cases h
    · cases h
      exact ⟨_, rfl⟩
  case ok =>
    refine .same (R := (r'.clearInputs id).into _) .moving (fun h => ?_) (fun error h => by cases h) fun h => by cases h
    rw [show ((r'.clearInputs id).into _).executor.cancelled = false from hcancelled] at h
    cases h

/-! ### The scanned node, step by step -/

/-- An activation goes on up to its next wait or its end. -/
theorem step_running (r : Run) (task : Task) : (r.running task).step? (.run task.node) =
    some (match perform task.node task.script r with
      | (.finished result, q) => q.stopped ⟨task.node, task.startedAt, result⟩
      | (.panicked message, q) => q.stopped ⟨task.node, task.startedAt, .error (panicError task.index message)⟩
      | (.asleep ms rest, q) => q.sleeping ⟨q.now + ms, { task with script := rest }⟩) := by
  have hstep : (r.running task).step? (.run task.node) =
      some ((r.running task).runTask { Batch.alone task.node with runnable := [task] } task []) := by
    simp [step?, runNode?, running]
  rw [hstep, runTask, running, perform_into]
  rcases perform task.node task.script r with ⟨_ | _ | _, q⟩ <;> rfl

/-- An activation whose instant has come can go on. -/
theorem step_sleeping {sleeper : Sleeper} (hdue : sleeper.wakeAt ≤ r.now) :
    (r.sleeping sleeper).step? (.wake sleeper.task.node) = some (r.running sleeper.task) := by
  simp [step?, wakeNode?, sleeping, running, hdue, Batch.alone]
  rfl

/-- An activation that has ended is settled. -/
theorem step_stopped (hc : r.executor.cancelled = false) (f : Finished) : (r.stopped f).step? .drive =
    some (match r.complete f.node f.startedAt f.result with
      | (.ok (), q) => q.into (.activating { Batch.alone f.node with settled := [f.node] })
      | (.error e, q) => q.into (.activating
          { Batch.alone f.node with settled := [f.node], failures := [q.failureLine f.node e.message] })) := by
  have hstep : (r.stopped f).step? .drive =
      some ((r.stopped f).settle { Batch.alone f.node with finished := [f] } f []) := by
    simp [step?, drive?, whileActivating?, stopped, hc]
  rw [hstep, settle, stopped, complete_into]
  rcases r.complete f.node f.startedAt f.result with ⟨_ | _, q⟩ <;> rfl

/-- When all activations are settled, the driver passes the barrier. -/
theorem step_settled (hc : r.executor.cancelled = false) (id : NodeId) (failures : List String) :
    (r.into (.activating { Batch.alone id with settled := [id], failures })).step? .drive =
      some (if failures.isEmpty then (r.clearInputs id).into (.propagating ⟨[], [id]⟩)
        else r.endWith (.failed ("; ".intercalate failures))) := by
  have hstep : (r.into (.activating { Batch.alone id with settled := [id], failures })).step? .drive =
      some ((r.into (.activating { Batch.alone id with settled := [id], failures })).passBarrier
        { Batch.alone id with settled := [id], failures }) := by
    simp [step?, drive?, whileActivating?, Batch.alone, hc]
  rw [hstep, passBarrier]
  cases failures <;> rfl

/-- A cancelled run gives up an activation that is not settled. -/
theorem step_recalled (hc : r.executor.cancelled = true) {batch : Batch} (hready : batch.ready = [id])
    (hsettled : batch.settled = []) : (r.into (.activating batch)).step? .drive =
      some ((r.modifyNode id Node.resetStatus).endWith .cancelled) := by
  have hstep : (r.into (.activating batch)).step? .drive = some ((r.into (.activating batch)).abandon batch) := if_pos hc
  rw [hstep, abandon, hready, hsettled]
  rfl

/-! ### Both at once -/

/-- An activation that has ended is settled, the barrier is passed, and then the outputs are next. -/
theorem catchesUp_stopped {R : Run} {f : Finished} (hc : r.executor.cancelled = false)
    (h : Accords id index depth agenda R
      (r.conclude f.node f.startedAt f.result (.propagating ⟨[.propagate f.node 0], []⟩))) :
    CatchesUp id index depth agenda (r.stopped f) [] R := by
  have hcancelled := (r.complete_cancelled f.node f.startedAt f.result).trans hc
  have hsettle := step_stopped hc f
  unfold conclude at h
  rcases hcomplete : r.complete f.node f.startedAt f.result with ⟨_ | _, q⟩ <;>
    rw [hcomplete] at hcancelled hsettle h
  · exact (h.catchesUp.cons (step_settled hcancelled _ _) rfl).cons hsettle rfl
  · have hnext : ((q.clearInputs f.node).into (.propagating ⟨[], [f.node]⟩)).step? .drive =
        some ((q.clearInputs f.node).into (.propagating ⟨[.propagate f.node 0], []⟩)) := rfl
    exact ((h.catchesUp.cons hnext rfl).cons (step_settled hcancelled _ []) rfl).cons hsettle rfl

/-- An activation that has ended only when the run was cancelled is given up. -/
theorem catchesUp_recalled {R : Run} {f : Finished} (hc : r.executor.cancelled = true)
    (hR : R.executor.cancelled = true) (hyielding : R.phase.isYielding = false) :
    CatchesUp id index depth agenda (r.stopped f) [] R :=
  (Accords.overrun hR hyielding rfl).catchesUp.cons (step_recalled hc rfl rfl) rfl

/-- Once its activation has ended, a scanned node comes as far as the relay. -/
theorem catchesUp_finished (r : Run) (startedAt : Nat) (result : Except NodeError Output) :
    CatchesUp id index depth agenda (r.stopped ⟨id, startedAt, result⟩) []
      (r.conclude id startedAt result (.propagating { agenda with work := .propagate id depth :: agenda.work })) := by
  cases hc : r.executor.cancelled with
  | false => exact catchesUp_stopped hc (accords_conclude hc startedAt result)
  | true =>
    have hcancelled := (r.complete_cancelled id startedAt result).trans hc
    unfold conclude
    rcases hcomplete : r.complete id startedAt result with ⟨_ | _, q⟩ <;> rw [hcomplete] at hcancelled
    · exact catchesUp_recalled hc hcancelled rfl
    · exact catchesUp_recalled hc hcancelled rfl

/-- Once its activation has broken down, a scanned node has failed. -/
theorem catchesUp_panicked (hnode : (r.graph.node? id).isSome) (startedAt : Nat) (message : String) :
    CatchesUp id index depth agenda (r.stopped ⟨id, startedAt, .error (panicError index message)⟩) []
      (r.into (.broken message)) := by
  cases hc : r.executor.cancelled with
  | false =>
    refine catchesUp_stopped hc ?_
    rw [← conclude_into r (.broken message)]
    exact .broken (R := r.into (.broken message)) rfl hc hnode startedAt _
  | true => exact catchesUp_recalled hc hc rfl

/-- While the relay waits, so does the scanned node. -/
theorem accords_asleep {R : Run} {wakeAt startedAt index' : Nat} {script : Script}
    (hp : R.phase = .relaying ⟨wakeAt, ⟨id, index', startedAt, script⟩⟩ depth agenda)
    (hnode : (R.graph.node? id).isSome) :
    Accords id index depth agenda R (R.sleeping ⟨wakeAt, ⟨id, index, startedAt, script⟩⟩) := by
  refine .same ?_ (fun _ => ?_) (fun error h => ?_) fun _ => hnode
  · rw [hp]
    exact .waiting ..
  · rw [hp]
    rfl
  · rw [hp] at h
    cases h

/-- **Both activations go on up to the next wait or the end.** -/
theorem catchesUp_stretch (hnode : (r.graph.node? id).isSome) (startedAt index' : Nat) (script : Script) :
    CatchesUp id index depth agenda (r.running ⟨id, index, startedAt, script⟩) []
      (afterRelay ⟨id, index', startedAt, script⟩ depth agenda (perform id script r).1 (perform id script r).2) := by
  have hrun := r.step_running ⟨id, index, startedAt, script⟩
  have hnode' : ((perform id script r).2.graph.node? id).isSome := by
    rw [perform_graph]
    exact Graph.isSome_node?_replay _ hnode
  rcases hperform : perform id script r with ⟨stop, q⟩
  rw [hperform] at hrun hnode'
  cases stop with
  | finished result => exact (q.catchesUp_finished startedAt result).cons hrun rfl
  | panicked message => exact (catchesUp_panicked hnode' startedAt message).cons hrun rfl
  | asleep ms rest =>
    have haccords : Accords id index depth agenda
        (q.into (.relaying ⟨q.now + ms, ⟨id, index', startedAt, rest⟩⟩ depth agenda))
        (q.sleeping ⟨q.now + ms, ⟨id, index, startedAt, rest⟩⟩) := accords_asleep rfl hnode'
    exact haccords.catchesUp.cons hrun rfl

/-- While the relay waits, so does the scanned node; whatever happens to the one happens to the other. -/
theorem catchesUp_wait {R R' : Run} {wakeAt startedAt index' : Nat} {script : Script} {s : Signal}
    (hp : R.phase = .relaying ⟨wakeAt, ⟨id, index', startedAt, script⟩⟩ depth agenda)
    (hnode : (R.graph.node? id).isSome) (hs : R.step? s = some R') :
    CatchesUp id index depth agenda (R.sleeping ⟨wakeAt, ⟨id, index, startedAt, script⟩⟩)
      (Signal.outside [s]) R' := by
  cases s with
  | drive =>
    simp only [step?, drive?, hp, whileRelaying?] at hs
    split_ifs at hs with hc hdue <;> cases hs
    · have hended : Accords id index depth agenda ((R.modifyNode id Node.resetStatus).endWith .cancelled)
          ((R.modifyNode id Node.resetStatus).endWith .cancelled) :=
        .same (.ending _) (fun _ => rfl) (fun error h => by cases h) fun h => by cases h
      exact hended.catchesUp.cons (step_recalled hc rfl rfl) rfl
    · exact (catchesUp_stretch hnode startedAt index' script).cons (step_sleeping hdue) rfl
  | run node => simp [step?, runNode?, hp] at hs
  | wake node => simp [step?, wakeNode?, hp] at hs
  | control c =>
    cases hs
    exact ⟨[.control c], _, rfl, rfl, accords_asleep (R := { R with executor := (R.executor.call c).2 }) hp hnode⟩
  | pass ms =>
    cases hs
    exact ⟨[.pass ms], _, rfl, rfl, accords_asleep (R := { R with now := R.now + ms }) hp hnode⟩

theorem Signal.outside_append (signals signals' : List Signal) :
    outside (signals ++ signals') = outside signals ++ outside signals' :=
  List.filter_append ..

/-- The scanned node keeps up with the relay, however long that waits. -/
theorem CatchesUp.through {R R' S : Run} {outside signals : List Signal} (h : CatchesUp id index depth agenda S outside R)
    (hthrough : R.Through Phase.isRelaying signals R') :
    CatchesUp id index depth agenda S (outside ++ Signal.outside signals) R' := by
  induction hthrough generalizing outside with
  | done =>
    rw [show outside ++ Signal.outside [] = outside from List.append_nil outside]
    exact h
  | @step R R₁ R' s rest hp hs _ ih =>
    obtain ⟨first, S₁, hfirst, hout, haccords⟩ := h
    rw [show Signal.outside (s :: rest) = Signal.outside [s] ++ Signal.outside rest from
      Signal.outside_append [s] rest, ← List.append_assoc]
    refine ih ?_
    cases haccords with
    | @same p haccord _ _ hnode =>
      generalize hphase : R.phase = phase at haccord
      cases haccord with
      | waiting wakeAt startedAt index' script =>
        have hwait : CatchesUp id index depth agenda (R.sleeping ⟨wakeAt, ⟨id, index, startedAt, script⟩⟩)
          (Signal.outside [s]) R₁ := catchesUp_wait hphase (hnode hp) hs
        obtain ⟨next, S₂, hnext, hout', haccords⟩ := hwait
        refine ⟨first ++ next, S₂, ?_, ?_, haccords⟩
        · rw [follow_append]
          exact Option.bind_eq_some_iff.2 ⟨_, hfirst, hnext⟩
        · rw [Signal.outside_append, hout, hout']
      | moving | ending => rw [hphase] at hp; cases hp
    | overrun hc hR =>
      have hrelaying : R.phase.isRelaying = true → R.phase.isYielding = true := by
        cases R.phase <;> simp [Phase.isRelaying, Phase.isYielding]
      rw [hrelaying hp] at hR
      cases hR
    | broken hR => rw [hR] at hp; cases hp

/-! ### From the beginning of an activation -/

/-- The node is activated by itself in an iteration, at a place in the scan. -/
def scanned (r : Run) (id : NodeId) (index : Nat) : Run :=
  let (runnable, r) := spawn [id] index r
  r.into (.activating { Batch.alone id with runnable })

/-- An iteration begins like this when no other node is ready. -/
theorem beginIteration_eq_scanned {fired : List NodeId}
    (h : collectReady r.graph r.graph.nodeList r.firedSources = ([id], fired)) :
    r.beginIteration = (({ r with
      firedSources := fired
      iteration := r.iteration + 1
      stepping := r.executor.state == ExecutionState.stepping } : Run).publish (.iteration (r.iteration + 1))).scanned id 0 := by
  unfold beginIteration
  rw [h]
  rfl

/-- Relay and scanned node begin alike. -/
theorem catchesUp_begin {n : Node} (hn : r.graph.node? n.id = some n) (hc : r.executor.cancelled = false) :
    CatchesUp n.id index depth agenda (r.scanned n.id index) [] (r.activateRelay n depth agenda) := by
  let q := (r.publish (.nodeStarted n.id n.typeId)).prepare n
  have hscanned : r.scanned n.id index = q.2.running ⟨n.id, index, r.now, q.1⟩ := by
    simp only [scanned, spawn, hn]
    rfl
  have hrelay : r.activateRelay n depth agenda = afterRelay ⟨n.id, 0, r.now, q.1⟩ depth agenda
      (perform n.id q.1 q.2).1 (perform n.id q.1 q.2).2 := activateRelay_of_not_cancelled hc n depth agenda
  rw [hscanned, hrelay]
  refine catchesUp_stretch ?_ r.now 0 q.1
  exact Graph.isSome_node?_setNode _ (Option.isSome_iff_exists.2 ⟨n, hn⟩)

/-! ### A run that has broken down -/

/-- Only a report leads to idle. -/
theorem state_step {s : Signal} {r' : Run} (hs : r.step? s = some r') (hp : ∀ outcome, r.phase ≠ .ending outcome)
    (hstate : r.executor.state ≠ .idle) : r'.executor.state ≠ .idle := by
  rw [executor_step hs, (r.executor.replay_spec _).1]
  cases step_turns hs with
  | quiet hdeeds => exact hdeeds.afterAll_ne_idle hstate
  | begin _ _ hdeeds hrest =>
    rw [hdeeds]
    show Deed.afterAll r.executor.state _ ≠ _
    exact hrest.afterAll_ne_idle hstate
  | finish _ hdeeds =>
    rw [hdeeds, ended]
    split_ifs
    · revert hstate
      cases r.executor.state <;> decide
    · exact hstate
  | report hending => exact absurd hending (hp _)

/-- While the relay is under way, the executor is not idle. -/
theorem state_relay {n : Node} {R : Run} {signals : List Signal} (hstate : r.executor.state ≠ .idle)
    (h : (r.activateRelay n depth agenda).Through Phase.isRelaying signals R) : R.executor.state ≠ .idle := by
  have hbegin : (r.activateRelay n depth agenda).executor.state ≠ .idle := by
    rw [activateRelay_executor, (r.executor.replay_spec _).1]
    exact quiet_relayed.afterAll_ne_idle hstate
  generalize r.activateRelay n depth agenda = q at h hbegin
  induction h with
  | done => exact hbegin
  | step hp hs _ ih => exact ih (state_step hs (fun outcome h => by rw [h] at hp; cases hp) hbegin)

/-- A run that has broken down stays so, and its executor is never idle again. -/
theorem broken_follow {R R' : Run} {message : String} {signals : List Signal} (hp : R.phase = .broken message)
    (hstate : R.executor.state ≠ .idle) (hf : R.follow signals = some R') :
    R'.phase = .broken message ∧ R'.executor.state ≠ .idle := by
  induction signals generalizing R with
  | nil =>
    cases hf
    exact ⟨hp, hstate⟩
  | cons s rest ih =>
    obtain ⟨R₁, hs, hf⟩ := Option.bind_eq_some_iff.1 hf
    refine ih ?_ (state_step hs (fun outcome h => by rw [hp] at h; cases h) hstate) hf
    cases s with
    | drive => simp [step?, drive?, hp] at hs
    | run node => simp [step?, runNode?, hp] at hs
    | wake node => simp [step?, wakeNode?, hp] at hs
    | control c => cases hs; exact hp
    | pass ms => cases hs; exact hp

/-- **A relay is activated as a scanned node is, unless it breaks down or cancels the run itself.** While the relay waits
and once it has come to its end or was given up, the scanned node gets just as far by the same calls from outside: the runs
are the same in all nodes, in all events and in how they end, and only the work that the drivers have left is not.

A relay that has cancelled the run may still come to its end; the scanned node is given up then. A relay that breaks down
leaves a run that never ends, so that every further start is refused; the scanned node fails, and the run ends. -/
theorem relay_accords {n : Node} {R : Run} {signals : List Signal} (hn : r.graph.node? n.id = some n)
    (hc : r.executor.cancelled = false) (hstate : r.executor.state ≠ .idle)
    (h : (r.activateRelay n depth agenda).Through Phase.isRelaying signals R) (index : Nat) :
    ∃ signals' S, (r.scanned n.id index).follow signals' = some S ∧ Signal.outside signals' = Signal.outside signals ∧
      (R.phase.isBroken = false → (R.executor.cancelled = true → R.phase.isYielding = true) →
        S = R.into S.phase ∧ Phase.Accord n.id index depth agenda R.phase S.phase ∧
          ∀ error, R.phase = .ending (.failed error) → ∃ message, error = R.failureLine n.id message) ∧
      (R.executor.cancelled = true → R.phase.isYielding = false → S.phase = .ending .cancelled) ∧
      ∀ message, R.phase = .broken message →
        (R.executor.cancelled = false → ∃ startedAt line S',
          S = (R.complete n.id startedAt (.error (panicError index message))).2.endWith (.failed line) ∧
          line = S.failureLine n.id (panicError index message).message ∧
          S.step? .drive = some S' ∧ S'.phase = .over (S.summary (.failed line)) ∧ S'.executor.state = .idle) ∧
        ∀ later R', R.follow later = some R' → R'.phase = .broken message ∧
          ∀ g context mode now, ∃ e, start R'.executor g context mode now = .error e := by
  obtain ⟨signals', S, hfollow, hout, haccords⟩ := (catchesUp_begin hn hc).through h
  refine ⟨signals', S, hfollow, hout, fun hunbroken hheeds => ?_, fun hcancelled hyielding => ?_,
    fun message hp => ⟨fun hcalm => ?_, fun later R' hf => ?_⟩⟩
  · cases haccords with
    | same hp _ hline => exact ⟨rfl, hp, hline⟩
    | overrun hc hR =>
      rw [hheeds hc] at hR
      cases hR
    | broken hR =>
      rw [hR] at hunbroken
      cases hunbroken
  · cases haccords with
    | same hp hheeds =>
      rw [hheeds hcancelled] at hyielding
      cases hyielding
    | overrun _ _ hS => exact hS
    | broken _ hc =>
      rw [hcancelled] at hc
      cases hc
  · cases haccords with
    | same haccord =>
      rw [hp] at haccord
      cases haccord
    | overrun hc =>
      rw [hcalm] at hc
      cases hc
    | broken hR _ hnode startedAt next =>
      rw [hp] at hR
      cases hR
      rw [conclude_error hnode]
      exact ⟨startedAt, _, _, rfl, rfl, rfl, rfl, rfl⟩
  · obtain ⟨hp', hstate'⟩ := broken_follow hp (state_relay hstate h) hf
    exact ⟨hp', fun g context mode now => start_refused hstate'⟩

/-! ### A relay that breaks down -/

/-- A source with a relay that breaks down. -/
def brittle : Graph :=
  Graph.signalPair.modifyNode ⟨2⟩ fun n =>
    { n with behavior := { n.behavior with activate := fun _ _ => .panic "boom" } }

/-- A run of it, at its start. -/
def brittleStart : Run :=
  (start (.create .standard) brittle default .continuous 0).toOption.getD signalStart

/-- The run when the relay is next. -/
def brittleReached : Run :=
  (brittleStart.follow [.drive, .run ⟨1⟩, .drive, .drive, .drive, .drive]).getD brittleStart

/-- The relay. -/
def brittleRelay : Node :=
  (brittleReached.graph.node? ⟨2⟩).getD Graph.signalRelay.1

/-- The run when the relay has been activated. -/
def brittleEnd : Run :=
  brittleReached.activateRelay brittleRelay 1 ⟨[], []⟩

/-- The run goes on for ever, whereas it would have ended if the node had been scanned. -/
theorem relay_accords_brittle : brittleReached.step? .drive = some brittleEnd ∧ brittleEnd.phase = .broken "boom" ∧
    (∀ later R, brittleEnd.follow later = some R → R.phase = .broken "boom") ∧
    ∃ signals S S', (brittleReached.scanned ⟨2⟩ 0).follow signals = some S ∧ S.step? .drive = some S' ∧
      S'.executor.state = .idle := by
  have hn : brittleReached.graph.node? brittleRelay.id = some brittleRelay := rfl
  have hc : brittleReached.executor.cancelled = false := rfl
  have hstate : brittleReached.executor.state ≠ .idle := by decide +kernel
  have hp : brittleEnd.phase = .broken "boom" := rfl
  obtain ⟨signals, S, hfollow, -, -, -, hbroken⟩ := relay_accords hn hc hstate (.done brittleEnd) 0
  obtain ⟨hfails, hnever⟩ := hbroken _ hp
  obtain ⟨-, -, S', -, -, hdrive, -, hidle⟩ := hfails rfl
  exact ⟨rfl, hp, fun later R hf => (hnever later R hf).1, signals, S, S', hfollow, hdrive, hidle⟩

end Run

end Dataflow
