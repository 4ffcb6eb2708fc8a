import Dataflow.Proofs.Graph.Editing
import Dataflow.Proofs.Run.Driving

/-!
# The phases of a run

* `Run.Moves r acts p` lists what a step from `r` may be: its acts, and the phase `p` it leads to;
* `Run.step_moves`: every step is one of these;
* `Run.Leads` says that steps lead from one state of a run to another, with the acts on the way;
* `Run.Leads.graph`: the acts on the way turn the first graph into the last.

Properties of runs are proved by induction on `Run.Leads`, with one case for each kind of step.
-/

namespace Dataflow

/-- Between iterations: no activation is under way, and no output is left to be moved. -/
def Phase.isIdle : Phase → Bool
  | .boundary | .parked | .delaying _ => true
  | _ => false

/-- Whether a run has come to its end, or only has to report its outcome. -/
def Phase.isOver : Phase → Bool
  | .ending _ | .over _ | .broken _ => true
  | _ => false

theorem Phase.isOver_of_isIdle {p : Phase} (h : p.isIdle = true) : p.isOver = false := by
  cases p <;> first | rfl | cases h

/-- The nodes whose activations are not settled yet. -/
def Batch.pending (batch : Batch) : List NodeId :=
  batch.runnable.map Task.node ++ batch.asleep.map (fun s => s.task.node) ++ batch.finished.map Finished.node

/-- An activation that has ended is still to be settled. -/
theorem Batch.pending_settle {batch : Batch} {f : Finished} {rest : List Finished} (hf : batch.finished = f :: rest) :
    batch.pending.Perm (f.node :: Batch.pending { batch with finished := rest }) := by
  unfold Batch.pending
  rw [hf]
  exact List.perm_middle

/-- The activations of an iteration after one of them had its turn: none is lost, and none is settled. -/
structure Batch.Turned (batch batch' : Batch) : Prop where
  ready : batch'.ready = batch.ready
  settled : batch'.settled = batch.settled
  failures : batch'.failures = batch.failures
  pending : batch.pending.Nodup → batch'.pending.Perm batch.pending

/-- Each activation of an iteration is settled, or still to be settled. -/
structure Batch.Whole (batch : Batch) : Prop where
  apart : batch.ready.Nodup
  parts : (batch.settled ++ batch.pending).Perm batch.ready

namespace Batch.Whole

variable {batch batch' : Batch}

theorem nodup (h : batch.Whole) : batch.pending.Nodup :=
  (List.nodup_append'.1 (h.parts.nodup_iff.2 h.apart)).2.1

/-- A turn of an activation loses none of those that are still to be settled. -/
theorem turned (h : batch.Whole) (ht : batch.Turned batch') : batch'.pending.Perm batch.pending ∧ batch'.Whole := by
  have hperm := ht.pending h.nodup
  refine ⟨hperm, ht.ready ▸ h.apart, ?_⟩
  rw [ht.settled, ht.ready]
  exact (hperm.append_left _).trans h.parts

/-- What is settled is not still to be settled, whether or not it has failed. -/
theorem settle {f : Finished} {rest : List Finished} (h : batch.Whole) (hf : batch.finished = f :: rest)
    (failures : List String) :
    Whole { batch with finished := rest, failures, settled := batch.settled ++ [f.node] } := by
  refine ⟨h.apart, List.Perm.trans ?_ h.parts⟩
  simp only [List.append_assoc, List.singleton_append]
  exact (Batch.pending_settle hf).symm.append_left batch.settled

end Batch.Whole

namespace Run

/-- How far the activation of a relay goes in one step: the acts, and the phase after them. -/
inductive Carried (node : NodeId) (depth : Nat) (agenda : Agenda) (g : Graph) : List Act → Phase → Prop
  | asleep {memories : List Memory} {relay : Sleeper} (hnode : relay.task.node = node) :
      Carried node depth agenda g (memories.map (.remember node)) (.relaying relay depth agenda)
  | broken {memories : List Memory} {message : String} :
      Carried node depth agenda g (memories.map (.remember node)) (.broken message)
  | failed {memories : List Memory} {result : Except NodeError Output} {error : String} :
      Carried node depth agenda g (memories.map (.remember node) ++ [.settle node result])
        (.ending (.failed error))
  | settled {memories : List Memory} {result : Except NodeError Output}
      (hok : (g.replay (memories.map (.remember node))).completion node result = .ok ()) :
      Carried node depth agenda g (memories.map (.remember node) ++ [.settle node result, .clear node])
        (.propagating { agenda with work := .propagate node depth :: agenda.work })

/-- How an iteration is given up, or fails: the acts, and the outcome. -/
inductive GivesUp (r : Run) : List Act → Outcome → Prop
  /-- Its activations are given up. -/
  | abandon {batch : Batch} (hp : r.phase = .activating batch) :
      GivesUp r ((batch.ready.filter fun id => !batch.settled.contains id).map .reset) .cancelled
  /-- All its activations are settled, and some have failed. -/
  | fail {batch : Batch} (hp : r.phase = .activating batch) (hpending : batch.pending = [])
      (hfailures : batch.failures ≠ []) : GivesUp r [] (.failed ("; ".intercalate batch.failures))
  /-- A relay is not let begin. -/
  | refuse {id : NodeId} {depth : Nat} {work : List Work} {origins : List NodeId}
      (hp : r.phase = .propagating ⟨.activate id depth :: work, origins⟩) : GivesUp r [.reset id] .cancelled
  /-- A relay that sleeps is given up. -/
  | leave {relay : Sleeper} {depth : Nat} {agenda : Agenda} (hp : r.phase = .relaying relay depth agenda) :
      GivesUp r [.reset relay.task.node] .cancelled
  /-- The chain of relays is too long. -/
  | exceed {id : NodeId} {depth : Nat} {work : List Work} {origins : List NodeId} {error : String}
      (hp : r.phase = .propagating ⟨.activate id depth :: work, origins⟩) : GivesUp r [] (.failed error)
  /-- A transfer is refused. -/
  | obstruct {id : NodeId} {depth : Nat} {work : List Work} {origins : List NodeId} {error : String}
      (hp : r.phase = .propagating ⟨.propagate id depth :: work, origins⟩) :
      GivesUp r (r.graph.moving id) (.failed error)

/-- What a step from `r` may be: its acts, and the phase after it. -/
inductive Moves (r : Run) : List Act → Phase → Prop
  /-- Time passes, or a call arrives. -/
  | wait : Moves r [] r.phase
  | turn {p : Phase} (hp : r.phase.isIdle = true) (hp' : (p.isIdle || p.isOver) = true) : Moves r [] p
  /-- The outcome is reported. -/
  | report {outcome : Outcome} {result : ExecutionResult} (hp : r.phase = .ending outcome)
      (hresult : result.outcome = outcome) : Moves r [] (.over result)
  /-- An iteration begins. -/
  | begin {ready fired : List NodeId} {tasks : List Task} (hp : r.phase = .boundary)
      (hready : collectReady r.graph r.graph.nodeList r.firedSources = (ready, fired))
      (htasks : tasks.map Task.node = ready) (hsome : ready ≠ []) :
      Moves r (preparing (r.iteration + 1) r.context ready r.graph) (.activating ⟨ready, tasks, [], [], [], []⟩)
  /-- An activation goes on or wakes up. -/
  | run {batch batch' : Batch} {node : NodeId} {memories : List Memory} (hp : r.phase = .activating batch)
      (hready : batch'.ready = batch.ready) (hsettled : batch'.settled = batch.settled)
      (hfailures : batch'.failures = batch.failures)
      (hpending : batch.pending.Nodup → batch'.pending.Perm batch.pending) :
      Moves r (memories.map (.remember node)) (.activating batch')
  /-- An activation that has ended is settled. -/
  | settle {batch : Batch} {f : Finished} {rest : List Finished} {failures : List String}
      (hp : r.phase = .activating batch) (hf : batch.finished = f :: rest)
      (hfailures : failures = [] → batch.failures = [] ∧ r.graph.completion f.node f.result = .ok ()) :
      Moves r [.settle f.node f.result]
        (.activating { batch with finished := rest, failures, settled := batch.settled ++ [f.node] })
  /-- All activations are settled, and the inputs that they consumed are cleared. -/
  | pass {batch : Batch} (hp : r.phase = .activating batch) (hpending : batch.pending = [])
      (hfailures : batch.failures = []) : Moves r (batch.ready.map .clear) (.propagating ⟨[], batch.ready⟩)
  /-- The outputs of a node are moved. -/
  | move {id : NodeId} {depth : Nat} {work : List Work} {origins : List NodeId}
      (hp : r.phase = .propagating ⟨.propagate id depth :: work, origins⟩)
      (hok : (r.graph.transferOutputs id).failure = none) :
      Moves r (r.graph.moving id)
        (.propagating ⟨(((r.graph.transferOutputs id).relays.filter
          (r.graph.transferOutputs id).graph.isReady).map fun relay => .activate relay (depth + 1)) ++ work, origins⟩)
  /-- A relay that is not ready any more is passed over. -/
  | skip {id : NodeId} {depth : Nat} {work : List Work} {origins : List NodeId}
      (hp : r.phase = .propagating ⟨.activate id depth :: work, origins⟩) (hready : r.graph.isReady id = false) :
      Moves r [] (.propagating ⟨work, origins⟩)
  /-- A relay is activated. -/
  | relay {n : Node} {depth : Nat} {work : List Work} {origins : List NodeId} {acts : List Act} {p : Phase}
      (hp : r.phase = .propagating ⟨.activate n.id depth :: work, origins⟩) (hn : r.graph.node? n.id = some n)
      (hready : r.graph.isReady n.id = true) (hdepth : depth ≤ r.executor.config.maxRelayDepth)
      (hcarry : Carried n.id depth ⟨work, origins⟩
        (r.graph.enact (.prepare (n.activation n.prepare.1 r.iteration r.context))) acts p) :
      Moves r (.prepare (n.activation n.prepare.1 r.iteration r.context) :: acts) p
  /-- A relay goes on after a wait. -/
  | resume {relay : Sleeper} {depth : Nat} {agenda : Agenda} {acts : List Act} {p : Phase}
      (hp : r.phase = .relaying relay depth agenda) (hcarry : Carried relay.task.node depth agenda r.graph acts p) :
      Moves r acts p
  /-- The next node of the scan is taken up. -/
  | next {id : NodeId} {origins : List NodeId} (hp : r.phase = .propagating ⟨[], id :: origins⟩) :
      Moves r [] (.propagating ⟨[.propagate id 0], origins⟩)
  /-- All outputs are moved. -/
  | finish {p : Phase} (hp : r.phase = .propagating ⟨[], []⟩) (hp' : p.isIdle = true) : Moves r [] p
  /-- The iteration is given up. -/
  | giveUp {acts : List Act} {outcome : Outcome} (h : GivesUp r acts outcome) : Moves r acts (.ending outcome)

/-- An iteration that is given up resets some nodes, or leaves the outputs of a node half moved. -/
theorem GivesUp.acts_eq {r : Run} {acts : List Act} {outcome : Outcome} (h : GivesUp r acts outcome) :
    (∃ ids : List NodeId, acts = ids.map .reset) ∨
      ∃ id depth work origins, r.phase = .propagating ⟨.propagate id depth :: work, origins⟩ ∧
        acts = r.graph.moving id := by
  cases h with
  | abandon => exact Or.inl ⟨_, rfl⟩
  | fail | exceed => exact Or.inl ⟨[], rfl⟩
  | @refuse id => exact Or.inl ⟨[id], rfl⟩
  | @leave relay => exact Or.inl ⟨[relay.task.node], rfl⟩
  | obstruct hp => exact Or.inr ⟨_, _, _, _, hp, rfl⟩

theorem performing_eq (node : NodeId) (script : Script) (r : Run) :
    ∃ memories : List Memory, performing node script r = memories.map (.remember node) := by
  induction script generalizing r with
  | finish | panic | sleep => exact ⟨[], rfl⟩
  | emit event rest ih => exact ih _
  | control call rest ih => exact ih _ _ _
  | log entry rest ih => exact ih _
  | remember memory rest ih =>
    obtain ⟨memories, h⟩ := ih (r.modifyNode node fun n => { n with memory })
    exact ⟨memory :: memories, congrArg _ h⟩

/-! ### Scanning -/

theorem mem_collectReady {g : Graph} {nodes : List Node} {fired : List NodeId} {id : NodeId}
    (h : id ∈ (collectReady g nodes fired).1) : ∃ n ∈ nodes, n.id = id := by
  induction nodes generalizing fired with
  | nil => exact absurd h List.not_mem_nil
  | cons n rest ih =>
    have hlater : ∀ {fired}, id ∈ (collectReady g rest fired).1 → ∃ m ∈ n :: rest, m.id = id := fun h => by
      obtain ⟨m, hm, hid⟩ := ih h
      exact ⟨m, List.mem_cons_of_mem _ hm, hid⟩
    unfold collectReady at h
    by_cases hj : joins g fired n = true
    · rw [if_pos hj] at h
      rcases List.mem_cons.1 h with rfl | h
      · exact ⟨n, List.mem_cons_self, rfl⟩
      · exact hlater h
    · rw [if_neg hj] at h
      exact hlater h

theorem sublist_collectReady (g : Graph) (nodes : List Node) (fired : List NodeId) :
    (collectReady g nodes fired).1.Sublist (nodes.map Node.id) := by
  induction nodes generalizing fired with
  | nil => exact List.Sublist.refl _
  | cons n rest ih =>
    unfold collectReady
    split_ifs
    · exact (ih _).cons_cons _
    · exact (ih _).cons_cons _
    · exact (ih _).cons _

theorem nodup_collectReady {g : Graph} (hg : g.Identified) (fired : List NodeId) :
    (collectReady g g.nodeList fired).1.Nodup :=
  List.Nodup.sublist (sublist_collectReady g _ fired) (Graph.nodeList_ids hg ▸ hg.nodup)

theorem spawn_tasks {ids : List NodeId} {index : Nat} {r : Run} (h : ∀ id ∈ ids, (r.graph.node? id).isSome) :
    (spawn ids index r).1.map Task.node = ids := by
  induction ids generalizing index r with
  | nil => rfl
  | cons id rest ih =>
    obtain ⟨hid, hrest⟩ := List.forall_mem_cons.1 h
    obtain ⟨n, hn⟩ := Option.isSome_iff_exists.1 hid
    have hrest' : ∀ id ∈ rest, ((r.prepare n).2.graph.node? id).isSome := by
      intro id hid
      rw [show (r.prepare n).2.graph = r.graph.setNode n.prepare.2 from rfl, Graph.node?_setNode]
      split_ifs
      · rfl
      · exact hrest id hid
    simp only [spawn, hn, List.map_cons]
    exact congrArg (id :: ·) (ih (r := (r.prepare n).2.publish (.nodeStarted id n.typeId)) hrest')

theorem mem_preparing {iteration : Nat} {context : Context} {ids : List NodeId} {g : Graph} {act : Act}
    (h : act ∈ preparing iteration context ids g) : ∃ a, act = .prepare a := by
  induction ids generalizing g with
  | nil => exact absurd h List.not_mem_nil
  | cons id rest ih =>
    unfold preparing at h
    split at h
    · exact ih h
    · rcases List.mem_cons.1 h with rfl | h
      · exact ⟨_, rfl⟩
      · exact ih h

/-! ### Every step is one of these -/

theorem carried_carry (r : Run) (task : Task) (depth : Nat) (agenda : Agenda) :
    Carried task.node depth agenda r.graph (r.carrying task.node task.script) (r.carry task depth agenda).phase := by
  obtain ⟨memories, hacts⟩ := performing_eq task.node task.script r
  have hgraph := perform_graph task.node task.script r
  unfold carrying carry
  rw [hacts] at hgraph ⊢
  rcases hperf : perform task.node task.script r with ⟨stop, r'⟩
  rw [hperf] at hgraph
  dsimp only at hgraph ⊢
  cases stop with
  | finished result =>
    have hfst := r'.complete_fst task.node task.startedAt result
    rcases hc : r'.complete task.node task.startedAt result with ⟨completed, r''⟩
    rw [hc] at hfst
    simp only [afterRelay, hc, ending, ← hfst]
    cases completed with
    | ok =>
      refine .settled ?_
      rw [← hgraph, ← hfst]
    | error e => exact .failed
  | panicked message =>
    simp only [ending, List.append_nil, afterRelay]
    exact .broken
  | asleep ms rest =>
    simp only [ending, List.append_nil, afterRelay]
    exact .asleep rfl

theorem moves_begin {r : Run} (hg : r.graph.Named) (hp : r.phase = .boundary) :
    Moves r (preparing (r.iteration + 1) r.context (collectReady r.graph r.graph.nodeList r.firedSources).1 r.graph)
      r.beginIteration.phase := by
  have hids : ∀ id ∈ (collectReady r.graph r.graph.nodeList r.firedSources).1, (r.graph.node? id).isSome := by
    intro id hid
    obtain ⟨n, hn, rfl⟩ := mem_collectReady hid
    obtain ⟨k, -, hk⟩ := List.mem_filterMap.1 hn
    rw [hg k n hk, hk]
    rfl
  unfold beginIteration
  rcases hready : collectReady r.graph r.graph.nodeList r.firedSources with ⟨ready, fired⟩
  rw [hready] at hids
  dsimp only at hids ⊢
  split_ifs with hempty
  · rw [List.isEmpty_iff.1 hempty]
    exact .turn (by rw [hp]; rfl) rfl
  · exact .begin hp hready (spawn_tasks hids) (by simpa using hempty)

theorem moves_settle {r : Run} {batch : Batch} {f : Finished} {rest : List Finished} (hp : r.phase = .activating batch)
    (hf : batch.finished = f :: rest) : Moves r [.settle f.node f.result] (r.settle batch f rest).phase := by
  have hfst := r.complete_fst f.node f.startedAt f.result
  unfold Run.settle
  rcases hcomplete : r.complete f.node f.startedAt f.result with ⟨completed, r₁⟩
  rw [hcomplete] at hfst
  dsimp only at hfst ⊢
  refine .settle hp hf fun hnil => ?_
  cases completed with
  | ok => exact ⟨hnil, hfst.symm⟩
  | error e => exact absurd hnil (by simp)

theorem propagateFrom_phase (r : Run) (id : NodeId) (depth : Nat) (agenda : Agenda) :
    (r.propagateFrom id depth agenda).phase = match (r.graph.transferOutputs id).failure with
      | some error => .ending (.failed error)
      | none => .propagating { agenda with
          work := (((r.graph.transferOutputs id).relays.filter (r.graph.transferOutputs id).graph.isReady).map
            fun relay => .activate relay (depth + 1)) ++ agenda.work } := by
  have hgraph : (if (r.graph.transferOutputs id).transfers.isEmpty then
        { r with graph := (r.graph.transferOutputs id).graph }
      else ({ r with graph := (r.graph.transferOutputs id).graph } : Run).publish
        (.dataPropagated id (r.graph.transferOutputs id).transfers)).graph = (r.graph.transferOutputs id).graph := by
    split_ifs <;> rfl
  unfold propagateFrom
  dsimp only
  cases (r.graph.transferOutputs id).failure with
  | some error => rfl
  | none => simp only [hgraph]

theorem moves_propagate {r : Run} {id : NodeId} {depth : Nat} {work : List Work} {origins : List NodeId}
    (hp : r.phase = .propagating ⟨.propagate id depth :: work, origins⟩) :
    Moves r (r.graph.moving id) (r.propagateFrom id depth ⟨work, origins⟩).phase := by
  rw [propagateFrom_phase]
  cases hf : (r.graph.transferOutputs id).failure with
  | some error => exact .giveUp (.obstruct hp)
  | none => exact .move hp hf

theorem Drives.moves {r r' : Run} {acts : List Act} {deeds : List Deed} (h : r.Drives acts deeds r')
    (hg : r.graph.Named) : Moves r acts r'.phase := by
  cases h with
  | desist hp | park hp | lose hp | rouse hp | look hp | quit hp | elapse hp => exact .turn (by rw [hp]; rfl) rfl
  | begin hp => exact moves_begin hg hp
  | abandon hp => exact .giveUp (.abandon hp)
  | settle hp _ hf => exact moves_settle hp hf
  | pass hp _ hf hrunnable hasleep hfailures =>
    exact .pass hp (by simp [Batch.pending, hf, hrunnable, hasleep]) hfailures
  | fail hp _ hf hrunnable hasleep hfailures =>
    exact .giveUp (.fail hp (by simp [Batch.pending, hf, hrunnable, hasleep]) hfailures)
  | move hp => exact moves_propagate hp
  | skip hp hready => exact .skip hp hready
  | exceed hp => exact .giveUp (.exceed hp)
  | refuse hp hn =>
    obtain rfl := hg _ _ hn
    exact .giveUp (.refuse hp)
  | @relay _ n depth work origins hp hn hready hdepth =>
    obtain rfl := hg _ _ hn
    have hcarried := carried_carry (r.launch n).2 (r.launch n).1 depth ⟨work, origins⟩
    rw [launch_graph hn] at hcarried
    exact .relay hp hn hready hdepth hcarried
  | next hp => exact .next hp
  | delay hp | turn hp => exact .finish hp rfl
  | leave hp => exact .giveUp (.leave hp)
  | resume hp => exact .resume hp (carried_carry ..)
  | report hp => exact .report hp rfl

/-- What is found in a list of distinct nodes, put in front of the others, is the list again. -/
theorem perm_of_find? {α : Type} (node : α → NodeId) {list : List α} {a : α} {id : NodeId}
    (hn : (list.map node).Nodup) (h : list.find? (node · = id) = some a) :
    node a = id ∧ (a :: list.filter (node · ≠ id)).Perm list := by
  have hid : node a = id := by simpa using List.find?_some h
  refine ⟨hid, ?_⟩
  induction list with
  | nil => cases h
  | cons b rest ih =>
    obtain ⟨hb, hrest⟩ := List.nodup_cons.1 hn
    by_cases heq : node b = id
    · obtain rfl : b = a := by simpa [heq] using h
      have hfilter : rest.filter (node · ≠ id) = rest :=
        List.filter_eq_self.2 fun c hc => by simpa using fun e => hb (List.mem_map.2 ⟨c, hc, e.trans heq.symm⟩)
      rw [List.filter_cons_of_neg (by simpa using heq), hfilter]
    · rw [List.filter_cons_of_pos (by simpa using heq)]
      have h' : rest.find? (node · = id) = some a := by simpa [heq] using h
      exact (List.Perm.swap ..).trans ((ih hrest h').cons b)

/-- An activation goes on up to its next wait or its end. -/
theorem runNode_turned {r r' : Run} {node : NodeId} (h : r.runNode? node = some r') :
    ∃ batch task batch', r.phase = .activating batch ∧ batch.runnable.find? (·.node = node) = some task ∧
      r' = { (perform task.node task.script r).2 with phase := .activating batch' } ∧ batch.Turned batch' := by
  obtain ⟨batch, task, hp, htask, rfl⟩ := runNode?_eq_some.1 h
  have hperm : (batch.runnable.map Task.node).Nodup → ∀ tail : List NodeId,
      ((batch.runnable.filter fun t => t.node ≠ node).map Task.node ++ task.node :: tail).Perm
        (batch.runnable.map Task.node ++ tail) := by
    intro hn tail
    obtain ⟨-, h⟩ := perm_of_find? Task.node hn htask
    exact List.perm_middle.trans ((h.map Task.node).append_right tail)
  have hrunnable : batch.pending.Nodup → (batch.runnable.map Task.node).Nodup := fun hn =>
    ((List.nodup_append'.1 (List.nodup_append'.1 hn).1).1)
  have hended : ∀ result, batch.Turned { batch with
      runnable := batch.runnable.filter (·.node ≠ node)
      finished := batch.finished ++ [⟨task.node, task.startedAt, result⟩] } := by
    refine fun result => ⟨rfl, rfl, rfl, fun hn => ?_⟩
    have h := hperm (hrunnable hn) (batch.asleep.map (fun s => s.task.node) ++ batch.finished.map Finished.node)
    simp only [Batch.pending, List.map_append, List.map_cons, List.map_nil, List.append_assoc] at h ⊢
    refine List.Perm.trans (List.Perm.append_left _ ?_) h
    rw [← List.append_assoc]
    exact List.perm_append_singleton ..
  unfold runTask
  rcases hperf : perform task.node task.script r with ⟨stop, r₁⟩
  cases stop with
  | finished result => exact ⟨batch, task, _, hp, htask, by rw [hperf], hended result⟩
  | panicked message => exact ⟨batch, task, _, hp, htask, by rw [hperf], hended _⟩
  | asleep ms rest =>
    refine ⟨batch, task, { batch with
      runnable := batch.runnable.filter (·.node ≠ node)
      asleep := batch.asleep ++ [⟨r₁.now + ms, { task with script := rest }⟩] }, hp, htask, by rw [hperf], rfl, rfl,
      rfl, fun hn => ?_⟩
    have h := hperm (hrunnable hn) (batch.asleep.map (fun s => s.task.node) ++ batch.finished.map Finished.node)
    simp only [Batch.pending, List.map_append, List.map_cons, List.map_nil, List.append_assoc] at h ⊢
    refine List.Perm.trans (List.Perm.append_left _ ?_) h
    rw [List.singleton_append]
    exact List.perm_middle

/-- An activation wakes up. -/
theorem wakeNode_turned {r r' : Run} {node : NodeId} (h : r.wakeNode? node = some r') :
    ∃ batch batch', r.phase = .activating batch ∧ r' = { r with phase := .activating batch' } ∧ batch.Turned batch' := by
  obtain ⟨batch, sleeper, hp, hs, -, rfl⟩ := wakeNode?_eq_some.1 h
  refine ⟨batch, _, hp, rfl, rfl, rfl, rfl, fun hn => ?_⟩
  have hasleep : (batch.asleep.map fun s => s.task.node).Nodup :=
    (List.nodup_append'.1 (List.nodup_append'.1 hn).1).2.1
  obtain ⟨-, h⟩ := perm_of_find? (fun s : Sleeper => s.task.node) hasleep hs
  simp only [Batch.pending, List.map_append, List.map_cons, List.map_nil, List.append_assoc, List.singleton_append]
  refine List.Perm.append_left _ ?_
  exact (h.map fun s => s.task.node).append_right _

theorem moves_runNode {r r' : Run} {node : NodeId} (h : r.runNode? node = some r') :
    Moves r (r.acts (.run node)) r'.phase := by
  obtain ⟨batch, task, batch', hp, htask, rfl, hturned⟩ := runNode_turned h
  obtain ⟨memories, hacts⟩ := performing_eq task.node task.script r
  unfold acts
  simp only [hp, htask, hacts]
  exact .run hp hturned.ready hturned.settled hturned.failures hturned.pending

theorem moves_wakeNode {r r' : Run} {node : NodeId} (h : r.wakeNode? node = some r') : Moves r [] r'.phase := by
  obtain ⟨batch, batch', hp, rfl, hturned⟩ := wakeNode_turned h
  change Moves r (([] : List Memory).map (.remember node)) _
  exact .run hp hturned.ready hturned.settled hturned.failures hturned.pending

/-- **Every step is one of the moves.** -/
theorem step_moves {r r' : Run} {s : Signal} (hg : r.graph.Named) (h : r.step? s = some r') :
    Moves r (r.acts s) r'.phase := by
  cases s with
  | drive => exact (drives_of_drive? h).moves hg
  | run node => exact moves_runNode h
  | wake node => exact moves_wakeNode h
  | control call => cases h; exact .wait
  | pass ms => cases h; exact .wait

/-! ### Runs -/

/-- Steps lead from one state of a run to another, with some acts on the way. -/
inductive Leads : Run → List Act → Run → Prop
  | refl (r : Run) : Leads r [] r
  | step {r r' r'' : Run} {acts : List Act} {s : Signal} (h : Leads r acts r') (hs : r'.step? s = some r'') :
      Leads r (acts ++ r'.acts s) r''

theorem Leads.graph {r r' : Run} {acts : List Act} (hg : r.graph.Identified) (h : Leads r acts r') :
    r'.graph = r.graph.replay acts := by
  induction h with
  | refl => rfl
  | step _ hs ih =>
    have hr := graph_step (by rw [ih]; exact (hg.replay _).isNamed) hs
    rw [hr, ih, Graph.replay_append]

theorem Leads.identified {r r' : Run} {acts : List Act} (hg : r.graph.Identified) (h : Leads r acts r') :
    r'.graph.Identified := by
  rw [h.graph hg]
  exact hg.replay acts

/-- Runs keep graphs regular. -/
theorem Leads.regular {r r' : Run} {acts : List Act} (hg : r.graph.Regular) (h : Leads r acts r') :
    r'.graph.Regular := by
  rw [h.graph hg.toIdentified]
  exact hg.replay acts

/-- The run after some signals; none if one of them cannot come. -/
def follow (r : Run) : List Signal → Option Run
  | [] => some r
  | s :: rest => (r.step? s).bind fun r => follow r rest

theorem follow_append (r : Run) (signals signals' : List Signal) :
    r.follow (signals ++ signals') = (r.follow signals).bind fun r => r.follow signals' := by
  induction signals generalizing r with
  | nil => rfl
  | cons s rest ih =>
    rw [List.cons_append, follow, follow]
    cases r.step? s with
    | none => rfl
    | some r₁ => exact ih r₁

/-- The acts on the way. -/
def trail (r : Run) : List Signal → List Act
  | [] => []
  | s :: rest => r.acts s ++ (r.step? s).elim [] fun r => trail r rest

theorem Leads.follow {r r' r'' : Run} {acts : List Act} {signals : List Signal} (h : Leads r acts r')
    (hf : r'.follow signals = some r'') : Leads r (acts ++ r'.trail signals) r'' := by
  induction signals generalizing r' acts with
  | nil =>
    cases hf
    rw [trail, List.append_nil]
    exact h
  | cons s rest ih =>
    obtain ⟨r₁, hs, hf⟩ := Option.bind_eq_some_iff.1 hf
    rw [trail, hs, Option.elim_some, ← List.append_assoc]
    exact ih (h.step hs) hf

/-! ### Starting -/

theorem resetNodes_eq (g : Graph) : resetNodes g = g.replay (g.order.map .reset) := by
  rw [Graph.replay, List.foldl_map]
  rfl

section Start

variable {x : Executor} {g : Graph} {context : Context} {mode : StartMode} {now : Nat} {r : Run}

theorem start_eq (h : start x g context mode now = .ok r) :
    r.phase = .boundary ∧
      r.graph = ({ g with supply := g.supply.draw.2 } : Graph).replay (g.order.map .reset) := by
  obtain ⟨y, -, rfl⟩ := Except.map_eq_ok.1 h
  exact ⟨rfl, resetNodes_eq { g with supply := g.supply.draw.2 }⟩

theorem start_iteration (h : start x g context mode now = .ok r) : r.iteration = 0 := by
  obtain ⟨y, -, rfl⟩ := Except.map_eq_ok.1 h
  rfl

theorem start_identified (hg : g.Identified) (h : start x g context mode now = .ok r) : r.graph.Identified := by
  rw [(start_eq h).2]
  exact (hg.draw (Nat.le_succ _)).replay _

theorem start_wellFormed (hg : g.WellFormed) (h : start x g context mode now = .ok r) : r.graph.WellFormed := by
  rw [(start_eq h).2]
  exact Graph.WellFormed.replay ⟨hg.draw (Nat.le_succ _), hg.sound⟩ _

theorem start_regular (hg : g.Regular) (h : start x g context mode now = .ok r) : r.graph.Regular := by
  rw [(start_eq h).2]
  exact (hg.draw (Nat.le_succ _)).replay _

end Start

/-! ### A run of a source and its relay -/

/-- A run of a source that triggers a relay, at its start. -/
def signalStart : Run :=
  (start (.create .standard) Graph.signalPair default .continuous 0).toOption.getD
    ⟨.create .standard, Graph.signalPair, default, 0, [], false, 0, 0, [], .boundary⟩

/-- The signals of its first iteration: the source is activated and settled, its signal is moved, and then the
relay is activated. -/
def signalPath : List Signal :=
  [.drive, .run ⟨1⟩, .drive, .drive, .drive, .drive, .drive, .drive]

/-- The run when all outputs of the first iteration are moved. -/
def signalEnd : Run :=
  (signalStart.follow signalPath).getD signalStart

theorem start_signal : start (.create .standard) Graph.signalPair default .continuous 0 = .ok signalStart := rfl

theorem leads_signal : Leads signalStart (signalStart.trail signalPath) signalEnd := by
  have hfollow : signalStart.follow signalPath = some signalEnd := rfl
  exact (Leads.refl signalStart).follow hfollow

end Run

end Dataflow
