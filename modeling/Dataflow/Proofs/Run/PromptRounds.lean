import Dataflow.Proofs.Run.Confluence
import Dataflow.Proofs.Run.Failures
import Dataflow.Proofs.Run.RelayChains
import Dataflow.Proofs.Run.Rounds
import Dataflow.Proofs.Run.Unfolding
import Dataflow.Proofs.Run.Wires

/-!
# Iterations in which every activation ends at once

In an iteration whose activations neither wait nor make calls nor fail, the order in which they go on makes no difference.
Whatever is next, the iteration comes to the point where all of them have ended.

* `Script.Prompt` says what a script comes to that ends at once, and `Run.perform_prompt` that it is carried out to there;
* `Node.Yields` says what the next activation of a node comes to;
* `Run.Underway` is what holds of such an iteration as long as activations are under way, and `Run.Underway.step` that every
  step keeps it or passes the barrier;
* `Run.unfolds_round`: an iteration turns all nodes of its scan, and `Run.unfolds_quiet`: a run without ready nodes ends.
-/

namespace Dataflow

/-- A script ends at once with a result, and its node remembers something then. -/
inductive Script.Prompt : Memory → Script → Except NodeError Output → Memory → Prop
  | finish {m : Memory} {result : Except NodeError Output} : Prompt m (finish result) result m
  | emit {m m' : Memory} {event : NodeEvent} {rest : Script} {result : Except NodeError Output}
      (h : Prompt m rest result m') : Prompt m (emit event rest) result m'
  | log {m m' : Memory} {entry : Value} {rest : Script} {result : Except NodeError Output}
      (h : Prompt m rest result m') : Prompt m (log entry rest) result m'
  | remember {m m₁ m' : Memory} {rest : Script} {result : Except NodeError Output}
      (h : Prompt m₁ rest result m') : Prompt m (remember m₁ rest) result m'

/-- The next activation of a node ends at once with an output that the node accepts. -/
structure Node.Yields (n : Node) (memory : Memory) (o : Output) : Prop where
  prompt : ∀ context iteration, (n.script context iteration).Prompt n.memory (.ok o) memory
  accepts : n.Accepts o

/-- How much is left to do until all activations of an iteration are settled. -/
def Batch.left (batch : Batch) : Nat :=
  2 * batch.runnable.length + batch.finished.length

namespace Act

theorem received_memories (id node : NodeId) (memories : List Memory) :
    received id (memories.map (.remember node)) = [] :=
  List.filterMap_eq_nil_iff.2 fun act hact => by obtain ⟨memory, -, rfl⟩ := List.mem_map.1 hact; rfl

theorem received_clears (id : NodeId) (ids : List NodeId) : received id (ids.map .clear) = [] :=
  List.filterMap_eq_nil_iff.2 fun act hact => by obtain ⟨other, -, rfl⟩ := List.mem_map.1 hact; rfl

theorem received_resets (id : NodeId) (ids : List NodeId) : received id (ids.map .reset) = [] :=
  List.filterMap_eq_nil_iff.2 fun act hact => by obtain ⟨other, -, rfl⟩ := List.mem_map.1 hact; rfl

end Act

namespace Graph

variable {g : Graph} {ids : List NodeId} {id : NodeId} {n : Node}

/-- Each node that takes part is activated once, with what waits at its inputs. -/
theorem received_preparing (hg : g.Named) (hn : ids.Nodup) (iteration : Nat) (context : Context)
    (hnode : g.node? id = some n) :
    Act.received id (Run.preparing iteration context ids g) = if id ∈ ids then [n.prepare.1.inputs] else [] := by
  induction ids generalizing g n with
  | nil => rfl
  | cons k rest ih =>
    obtain ⟨hnew, hrest⟩ := List.nodup_cons.1 hn
    unfold Run.preparing
    cases hk : g.node? k with
    | none =>
      have hne : id ≠ k := fun e => by rw [← e, hnode] at hk; cases hk
      dsimp only
      rw [ih hg hrest hnode]
      simp [hne]
    | some m =>
      obtain rfl := hg k m hk
      have hnode' := node?_setNode g m.prepare.2 id
      rw [show m.prepare.2.id = m.id from rfl] at hnode'
      have hsplit : ∀ acts, Act.received id (.prepare (m.activation m.prepare.1 iteration context) :: acts) =
          (if m.id = id then [m.prepare.1.inputs] else []) ++ Act.received id acts := fun acts => by
        unfold Act.received
        rw [List.filterMap_cons]
        by_cases hid : m.id = id <;> simp [Node.activation, hid]
      dsimp only
      rw [hsplit]
      by_cases hid : m.id = id
      · rw [if_pos hid] at hnode'
        obtain rfl : m = n := Option.some.inj (hk.symm.trans (hid ▸ hnode))
        rw [ih (hg.setNode _) hrest hnode', if_pos hid, if_neg (hid ▸ hnew)]
        simp [hid]
      · rw [if_neg hid] at hnode'
        rw [ih (hg.setNode _) hrest (hnode'.trans hnode), if_neg hid]
        simp [Ne.symm hid]

/-- An activation that has ended is written to its node. -/
theorem node?_settle (hg : g.Named) (hn : g.node? id = some n) (result : Except NodeError Output) (id' : NodeId) :
    (g.settle id result).node? id' = if id = id' then some (n.complete result g.supply).2.1 else g.node? id' := by
  simp only [settle, hn, node?_reindex]
  rw [node?_evolve, (n.evolves_complete result g.supply).id, hg id n hn]

/-- The activations of some nodes have turned them, and the other nodes are the same. -/
structure Turned (turn : NodeId → Memory × Output) (ids : List NodeId) (g g' : Graph) : Prop where
  turned : ∀ id ∈ ids, ∀ n, g.node? id = some n → ∃ n', g'.node? id = some n' ∧ n.Turned (turn id).1 (turn id).2 n'
  others : ∀ id ∉ ids, g'.node? id = g.node? id

section Turned

variable {g' : Graph} {wires : List Wire} {turn : NodeId → Memory × Output} {w : Wire}

theorem Turned.memory? (h : g.Turned turn ids g') (hn : (g.node? id).isSome = true) :
    g'.memory? id = if id ∈ ids then some (turn id).1 else g.memory? id := by
  unfold Graph.memory?
  split_ifs with hid
  · obtain ⟨n, hn⟩ := Option.isSome_iff_exists.1 hn
    obtain ⟨n', hn', hturned⟩ := h.turned id hid n hn
    rw [hn', Option.map_some, hturned.memory]
  · rw [h.others id hid]

/-- What is written to the beginning of a wire waits there to be moved. -/
theorem Turned.sent_written (h : g.Turned turn ids g') (hg : g.WiredBy wires) (hw : w ∈ wires) (hid : w.source ∈ ids)
    {v : Value} (hv : (w.output, v) ∈ (turn w.source).2.outputs) : g'.sent? w = some v := by
  obtain ⟨n, hn⟩ := hg.exists_source hw
  obtain ⟨n', hn', hturned⟩ := h.turned _ hid n hn
  have hfresh := hturned.written (.output w.output, v) (List.mem_append_left _ (List.mem_map.2 ⟨_, hv, rfl⟩))
  rwa [sent?, portIn?_of_node? hn']

/-- Where nothing is written, the same waits as before. -/
theorem Turned.sent_kept (h : g.Turned turn ids g') (hg : g.WiredBy wires) (hw : w ∈ wires)
    (hnone : w.source ∈ ids → w.output ∉ Keyed.keys (turn w.source).2.outputs) : g'.sent? w = g.sent? w := by
  obtain ⟨n, hn⟩ := hg.exists_source hw
  rw [sent?, sent?]
  by_cases hid : w.source ∈ ids
  · obtain ⟨n', hn', hturned⟩ := h.turned _ hid n hn
    have hslot : Slot.output w.output ∉ (turn w.source).2.slots := by
      simpa [Output.slots] using hnone hid
    have hfresh := hturned.kept _ rfl hslot
    rwa [portIn?_of_node? hn', portIn?_of_node? hn]
  · rw [portIn?, h.others _ hid, portIn?]

/-- The inputs of the nodes that were activated are empty. -/
theorem Turned.received? (h : g.Turned turn ids g') (hg : g.WiredBy wires) (hw : w ∈ wires) :
    g'.received? w = if w.target ∈ ids then none else g.received? w := by
  obtain ⟨n, hn⟩ := hg.exists_target hw
  rw [Graph.received?, Graph.received?]
  split_ifs with hid
  · obtain ⟨n', hn', hturned⟩ := h.turned _ hid n hn
    rw [portIn?_of_node? hn']
    exact hturned.cleared _ rfl
  · rw [portIn?, h.others _ hid, portIn?]

end Turned

/-- Inputs are cleared at the nodes that they belong to. -/
theorem node?_clears (hg : g.Identified) (hn : ids.Nodup) (id : NodeId) : (g.replay (ids.map .clear)).node? id =
    if id ∈ ids then (g.node? id).map Node.clearInputs else g.node? id := by
  induction ids generalizing g with
  | nil => rfl
  | cons k rest ih =>
    obtain ⟨hnew, hrest⟩ := List.nodup_cons.1 hn
    rw [List.map_cons, replay_cons, ih (hg.enact _) hrest]
    by_cases hid : id = k
    · subst hid
      rw [if_neg hnew, if_pos List.mem_cons_self, enact, node?_reindex]
      cases hnode : g.node? id with
      | none => rw [modifyNode_of_none hnode, hnode]; rfl
      | some n =>
        have hown : n.clearInputs.id = id := show n.id = id from hg.named hnode
        rw [modifyNode_of_some hnode, node?_evolve, if_pos hown]
        rfl
    · have hother : g.concerned (.clear k) ≠ some id := fun e => hid (Option.some.inj e).symm
      rw [node?_enact_other hg hother]
      simp [hid]

end Graph

namespace Run

variable {r r' : Run} {wires : List Wire} {limit : Nat} {acts : List Act} {turn : NodeId → Memory × Output}

/-- A script that ends at once is carried out to its end. -/
theorem perform_prompt {node : NodeId} {script : Script} {r : Run} {n : Node} {result : Except NodeError Output}
    {memory : Memory} (hn : r.graph.node? node = some n) (hid : n.id = node)
    (h : script.Prompt n.memory result memory) : (perform node script r).1 = .finished result ∧
      (perform node script r).2.graph = r.graph.setNode { n with memory } := by
  have hsame : r.graph.setNode n = r.graph := by
    unfold Graph.setNode
    rw [Table.set_of_find? (by rw [hid]; exact hn)]
  generalize hm : n.memory = m at h
  induction h generalizing r n with
  | finish => exact ⟨rfl, by rw [← hm]; exact hsame.symm⟩
  | emit _ ih => exact ih (r := r.publish _) hn hid hsame hm
  | log _ ih => exact ih (r := { r with log := _ }) hn hid hsame hm
  | @remember m m₁ m' rest result _ ih =>
    have hmodify : (r.modifyNode node fun n => { n with memory := m₁ }).graph = r.graph.setNode { n with memory := m₁ } := by
      simp only [modifyNode, Graph.modifyNode, hn]
    have hnode : (r.modifyNode node fun n => { n with memory := m₁ }).graph.node? node = some { n with memory := m₁ } := by
      rw [hmodify, Graph.node?_setNode, if_pos hid]
    obtain ⟨hstop, hgraph⟩ := ih hnode hid (by rw [hmodify]; simp [Graph.setNode]) rfl
    refine ⟨hstop, ?_⟩
    rw [perform, hgraph, hmodify]
    simp [Graph.setNode]

/-! ### Activations under way -/

/-- The activations of some nodes began in a graph: some can go on, some have ended and are not settled yet, and the others
are settled. -/
structure Underway (turn : NodeId → Memory × Output) (g₀ : Graph) (ids : List NodeId) (batch : Batch) (g : Graph) : Prop where
  ready : batch.ready = ids
  failures : batch.failures = []
  asleep : batch.asleep = []
  apart : batch.pending.Nodup
  awaited : batch.pending ⊆ ids
  runnable : ∀ t ∈ batch.runnable, ∃ n, g₀.node? t.node = some n ∧ g.node? t.node = some n.prepare.2 ∧
    ∃ context iteration, t.script = n.script context iteration
  finished : ∀ f ∈ batch.finished, f.result = .ok (turn f.node).2 ∧
    ∃ n, g₀.node? f.node = some n ∧ g.node? f.node = some { n.prepare.2 with memory := (turn f.node).1 }
  settled : ∀ id ∈ ids, id ∉ batch.pending → ∃ n s, g₀.node? id = some n ∧
    g.node? id = some (({ n.prepare.2 with memory := (turn id).1 } : Node).complete (.ok (turn id).2) s).2.1
  others : ∀ id ∉ ids, g.node? id = g₀.node? id

section Underway

variable {g₀ : Graph} {ids : List NodeId} {batch : Batch}

theorem mem_pending_of_runnable {t : Task} (ht : t ∈ batch.runnable) : t.node ∈ batch.pending :=
  List.mem_append_left _ (List.mem_append_left _ (List.mem_map_of_mem ht))

theorem mem_pending_of_finished {f : Finished} (hf : f ∈ batch.finished) : f.node ∈ batch.pending :=
  List.mem_append_right _ (List.mem_map_of_mem hf)

variable (hturn : ∀ id ∈ ids, ∀ n, g₀.node? id = some n → n.Yields (turn id).1 (turn id).2)
  (h : Underway turn g₀ ids batch r.graph) (hg : r.graph.Identified)

include hturn h hg

/-- An activation that goes on comes to its end. -/
theorem Underway.run {task : Task} {node : NodeId} (htask : batch.runnable.find? (·.node = node) = some task)
    (hturned : ∀ batch', (r.runTask batch task (batch.runnable.filter (·.node ≠ node))).phase = .activating batch' →
      batch.Turned batch') :
    ∃ batch', (r.runTask batch task (batch.runnable.filter (·.node ≠ node))).phase = .activating batch' ∧
      Underway turn g₀ ids batch' (r.runTask batch task (batch.runnable.filter (·.node ≠ node))).graph ∧
        batch'.left < batch.left := by
  have hmem := List.mem_of_find?_eq_some htask
  have hnode : task.node = node := by simpa using List.find?_some htask
  obtain ⟨n, hn, hat, context, iteration, hscript⟩ := h.runnable task hmem
  have hprompt := (hturn task.node (h.awaited (mem_pending_of_runnable hmem)) n hn).prompt context iteration
  rw [← hscript] at hprompt
  obtain ⟨hstop, hgraph⟩ := perform_prompt hat (hg.named hat) hprompt
  unfold runTask at hturned ⊢
  rcases hperform : perform task.node task.script r with ⟨stop, r₁⟩
  rw [hperform] at hstop hgraph hturned
  dsimp only at hstop hgraph hturned
  subst hstop
  set batch' : Batch := { batch with
    runnable := batch.runnable.filter (·.node ≠ node)
    finished := batch.finished ++ [⟨task.node, task.startedAt, .ok (turn task.node).2⟩] } with hbatch'
  obtain ⟨-, -, -, hpending⟩ := hturned batch' rfl
  have hperm := hpending h.apart
  have hnodes : ∀ id, r₁.graph.node? id = if task.node = id then
      some { n.prepare.2 with memory := (turn task.node).1 } else r.graph.node? id := fun id => by
    rw [hgraph, Graph.node?_setNode]
    exact if_congr (by rw [show n.prepare.2.id = task.node from hg.named hat]) rfl rfl
  refine ⟨batch', rfl, ⟨h.ready, h.failures, h.asleep, hperm.nodup_iff.2 h.apart, fun id hid => h.awaited (hperm.subset hid),
    fun t ht => ?_, fun f hf => ?_, fun id hid hnot => ?_, fun id hid => ?_⟩, ?_⟩
  · obtain ⟨ht, hne⟩ := List.mem_filter.1 ht
    have hne' : task.node ≠ t.node := fun e => of_decide_eq_true hne (e ▸ hnode)
    rw [hnodes, if_neg hne']
    exact h.runnable t ht
  · rcases List.mem_append.1 hf with hf | hf
    · obtain ⟨hresult, m, hm, hended⟩ := h.finished f hf
      refine ⟨hresult, m, hm, ?_⟩
      rw [hnodes]
      split_ifs with heq
      · obtain rfl : n = m := Option.some.inj (hn.symm.trans (heq ▸ hm))
        rw [heq]
      · exact hended
    · rw [List.mem_singleton.1 hf]
      exact ⟨rfl, n, hn, (hnodes task.node).trans (if_pos rfl)⟩
  · have hne : task.node ≠ id := fun e => hnot (hperm.symm.subset (e ▸ mem_pending_of_runnable hmem))
    obtain ⟨m, s, hm, hsettled⟩ := h.settled id hid fun hmem => hnot (hperm.symm.subset hmem)
    exact ⟨m, s, hm, by rw [hnodes, if_neg hne, hsettled]⟩
  · have hne : task.node ≠ id := fun e => hid (e ▸ h.awaited (mem_pending_of_runnable hmem))
    rw [hnodes, if_neg hne, h.others id hid]
  · have hfewer : (batch.runnable.filter (·.node ≠ node)).length < batch.runnable.length :=
      List.length_filter_lt_length_iff_exists.2 ⟨task, hmem, by simp [hnode]⟩
    simp only [Batch.left, hbatch', List.length_append, List.length_singleton]
    omega

/-- An activation that has ended is settled. -/
theorem Underway.settle (hlegal : g₀.Regular) {f : Finished} {rest : List Finished} (hf : batch.finished = f :: rest) :
    ∃ batch', (r.settle batch f rest).phase = .activating batch' ∧
      Underway turn g₀ ids batch' (r.settle batch f rest).graph ∧ batch'.left < batch.left := by
  have hmem : f ∈ batch.finished := hf ▸ List.mem_cons_self
  obtain ⟨hresult, n, hn, hat⟩ := h.finished f hmem
  have haccepts := (hturn f.node (h.awaited (mem_pending_of_finished hmem)) n hn).accepts
  have hperm := Batch.pending_settle hf
  obtain ⟨hnew, hapart⟩ := List.nodup_cons.1 (hperm.nodup_iff.1 h.apart)
  have hok : r.graph.completion f.node f.result = .ok () := by
    simp only [Graph.completion, hat, hresult]
    exact (Node.turned haccepts (hlegal.legal hn) (turn f.node).1 r.graph.supply).1
  have hgraph : (r.settle batch f rest).graph = r.graph.enact (.settle f.node f.result) :=
    r.complete_graph f.node f.startedAt f.result
  have hother : ∀ id, f.node ≠ id → (r.settle batch f rest).graph.node? id = r.graph.node? id := fun id hne => by
    rw [hgraph]
    exact Graph.node?_enact_other hg fun e => hne (Option.some.inj e)
  have hself : (r.settle batch f rest).graph.node? f.node = some
      (({ n.prepare.2 with memory := (turn f.node).1 } : Node).complete (.ok (turn f.node).2) r.graph.supply).2.1 := by
    rw [hgraph, Graph.enact, Graph.node?_settle hg.isNamed hat, if_pos rfl, hresult]
  have hlines : r.graph.lines [⟨f.node, f.result, r.graph.completion f.node f.result⟩] = [] := by
    rw [hok]
    rfl
  refine ⟨_, settle_phase hg.isNamed batch f rest, ⟨h.ready, by rw [hlines, List.append_nil, h.failures], h.asleep, hapart,
    fun id hid => h.awaited (hperm.symm.subset (List.mem_cons_of_mem _ hid)), fun t ht => ?_, fun f' hf' => ?_,
    fun id hid hnot => ?_, fun id hid => ?_⟩, ?_⟩
  · have hin : t.node ∈ Batch.pending { batch with finished := rest } := mem_pending_of_runnable ht
    rw [hother _ fun e => hnew (e ▸ hin)]
    exact h.runnable t ht
  · have hin : f'.node ∈ Batch.pending { batch with finished := rest } := mem_pending_of_finished hf'
    rw [hother _ fun e => hnew (e ▸ hin)]
    exact h.finished f' (hf ▸ List.mem_cons_of_mem _ hf')
  · by_cases hid' : f.node = id
    · exact ⟨n, r.graph.supply, hid' ▸ hn, hid' ▸ hself⟩
    · obtain ⟨m, s, hm, hsettled⟩ := h.settled id hid fun hin =>
        ((List.mem_cons.1 (hperm.subset hin)).elim (fun e => hid' e.symm) fun hin => hnot hin)
      exact ⟨m, s, hm, (hother id hid').trans hsettled⟩
  · rw [hother id fun e => hid (e ▸ h.awaited (mem_pending_of_finished hmem)), h.others id hid]
  · simp [Batch.left, hf]

end Underway

/-! ### Runs at full speed -/

/-- A run at full speed, in a graph of wires and with some limit to the depth of relays. -/
structure Wired (wires : List Wire) (limit : Nat) (r : Run) : Prop where
  running : r.IsRunning
  limited : r.executor.config.maxRelayDepth = limit
  graph : r.graph.WiredBy wires

theorem Wired.wait (h : r.Wired wires limit) (ms : Nat) : (r.wait ms).Wired wires limit :=
  ⟨⟨h.running.state, h.running.cancelled, h.running.stepping⟩, h.limited, h.graph⟩

/-- A run at full speed has gone on within an iteration. -/
structure Passes (wires : List Wire) (limit : Nat) (r r' : Run) : Prop where
  wired : r'.Wired wires limit
  becomes : r.graph.Becomes r'.graph
  steady : r.Steady r'

theorem Passes.trans {r'' : Run} (h : r.Passes wires limit r') (h' : r'.Passes wires limit r'') :
    r.Passes wires limit r'' :=
  ⟨h'.wired, h.becomes.trans h'.becomes, h.steady.trans h'.steady⟩

/-- A step leads on at full speed, unless the run is over. -/
theorem Wired.step {s : Signal} (h : r.Wired wires limit) (hsilent : Deed.Silent (r.deeds s)) (hs : r.step? s = some r')
    (hfinal : r'.phase.isFinal = false) : r'.Wired wires limit ∧ r.graph.Becomes r'.graph := by
  have hgraph := graph_step h.graph.toIdentified.isNamed hs
  refine ⟨⟨h.running.step hsilent hs hfinal, (config_step hs).symm ▸ h.limited, ?_⟩, ?_⟩
  · rw [hgraph]
    exact h.graph.replay _
  · rw [hgraph]
    exact h.graph.becomes_replay _

theorem Wired.passes {s : Signal} (h : r.Wired wires limit) (hp : r.phase ≠ .boundary) (hsilent : Deed.Silent (r.deeds s))
    (hs : r.step? s = some r') (hfinal : r'.phase.isFinal = false) : r.Passes wires limit r' :=
  ⟨(h.step hsilent hs hfinal).1, (h.step hsilent hs hfinal).2, steady_step hp hs⟩

/-! ### The barrier -/

/-- While activations are under way, none begins. -/
theorem received_activating {batch : Batch} {s : Signal} (hg : r.graph.Named) (hp : r.phase = .activating batch)
    (hs : r.step? s = some r') (id : NodeId) : Act.received id (r.acts s) = [] := by
  have hm := step_moves hg hs
  generalize r.acts s = acts, r'.phase = p at hm
  cases hm with
  | wait | settle => rfl
  | run => exact Act.received_memories ..
  | pass => exact Act.received_clears ..
  | giveUp h =>
    rcases h.acts_eq with ⟨ids, rfl⟩ | ⟨_, _, _, _, hprop, -⟩
    · exact Act.received_resets ..
    · rw [hp] at hprop
      cases hprop
  | turn hp' | report hp' | begin hp' | move hp' | skip hp' | relay hp' | resume hp' | next hp' | finish hp' =>
    rw [hp] at hp'
    cases hp'

section Barrier

variable {g₀ : Graph} {ids : List NodeId} {batch : Batch}

/-- When all activations are settled, the inputs of their nodes are cleared. -/
theorem Underway.pass (hturn : ∀ id ∈ ids, ∀ n, g₀.node? id = some n → n.Yields (turn id).1 (turn id).2)
    (h : Underway turn g₀ ids batch r.graph) (hg : r.graph.Identified) (hlegal : g₀.Regular) (hids : ids.Nodup)
    (hpending : batch.pending = []) :
    (r.passBarrier batch).phase = .propagating ⟨[], ids⟩ ∧ Graph.Turned turn ids g₀ (r.passBarrier batch).graph := by
  have hnodes := Graph.node?_clears hg hids
  rw [passBarrier_of_nil r h.failures, pass_eq, h.ready]
  refine ⟨rfl, fun id hid n hn => ?_, fun id hid => ?_⟩
  · obtain ⟨m, s, hm, hsettled⟩ := h.settled id hid (by rw [hpending]; exact List.not_mem_nil)
    obtain rfl : n = m := Option.some.inj (hn.symm.trans hm)
    rw [hnodes, if_pos hid, hsettled]
    exact ⟨_, rfl, (Node.turned (hturn id hid n hn).accepts (hlegal.legal hn) (turn id).1 s).2⟩
  · rw [hnodes, if_neg hid, h.others id hid]

/-- **A step by which activations go on** brings one of them nearer to its end, or all of them are settled and their nodes are
turned. -/
theorem Underway.step {s : Signal} (hturn : ∀ id ∈ ids, ∀ n, g₀.node? id = some n → n.Yields (turn id).1 (turn id).2)
    (h : Underway turn g₀ ids batch r.graph) (hg : r.graph.Identified) (hlegal : g₀.Regular) (hids : ids.Nodup)
    (hrunning : r.IsRunning) (hp : r.phase = .activating batch) (hgo : s.goesOn = true) (hs : r.step? s = some r') :
    (∃ batch', r'.phase = .activating batch' ∧ Underway turn g₀ ids batch' r'.graph ∧ batch'.left < batch.left) ∨
      r'.phase = .propagating ⟨[], ids⟩ ∧ Graph.Turned turn ids g₀ r'.graph := by
  cases s with
  | drive =>
    simp only [step?, drive?, hp, whileActivating?, hrunning.cancelled, Bool.false_eq_true, if_false] at hs
    cases hf : batch.finished with
    | cons f rest =>
      simp only [hf, Option.some.injEq] at hs
      subst hs
      exact Or.inl (h.settle hturn hg hlegal hf)
    | nil =>
      simp only [hf] at hs
      split_ifs at hs with hdone
      obtain ⟨hrun, -⟩ := Bool.and_eq_true_iff.1 hdone
      have hpending : batch.pending = [] := by
        simp [Batch.pending, hf, List.isEmpty_iff.1 hrun, h.asleep]
      obtain rfl := Option.some.inj hs
      exact Or.inr (h.pass hturn hg hlegal hids hpending)
  | run node =>
    obtain ⟨b, task, hb, htask, hr'⟩ := runNode?_eq_some.1 hs
    cases hp.symm.trans hb
    obtain ⟨b, task', batch', hb, htask', hr'', hturned⟩ := runNode_turned hs
    cases hp.symm.trans hb
    subst hr'
    have hphase : (r.runTask batch task (batch.runnable.filter (·.node ≠ node))).phase = .activating batch' := by
      rw [hr'']
    refine Or.inl (h.run hturn hg htask fun b hb => ?_)
    cases hphase.symm.trans hb
    exact hturned
  | wake node =>
    obtain ⟨b, sleeper, hb, hsleeper, -⟩ := wakeNode?_eq_some.1 hs
    cases hp.symm.trans hb
    rw [h.asleep] at hsleeper
    cases hsleeper
  | control | pass => cases hgo

/-- **An iteration whose activations end at once passes its barrier**, and has turned its nodes then. -/
theorem unfolds_activating (hturn : ∀ id ∈ ids, ∀ n, g₀.node? id = some n → n.Yields (turn id).1 (turn id).2)
    (hlegal : g₀.Regular) (hids : ids.Nodup) (hw : r.Wired wires limit) (hp : r.phase = .activating batch)
    (h : Underway turn g₀ ids batch r.graph) :
    r.Unfolds (fun acts' r' => r'.phase = .propagating ⟨[], ids⟩ ∧ r.Passes wires limit r' ∧
      Graph.Turned turn ids g₀ r'.graph ∧ ∀ id, Act.received id acts' = Act.received id acts) acts := by
  -- by induction on what is left to do
  induction hleft : batch.left using Nat.strong_induction_on generalizing r batch acts with
  | h left ih =>
    refine .onward (can_go_on_activating hp) fun ms s r' hgo hsilent hs => ?_
    have hwait := hw.wait ms
    have hid := hwait.graph.toIdentified
    have hp' : (r.wait ms).phase = .activating batch := hp
    have hreceived : ∀ id, Act.received id (acts ++ (r.wait ms).acts s) = Act.received id acts := fun id => by
      rw [Act.received_append, received_activating hid.isNamed hp' hs, List.append_nil]
    have hpasses : r'.phase.isFinal = false → r.Passes wires limit r' := fun hfinal => by
      obtain ⟨hwired, hbecomes, hsteady⟩ := hwait.passes (by rw [hp']; exact Phase.noConfusion) hsilent hs hfinal
      exact ⟨hwired, hbecomes, hsteady.iteration, hsteady.fired⟩
    have hunder : Underway turn g₀ ids batch (r.wait ms).graph := h
    rcases hunder.step hturn hid hlegal hids hwait.running hp' hgo hs with ⟨batch', hphase, hlater, hless⟩ | ⟨hphase, hturned⟩
    · have hfirst := hpasses (by rw [hphase]; rfl)
      refine (ih _ (hleft ▸ hless) hfirst.wired hphase hlater rfl).mono fun acts' r'' h => ?_
      obtain ⟨hphase', hrest, hturned, hacts⟩ := h
      exact ⟨hphase', hfirst.trans hrest, hturned, fun id => (hacts id).trans (hreceived id)⟩
    · exact .here ⟨hphase, hpasses (by rw [hphase]; rfl), hturned, hreceived⟩

end Barrier

/-! ### Whole iterations -/

/-- An iteration has activated some nodes, and their outputs are still to be moved. -/
structure Round (turn : NodeId → Memory × Output) (wires : List Wire) (limit : Nat) (r : Run) (acts : List Act)
    (ids : List NodeId) (acts' : List Act) (r' : Run) : Prop where
  phase : r'.phase = .propagating ⟨[], ids⟩
  wired : r'.Wired wires limit
  becomes : r.graph.Becomes r'.graph
  apart : ids.Nodup
  ready : ∀ id, id ∈ ids ↔ r.graph.wants r.firedSources id = true
  iteration : r'.iteration = r.iteration + 1
  fired : ∀ id, id ∈ r'.firedSources ↔ id ∈ r.firedSources ∨ id ∈ ids ∧ r.graph.connectedInputs id = []
  turned : r.graph.Turned turn ids r'.graph
  received : ∀ id n, r.graph.node? id = some n →
    Act.received id acts' = Act.received id acts ++ if id ∈ ids then [n.prepare.1.inputs] else []

/-- An iteration begins with the activations of the nodes of its scan. -/
theorem underway_begin {ready fired : List NodeId} (hg : r.graph.Identified)
    (hready : collectReady r.graph r.graph.nodeList r.firedSources = (ready, fired)) (hsome : ready ≠ []) :
    ∃ batch, r.beginIteration.phase = .activating batch ∧ Underway turn r.graph ready batch r.beginIteration.graph := by
  have hnodup : ready.Nodup := by simpa only [hready] using nodup_collectReady hg r.firedSources
  have hpresent : ∀ id ∈ ready, (r.graph.node? id).isSome := by
    intro id hid
    obtain ⟨n, hn, rfl⟩ := mem_collectReady (g := r.graph) (show id ∈ (collectReady _ _ r.firedSources).1 by rwa [hready])
    rw [(Graph.mem_nodeList hg).1 hn]
    rfl
  have hgraph := r.beginIteration_graph hg.isNamed
  rw [hready] at hgraph
  have hnodes : ∀ id, (r.graph.replay (preparing (r.iteration + 1) r.context ready r.graph)).node? id =
      if id ∈ ready then (r.graph.node? id).map fun n => n.prepare.2 else r.graph.node? id :=
    node?_preparing hg.isNamed hnodup
  rw [hgraph, beginIteration_eq hready, if_neg (by simpa using hsome)]
  have htasks : (spawn ready 0 (r.opened fired)).1.map Task.node = ready := spawn_tasks hpresent
  have hpending : Batch.pending ⟨ready, (spawn ready 0 (r.opened fired)).1, [], [], [], []⟩ = ready := by
    simp only [Batch.pending, htasks, List.map_nil, List.append_nil]
  refine ⟨_, rfl, rfl, rfl, rfl, hpending.symm ▸ hnodup, fun id hid => hpending ▸ hid, fun t ht => ?_,
    fun f hf => absurd hf List.not_mem_nil, fun id hid hnot => absurd (hpending.symm ▸ hid) hnot, fun id hid => ?_⟩
  · obtain ⟨place, n, -, hplace, hn, hscript⟩ := spawn_begins (r := r.opened fired) hg.isNamed hnodup hpresent t ht
    refine ⟨n, hn, ?_, r.context, r.iteration + 1, hscript⟩
    rw [hnodes, if_pos (List.mem_of_getElem? hplace), show r.graph.node? t.node = some n from hn, Option.map_some]
  · rw [hnodes, if_neg hid]

/-- **An iteration begins and turns all nodes of its scan**, if their activations end at once. -/
theorem unfolds_round (hw : r.Wired wires limit) (hp : r.phase = .boundary)
    (hsome : ∃ id, r.graph.wants r.firedSources id = true)
    (hturn : ∀ id n, r.graph.wants r.firedSources id = true → r.graph.node? id = some n →
      n.Yields (turn id).1 (turn id).2) :
    r.Unfolds (fun acts' r' => ∃ ids, Round turn wires limit r acts ids acts' r') acts := by
  refine .of_drive (by rw [hp]; rfl) (fun ms => by simp [step?, drive?, wait, hp]) fun ms r' hs hsilent => ?_
  have hwait := hw.wait ms
  have hid := hw.graph.toIdentified
  rcases hscan : collectReady r.graph r.graph.nodeList r.firedSources with ⟨ready, fired⟩
  have hnodup : ready.Nodup := by simpa only [hscan] using nodup_collectReady hid r.firedSources
  have hready : ∀ id, id ∈ ready ↔ r.graph.wants r.firedSources id = true := fun id => by
    rw [← Graph.mem_scan hid, hscan]
  have hfired : ∀ id, id ∈ fired ↔ id ∈ r.firedSources ∨ id ∈ ready ∧ r.graph.connectedInputs id = [] := fun id => by
    have h := Graph.mem_scanned (g := r.graph) r.graph.nodeList r.firedSources id
    rwa [hscan] at h
  have hne : ready ≠ [] := by
    obtain ⟨id, hwants⟩ := hsome
    exact List.ne_nil_of_mem ((hready id).2 hwants)
  obtain rfl : (r.wait ms).beginIteration = r' := by
    have hstep : (r.wait ms).phase = .boundary := hp
    simpa only [step?, drive?, hstep, atBoundary_of_running hwait.running.cancelled hwait.running.state,
      Option.some.injEq] using hs
  obtain ⟨batch, hphase, hunder⟩ : ∃ batch, (r.wait ms).beginIteration.phase = .activating batch ∧
      Underway turn r.graph ready batch (r.wait ms).beginIteration.graph := underway_begin (r := r.wait ms) hid hscan hne
  obtain ⟨hwired, hbecomes⟩ := hwait.step hsilent hs (by rw [hphase]; rfl)
  have hbegun : (r.wait ms).beginIteration.iteration = r.iteration + 1 ∧
      (r.wait ms).beginIteration.firedSources = fired := by
    rw [beginIteration_eq (r := r.wait ms) hscan, if_neg (by simpa using hne), spawn_eq]
    exact ⟨rfl, rfl⟩
  have hacts : (r.wait ms).acts .drive = preparing (r.iteration + 1) r.context ready r.graph := by
    have hstep : (r.wait ms).phase = .boundary := hp
    simp only [Run.acts, driving, hstep, hwait.running.cancelled, hwait.running.state, Bool.false_eq_true, if_false]
    rw [show (r.wait ms).graph = r.graph from rfl, show (r.wait ms).firedSources = r.firedSources from rfl, hscan]
    rfl
  refine (unfolds_activating (fun id hmem n hn => hturn id n ((hready id).1 hmem) hn) hw.graph.toRegular hnodup hwired hphase
    hunder).mono fun acts' r' h => ?_
  obtain ⟨hphase', hpasses, hturned, hreceived⟩ := h
  refine ⟨ready, hphase', hpasses.wired, hbecomes.trans hpasses.becomes, hnodup, hready, ?_, fun id => ?_, hturned,
    fun id n hn => ?_⟩
  · rw [hpasses.steady.iteration, hbegun.1]
  · rw [hpasses.steady.fired, hbegun.2, hfired]
  · rw [hreceived, Act.received_append, hacts, Graph.received_preparing hid.isNamed hnodup _ _ hn]

/-- A run is over with some outcome, after some number of iterations. -/
def IsOver (outcome : Outcome) (count : Nat) (r : Run) : Prop :=
  ∃ result, r.phase = .over result ∧ result.outcome = outcome ∧ result.iterations = count

/-- A run that is about to report its outcome does so. -/
theorem unfolds_ending {outcome : Outcome} (hp : r.phase = .ending outcome) :
    r.Unfolds (fun acts' r' => r'.IsOver outcome r.iteration ∧ acts' = acts) acts := by
  refine .of_drive (by rw [hp]; rfl) (fun ms => by simp [step?, drive?, wait, hp]) fun ms r' hs _ => ?_
  have hstep : (r.wait ms).phase = .ending outcome := hp
  have hacts : (r.wait ms).acts .drive = [] := by simp only [Run.acts, driving, hstep]
  simp only [step?, drive?, hstep, Option.some.injEq] at hs
  subst hs
  exact .here ⟨⟨_, rfl, rfl, rfl⟩, by rw [hacts, List.append_nil]⟩

/-- **A run without ready nodes ends**, completed. -/
theorem unfolds_quiet (hw : r.Wired wires limit) (hp : r.phase = .boundary)
    (hnone : ∀ id, r.graph.wants r.firedSources id = false) :
    r.Unfolds (fun acts' r' => r'.IsOver .completed r.iteration ∧ acts' = acts) acts := by
  refine .of_drive (by rw [hp]; rfl) (fun ms => by simp [step?, drive?, wait, hp]) fun ms r' hs hsilent => ?_
  have hwait := hw.wait ms
  have hstep : (r.wait ms).phase = .boundary := hp
  rcases hscan : collectReady r.graph r.graph.nodeList r.firedSources with ⟨ready, fired⟩
  obtain rfl : ready = [] := List.eq_nil_iff_forall_not_mem.2 fun id hid => by
    have hwants : r.graph.wants r.firedSources id = true :=
      (Graph.mem_scan hw.graph.toIdentified).1 (by rw [hscan]; exact hid)
    rw [hnone] at hwants
    cases hwants
  simp only [step?, drive?, hstep, atBoundary_of_running hwait.running.cancelled hwait.running.state,
    beginIteration_eq (r := r.wait ms) hscan, Option.some.injEq, List.isEmpty_nil, if_true] at hs
  have hacts : (r.wait ms).acts .drive = [] := by
    simp only [Run.acts, driving, hstep, hwait.running.cancelled, hwait.running.state, Bool.false_eq_true, if_false]
    rw [show (r.wait ms).graph = r.graph from rfl, show (r.wait ms).firedSources = r.firedSources from rfl, hscan]
    rfl
  have hend : r'.phase = .ending .completed ∧ r'.iteration = r.iteration := by
    rw [← hs]
    exact ⟨rfl, rfl⟩
  rw [hacts, List.append_nil, ← hend.2]
  exact unfolds_ending hend.1

end Run

end Dataflow
