import Dataflow.Executor.Run
import Dataflow.Proofs.Graph.Editing
import Dataflow.Proofs.Graph.Transfer

/-!
# What a run does to its graph

Every step of a run changes the graph by a list of acts. Properties of runs are stated about these lists,
and proved act by act.

* `Act` lists what may happen to a graph in a run, `Graph.enact` is what each act changes;
* `Run.acts` are the acts of a step;
* `Run.perform_graph` and those after it say which acts each function of the driver comes to, and `Run.perform_eq` and
  those after it what else changes;
* `Graph.enact_cases`: an act lets at most one node evolve, so that graphs stay well formed;
* `Graph.supply_enact_le`: identifiers that were used stay used.
-/

namespace Dataflow

/-- What may happen to a graph in a run. -/
inductive Act where
  /-- An activation begins, and its node consumes its inputs. -/
  | prepare (activation : Activation)
  /-- A node remembers something else from now on. -/
  | remember (node : NodeId) (memory : Memory)
  /-- An activation has ended, and its node writes its outputs. -/
  | settle (node : NodeId) (result : Except NodeError Output)
  /-- A node forgets how its activation went. -/
  | reset (node : NodeId)
  /-- The consumed inputs of a node are cleared. -/
  | clear (node : NodeId)
  /-- The unread outputs of a node are taken. -/
  | take (node : NodeId)
  /-- A value is offered to a port. -/
  | offer (offer : Offer)
  /-- The transfers from a node are published. -/
  | publish (node : NodeId) (transfers : List Transfer)

namespace Graph

/-- The answer of a node to the end of its activation. -/
def completion (g : Graph) (id : NodeId) (result : Except NodeError Output) : Except NodeError Unit :=
  match g.node? id with
  | none => .ok ()
  | some n => (n.complete result g.supply).1

/-- The graph after the end of an activation. -/
def settle (g : Graph) (id : NodeId) (result : Except NodeError Output) : Graph :=
  match g.node? id with
  | none => g
  | some n => (g.evolve (n.complete result g.supply).2.1 (n.complete result g.supply).2.2).reindex id

/-- The unread outputs of a node. -/
def taken (g : Graph) (id : NodeId) : List (PortId × Value) :=
  match g.node? id with
  | none => []
  | some n => (takeUnread (g.feedingPorts n) n).1

/-- The graph after the unread outputs of a node were taken. -/
def take (g : Graph) (id : NodeId) : Graph :=
  match g.node? id with
  | none => g
  | some n => g.setNode (takeUnread (g.feedingPorts n) n).2

/-- The answer to an offer: none if it is passed over, else the value as stored, or the refusal. -/
def answer? (g : Graph) (o : Offer) : Option (Except GraphError (Value × Graph)) :=
  if g.skips o.edge then none else some (g.write o.edge.target o.value)

/-- The graph after an act. -/
def enact (g : Graph) : Act → Graph
  | .prepare a => g.modifyNode a.node fun n => n.prepare.2
  | .remember id memory => g.modifyNode id fun n => { n with memory }
  | .settle id result => g.settle id result
  | .reset id => g.modifyNode id Node.resetStatus
  | .clear id => (g.modifyNode id Node.clearInputs).reindex id
  | .take id => g.take id
  | .offer o =>
    match g.answer? o with
    | some (.ok (_, g)) => g
    | _ => g
  | .publish .. => g

/-- The graph after some acts. -/
def replay (g : Graph) (acts : List Act) : Graph :=
  acts.foldl enact g

@[simp] theorem replay_nil (g : Graph) : g.replay [] = g := rfl

@[simp] theorem replay_cons (g : Graph) (act : Act) (acts : List Act) :
    g.replay (act :: acts) = (g.enact act).replay acts := rfl

theorem replay_append (g : Graph) (acts acts' : List Act) :
    g.replay (acts ++ acts') = (g.replay acts).replay acts' :=
  List.foldl_append

/-- Offers made one after the other, up to the first refused one. -/
def offering : List Offer → Graph → List Act
  | [], _ => []
  | o :: rest, g =>
    .offer o :: match g.answer? o with
      | some (.error _) => []
      | _ => offering rest (g.enact (.offer o))

/-! ### Acts let nodes evolve -/

/-- Nodes are stored under their identifiers. -/
def Named (g : Graph) : Prop :=
  ∀ id n, g.node? id = some n → n.id = id

theorem Identified.isNamed {g : Graph} (hg : g.Identified) : g.Named :=
  fun _ _ h => hg.named h

theorem Named.setNode {g : Graph} (hg : g.Named) (n : Node) : (g.setNode n).Named := by
  intro id m h
  rw [node?_setNode] at h
  split_ifs at h with heq
  · cases h
    exact heq
  · exact hg id m h

theorem modifyNode_of_some {g : Graph} {id : NodeId} {n : Node} (h : g.node? id = some n) (f : Node → Node) :
    g.modifyNode id f = g.evolve (f n) g.supply := by
  simp only [modifyNode, h]
  rfl

theorem modifyNode_of_none {g : Graph} {id : NodeId} (h : g.node? id = none) (f : Node → Node) :
    g.modifyNode id f = g := by
  simp only [modifyNode, h]

theorem feedingPorts_subset (g : Graph) (n : Node) : ∀ p ∈ g.feedingPorts n, p ∈ n.outputIds :=
  fun _ h => (List.mem_filter.1 h).1

/-- The node that an act may change. -/
def concerned (g : Graph) : Act → Option NodeId
  | .prepare a => some a.node
  | .remember id _ | .settle id _ | .reset id | .clear id | .take id => some id
  | .offer o => g.ownerOf? o.edge.target
  | .publish .. => none

/-- An act changes nothing, or lets the node evolve that it concerns. Afterwards the node keeps its ports, or they
are entered again. -/
theorem enact_cases {g : Graph} (hg : g.Identified) (act : Act) :
    g.enact act = g ∨ ∃ (n n' : Node) (s' : Supply), g.concerned act = some n.id ∧ g.node? n.id = some n ∧
      n.Evolves g.supply s' n' ∧ (g.enact act = g.evolve n' s' ∧ n'.portIds = n.portIds ∨
        g.enact act = (g.evolve n' s').reindex n.id) := by
  have hmodify : ∀ id (f : Node → Node), (∀ n : Node, n.Evolves g.supply g.supply (f n)) →
      (∀ n : Node, (f n).portIds = n.portIds) →
      g.modifyNode id f = g ∨ ∃ (n n' : Node) (s' : Supply), some id = some n.id ∧ g.node? n.id = some n ∧
        n.Evolves g.supply s' n' ∧ (g.modifyNode id f = g.evolve n' s' ∧ n'.portIds = n.portIds ∨
          g.modifyNode id f = (g.evolve n' s').reindex n.id) := by
    intro id f hf hids
    cases hn : g.node? id with
    | none => exact Or.inl (modifyNode_of_none hn f)
    | some n =>
      obtain rfl := hg.named hn
      exact Or.inr ⟨n, f n, g.supply, rfl, hn, hf n, Or.inl ⟨modifyNode_of_some hn f, hids n⟩⟩
  cases act with
  | prepare a => exact hmodify a.node _ (fun n => n.evolves_prepare g.supply) fun n => n.portIds_prepare
  | remember id memory =>
    exact hmodify id _ (fun n => n.evolves_status g.supply n.status n.lastError memory) fun _ => rfl
  | reset id => exact hmodify id _ (fun n => n.evolves_status g.supply .idle none n.memory) fun _ => rfl
  | clear id =>
    cases hn : g.node? id with
    | none =>
      refine Or.inl ?_
      have h : (g.reindex id) = g := by simp only [reindex, hn]
      rw [enact, modifyNode_of_none hn, h]
    | some n =>
      obtain rfl := hg.named hn
      refine Or.inr ⟨n, n.clearInputs, g.supply, rfl, hn, n.evolves_clearInputs g.supply, Or.inr ?_⟩
      rw [enact, modifyNode_of_some hn]
  | settle id result =>
    cases hn : g.node? id with
    | none => exact Or.inl (by simp only [enact, settle, hn])
    | some n =>
      obtain rfl := hg.named hn
      refine Or.inr ⟨n, _, _, rfl, hn, n.evolves_complete result g.supply, Or.inr ?_⟩
      simp only [enact, settle, hn]
  | take id =>
    cases hn : g.node? id with
    | none => exact Or.inl (by simp only [enact, take, hn])
    | some n =>
      obtain rfl := hg.named hn
      have hm := marked_takeUnread (hg.ordered hn) (hg.distinct hn) (g.feedingPorts_subset n)
      refine Or.inr ⟨n, _, g.supply, rfl, hn, hm.evolves g.supply, Or.inl ⟨?_, hm.portIds⟩⟩
      simp only [enact, take, hn]
      rfl
  | offer o =>
    simp only [enact]
    split
    · rename_i w g' hanswer
      unfold answer? at hanswer
      split_ifs at hanswer
      obtain ⟨owner, n, n', s', howner, hn, hw, rfl⟩ := write_eq_ok (Option.some.inj hanswer)
      obtain rfl := hg.named hn
      exact Or.inr ⟨n, n', s', howner, hn, Node.evolves_write hw, Or.inr rfl⟩
    · exact Or.inl rfl
  | publish => exact Or.inl rfl

/-- An act does not touch a node that it does not concern. -/
theorem node?_enact_other {g : Graph} (hg : g.Identified) {act : Act} {id : NodeId}
    (h : g.concerned act ≠ some id) : (g.enact act).node? id = g.node? id := by
  rcases enact_cases hg act with he | ⟨n, n', s', hc, -, hevolves, ⟨he, -⟩ | he⟩
  · rw [he]
  · rw [he, node?_evolve, if_neg]
    rw [hevolves.id]
    exact fun e => h (hc.trans (congrArg some e))
  · rw [he, node?_reindex, node?_evolve, if_neg]
    rw [hevolves.id]
    exact fun e => h (hc.trans (congrArg some e))

theorem edges_reindex (g : Graph) (id : NodeId) :
    (g.reindex id).order = g.order ∧ (g.reindex id).edgeSet = g.edgeSet ∧ (g.reindex id).flagged = g.flagged ∧
      (g.reindex id).outEdges = g.outEdges ∧ (g.reindex id).inEdges = g.inEdges := by
  simp only [reindex_order, reindex_edgeSet, reindex_flagged, reindex_outEdges, reindex_inEdges, and_self]

/-- No act touches the nodes that are listed, or the edges. -/
theorem edges_enact (g : Graph) (act : Act) :
    (g.enact act).order = g.order ∧ (g.enact act).edgeSet = g.edgeSet ∧ (g.enact act).flagged = g.flagged ∧
      (g.enact act).outEdges = g.outEdges ∧ (g.enact act).inEdges = g.inEdges := by
  have hmodify : ∀ id f, (g.modifyNode id f).order = g.order ∧ (g.modifyNode id f).edgeSet = g.edgeSet ∧
      (g.modifyNode id f).flagged = g.flagged ∧ (g.modifyNode id f).outEdges = g.outEdges ∧
        (g.modifyNode id f).inEdges = g.inEdges := by
    intro id f
    unfold modifyNode
    split <;> exact ⟨rfl, rfl, rfl, rfl, rfl⟩
  cases act with
  | prepare | remember | reset => exact hmodify _ _
  | settle id result =>
    simp only [enact, settle]
    split
    · exact ⟨rfl, rfl, rfl, rfl, rfl⟩
    · exact edges_reindex ..
  | clear id =>
    obtain ⟨horder, hset, hflagged, hout, hin⟩ := edges_reindex (g.modifyNode id Node.clearInputs) id
    simp only [enact, horder, hset, hflagged, hout, hin]
    exact hmodify id _
  | take id =>
    simp only [enact, take]
    split <;> exact ⟨rfl, rfl, rfl, rfl, rfl⟩
  | offer o =>
    simp only [enact]
    split
    · rename_i hanswer
      unfold answer? at hanswer
      split_ifs at hanswer
      obtain ⟨owner, n, n', s', -, -, -, rfl⟩ := write_eq_ok (Option.some.inj hanswer)
      exact edges_reindex ..
    · exact ⟨rfl, rfl, rfl, rfl, rfl⟩
  | publish => exact ⟨rfl, rfl, rfl, rfl, rfl⟩

theorem outgoing_enact (g : Graph) (act : Act) (p : PortId) :
    (g.enact act).outgoing p = g.outgoing p := by
  rw [outgoing, (edges_enact g act).2.2.2.1, outgoing]

theorem isEdgeValid_enact (g : Graph) (act : Act) (e : Edge) :
    (g.enact act).isEdgeValid e = g.isEdgeValid e := by
  rw [isEdgeValid, (edges_enact g act).2.1, (edges_enact g act).2.2.1, isEdgeValid]

theorem Identified.enact {g : Graph} (hg : g.Identified) (act : Act) : (g.enact act).Identified := by
  rcases enact_cases hg act with h | ⟨n, n', s', -, hn, he, ⟨h, -⟩ | h⟩ <;> rw [h]
  · exact hg
  · exact hg.evolve hn he.toRenews
  · exact (hg.evolve hn he.toRenews).reindex n.id

theorem WellFormed.enact {g : Graph} (hg : g.WellFormed) (act : Act) : (g.enact act).WellFormed := by
  rcases enact_cases hg.toIdentified act with h | ⟨n, n', s', -, hn, he, ⟨h, -⟩ | h⟩ <;> rw [h]
  · exact hg
  · exact hg.evolve hn he
  · exact (hg.evolve hn he).reindex n.id

theorem Regular.enact {g : Graph} (hg : g.Regular) (act : Act) : (g.enact act).Regular := by
  rcases enact_cases hg.toIdentified act with h | ⟨n, n', s', -, hn, he, ⟨h, hids⟩ | h⟩ <;> rw [h]
  · exact hg
  · exact hg.retain hn he.toRenews (he.legal (hg.legal hn)) hids
  · exact hg.renew hn he.toRenews (he.legal (hg.legal hn))

theorem Owned.enact {g : Graph} (ho : g.Owned) (hg : g.Identified) (act : Act) : (g.enact act).Owned := by
  rcases enact_cases hg act with h | ⟨n, n', s', -, hn, he, ⟨h, hids⟩ | h⟩ <;> rw [h]
  · exact ho
  · exact ho.retain hn he.id hids s'
  · exact ho.renew hg hn he.toRenews

theorem Identified.replay {g : Graph} (hg : g.Identified) (acts : List Act) : (g.replay acts).Identified := by
  induction acts generalizing g with
  | nil => exact hg
  | cons act acts ih => exact ih (hg.enact act)

theorem supply_enact_le {g : Graph} (hg : g.Identified) (act : Act) : g.supply.next ≤ (g.enact act).supply.next := by
  rcases enact_cases hg act with h | ⟨n, n', s', -, -, he, ⟨h, -⟩ | h⟩ <;> rw [h]
  · exact he.le
  · rw [reindex_supply]
    exact he.le

theorem supply_replay_le {g : Graph} (hg : g.Identified) (acts : List Act) :
    g.supply.next ≤ (g.replay acts).supply.next := by
  induction acts generalizing g with
  | nil => exact le_rfl
  | cons act acts ih => exact (supply_enact_le hg act).trans (ih (hg.enact act))

theorem order_replay (g : Graph) (acts : List Act) : (g.replay acts).order = g.order := by
  induction acts generalizing g with
  | nil => rfl
  | cons act acts ih => rw [replay_cons, ih, (edges_enact g act).1]

theorem outgoing_replay (g : Graph) (acts : List Act) (p : PortId) :
    (g.replay acts).outgoing p = g.outgoing p := by
  induction acts generalizing g with
  | nil => rfl
  | cons act acts ih => rw [replay_cons, ih, outgoing_enact]

theorem isEdgeValid_replay (g : Graph) (acts : List Act) (e : Edge) :
    (g.replay acts).isEdgeValid e = g.isEdgeValid e := by
  induction acts generalizing g with
  | nil => rfl
  | cons act acts ih => rw [replay_cons, ih, isEdgeValid_enact]

theorem WellFormed.replay {g : Graph} (hg : g.WellFormed) (acts : List Act) : (g.replay acts).WellFormed := by
  induction acts generalizing g with
  | nil => exact hg
  | cons act acts ih => exact ih (hg.enact act)

theorem Regular.replay {g : Graph} (hg : g.Regular) (acts : List Act) : (g.replay acts).Regular := by
  induction acts generalizing g with
  | nil => exact hg
  | cons act acts ih => exact ih (hg.enact act)

/-! ### Moving outputs -/

theorem deliver_graph (offers : List Offer) (d : Delivery) :
    (deliver offers d).graph = d.graph.replay (offering offers d.graph) := by
  induction offers generalizing d with
  | nil => rfl
  | cons o rest ih =>
    unfold deliver offering
    by_cases hs : d.graph.skips o.edge = true
    · have hanswer : d.graph.answer? o = none := by rw [answer?, if_pos hs]
      simp only [hs, if_true, ih, replay_cons, enact, hanswer]
    · have hanswer : d.graph.answer? o = some (d.graph.write o.edge.target o.value) := by rw [answer?, if_neg hs]
      rw [if_neg hs]
      cases hw : d.graph.write o.edge.target o.value with
      | error e => simp only [hanswer, hw, replay_cons, enact, replay_nil]
      | ok r =>
        obtain ⟨w, g'⟩ := r
        simp only [hanswer, hw, ih, replay_cons, enact]

/-- The acts by which the outputs of a node are moved. -/
def moving (g : Graph) (id : NodeId) : List Act :=
  .take id :: offering ((g.take id).offers (g.taken id)) (g.take id) ++
    if (g.transferOutputs id).transfers.isEmpty then [] else [.publish id (g.transferOutputs id).transfers]

theorem transferOutputs_eq (g : Graph) (id : NodeId) :
    g.transferOutputs id = deliver ((g.take id).offers (g.taken id)) ⟨g.take id, [], [], none⟩ := by
  cases hn : g.node? id with
  | none => simp only [transferOutputs, take, taken, hn]; rfl
  | some n => simp only [transferOutputs, take, taken, hn]

theorem transferOutputs_graph (g : Graph) (id : NodeId) :
    (g.transferOutputs id).graph = g.replay (g.moving id) := by
  rw [transferOutputs_eq, deliver_graph, moving, List.cons_append, replay_cons, replay_append]
  split_ifs <;> rfl

end Graph

namespace Run

/-! ### The acts of a step -/

/-- The acts of a script up to its next wait or its end. -/
def performing (node : NodeId) : Script → Run → List Act
  | .finish _, _ | .panic _, _ | .sleep .., _ => []
  | .emit event rest, r => performing node rest (r.publish (.nodeEvent node event))
  | .control call rest, r =>
    performing node (rest (r.executor.call call).1 (r.executor.call call).2.state)
      { r with executor := (r.executor.call call).2 }
  | .log entry rest, r => performing node rest { r with log := r.log ++ [entry] }
  | .remember memory rest, r =>
    .remember node memory :: performing node rest (r.modifyNode node fun n => { n with memory })

/-- The acts by which the activations of an iteration begin. -/
def preparing (iteration : Nat) (context : Context) : List NodeId → Graph → List Act
  | [], _ => []
  | id :: rest, g =>
    match g.node? id with
    | none => preparing iteration context rest g
    | some n =>
      .prepare (n.activation n.prepare.1 iteration context) ::
        preparing iteration context rest (g.setNode n.prepare.2)

/-- The acts after the activation of a relay has got as far as `stop`. -/
def ending (node : NodeId) (g : Graph) : Stop → List Act
  | .finished result =>
    .settle node result :: match g.completion node result with
      | .ok () => [.clear node]
      | .error _ => []
  | .panicked _ | .asleep .. => []

/-- The acts of an activation that goes on, and of its end. -/
def carrying (r : Run) (node : NodeId) (script : Script) : List Act :=
  performing node script r ++ ending node (perform node script r).2.graph (perform node script r).1

/-- The acts by which a relay is activated. -/
def relaying (r : Run) (n : Node) : List Act :=
  let r := r.publish (.nodeStarted n.id n.typeId)
  if r.executor.cancelled then [.reset n.id]
  else .prepare (n.activation n.prepare.1 r.iteration r.context) :: (r.prepare n).2.carrying n.id (r.prepare n).1

/-- The acts of a step of the driver. -/
def driving (r : Run) : List Act :=
  match r.phase with
  | .boundary =>
    if r.executor.cancelled then []
    else match r.executor.state with
      | .running | .stepping =>
        preparing (r.iteration + 1) r.context (collectReady r.graph r.graph.nodeList r.firedSources).1 r.graph
      | .paused | .idle => []
  | .activating batch =>
    if r.executor.cancelled then (batch.ready.filter fun id => !batch.settled.contains id).map .reset
    else match batch.finished with
      | f :: _ => [.settle f.node f.result]
      | [] =>
        if batch.runnable.isEmpty && batch.asleep.isEmpty && batch.failures.isEmpty then batch.ready.map .clear
        else []
  | .propagating agenda =>
    match agenda.work with
    | .propagate id _ :: _ => r.graph.moving id
    | .activate id depth :: _ =>
      match r.graph.node? id with
      | none => []
      | some n => if r.graph.isReady id && depth ≤ r.executor.config.maxRelayDepth then r.relaying n else []
    | [] => []
  | .relaying relay _ _ =>
    if r.executor.cancelled then [.reset relay.task.node]
    else if relay.wakeAt ≤ r.now then r.carrying relay.task.node relay.task.script
    else []
  | .parked | .delaying _ | .ending _ | .over _ | .broken _ => []

/-- The acts of a step. -/
def acts (r : Run) : Signal → List Act
  | .drive => r.driving
  | .run node =>
    match r.phase with
    | .activating batch =>
      match batch.runnable.find? (·.node = node) with
      | some task => performing task.node task.script r
      | none => []
    | _ => []
  | .wake _ | .control _ | .pass _ => []

/-! ### What changes in a run, function by function -/

/-- A wait changes nothing, whether it fails at once or not. -/
theorem perform_sleep (node : NodeId) (ms : Nat) (heedsCancel : Bool) (rest : Script) (r : Run) :
    perform node (.sleep ms heedsCancel rest) r =
      (if heedsCancel && r.executor.cancelled then .finished (.error .cancelled) else .asleep ms rest, r) := by
  unfold perform
  split_ifs <;> rfl

/-- A script changes the executor, the memory of its node and the log. -/
theorem perform_eq (node : NodeId) (script : Script) (r : Run) :
    (perform node script r).2 = { r with
      executor := (perform node script r).2.executor
      graph := (perform node script r).2.graph
      log := (perform node script r).2.log } := by
  induction script generalizing r with
  | finish | panic => rfl
  | sleep => rw [perform_sleep]
  | emit event rest ih => exact ih _
  | control c rest ih => exact ih _ _ _
  | log entry rest ih => exact ih _
  | remember memory rest ih => exact ih _

/-- The end of an activation changes the executor and the graph. -/
theorem complete_eq (r : Run) (id : NodeId) (startedAt : Nat) (result : Except NodeError Output) :
    r.complete id startedAt result = (r.graph.completion id result, { r with
      executor := (r.complete id startedAt result).2.executor
      graph := r.graph.settle id result }) := by
  cases hn : r.graph.node? id with
  | none => simp only [complete, Graph.completion, Graph.settle, hn]
  | some n =>
    simp only [complete, Graph.completion, Graph.settle, hn]
    cases (n.complete result r.graph.supply).1 <;> rfl

/-- The beginning of activations changes the executor and the graph. -/
theorem spawn_eq (ids : List NodeId) (index : Nat) (r : Run) :
    (spawn ids index r).2 = { r with
      executor := (spawn ids index r).2.executor
      graph := (spawn ids index r).2.graph } := by
  induction ids generalizing index r with
  | nil => rfl
  | cons id rest ih =>
    unfold spawn
    split
    · exact ih _ _
    · exact ih _ _

theorem foldl_clearInputs_eq (ids : List NodeId) (r : Run) :
    ids.foldl clearInputs r = { r with graph := r.graph.replay (ids.map .clear) } := by
  induction ids generalizing r with
  | nil => rfl
  | cons id rest ih => exact ih _

theorem foldl_reset_eq (ids : List NodeId) (r : Run) : ids.foldl (fun r id => r.modifyNode id Node.resetStatus) r =
    { r with graph := r.graph.replay (ids.map .reset) } := by
  induction ids generalizing r with
  | nil => rfl
  | cons id rest ih => exact ih _

/-- An iteration that is given up resets the nodes whose activations are not settled. -/
theorem abandon_eq (r : Run) (batch : Batch) : r.abandon batch = { r with
    graph := r.graph.replay ((batch.ready.filter fun id => !batch.settled.contains id).map .reset)
    phase := .ending .cancelled } := by
  rw [abandon, foldl_reset_eq]
  rfl

/-- A script takes no time by itself. -/
theorem perform_now (node : NodeId) (script : Script) (r : Run) : (perform node script r).2.now = r.now := by
  rw [perform_eq]

/-- An event does not cancel a run. -/
theorem publish_cancelled (r : Run) (kind : EventKind) : (r.publish kind).executor.cancelled = r.executor.cancelled := rfl

/-- A relay begins: its inputs are consumed. -/
def launch (r : Run) (n : Node) : Task × Run :=
  let (script, q) := (r.publish (.nodeStarted n.id n.typeId)).prepare n
  ({ node := n.id, index := 0, startedAt := r.now, script }, q)

/-- The activation of a relay goes on, and the run goes on after it. -/
def carry (r : Run) (task : Task) (depth : Nat) (agenda : Agenda) : Run :=
  afterRelay task depth agenda (perform task.node task.script r).1 (perform task.node task.script r).2

theorem activateRelay_of_cancelled {r : Run} (hc : r.executor.cancelled = true) (n : Node) (depth : Nat) (agenda : Agenda) :
    r.activateRelay n depth agenda =
      ((r.publish (.nodeStarted n.id n.typeId)).modifyNode n.id Node.resetStatus).endWith .cancelled := by
  simp only [activateRelay, publish_cancelled, hc, if_true]

theorem activateRelay_of_not_cancelled {r : Run} (hc : r.executor.cancelled = false) (n : Node) (depth : Nat)
    (agenda : Agenda) : r.activateRelay n depth agenda = (r.launch n).2.carry (r.launch n).1 depth agenda := by
  simp only [activateRelay, publish_cancelled, hc, Bool.false_eq_true, if_false, perform_now]
  rfl

/-! ### The graph, function by function -/

theorem perform_graph (node : NodeId) (script : Script) (r : Run) :
    (perform node script r).2.graph = r.graph.replay (performing node script r) := by
  induction script generalizing r with
  | finish | panic => rfl
  | sleep => rw [perform_sleep]; rfl
  | emit event rest ih => exact ih _
  | control call rest ih => exact ih _ _ _
  | log entry rest ih => exact ih _
  | remember memory rest ih => exact ih _

theorem complete_graph (r : Run) (id : NodeId) (startedAt : Nat) (result : Except NodeError Output) :
    (r.complete id startedAt result).2.graph = r.graph.settle id result := by
  rw [complete_eq]

theorem complete_fst (r : Run) (id : NodeId) (startedAt : Nat) (result : Except NodeError Output) :
    (r.complete id startedAt result).1 = r.graph.completion id result := by
  rw [complete_eq]

theorem prepare_graph {r : Run} {n : Node} (hn : r.graph.node? n.id = some n) (iteration : Nat) (context : Context) :
    (r.prepare n).2.graph = r.graph.enact (.prepare (n.activation n.prepare.1 iteration context)) := by
  rw [Graph.enact, show (n.activation n.prepare.1 iteration context).node = n.id from rfl,
    Graph.modifyNode_of_some hn]
  rfl

theorem afterRelay_graph (task : Task) (depth : Nat) (agenda : Agenda) (stop : Stop) (r : Run) :
    (afterRelay task depth agenda stop r).graph = r.graph.replay (ending task.node r.graph stop) := by
  cases stop with
  | finished result =>
    have hfst := r.complete_fst task.node task.startedAt result
    have hgraph := r.complete_graph task.node task.startedAt result
    rcases hc : r.complete task.node task.startedAt result with ⟨completed, r'⟩
    rw [hc] at hfst hgraph
    dsimp only at hfst hgraph
    simp only [afterRelay, hc, ending, ← hfst]
    cases completed with
    | ok => simp only [clearInputs, hgraph]; rfl
    | error e => exact hgraph
  | panicked => rfl
  | asleep => rfl

theorem carry_graph (r : Run) (task : Task) (depth : Nat) (agenda : Agenda) :
    (r.carry task depth agenda).graph = r.graph.replay (r.carrying task.node task.script) := by
  rw [carry, afterRelay_graph, carrying, Graph.replay_append, ← perform_graph]

theorem launch_graph {r : Run} {n : Node} (hn : r.graph.node? n.id = some n) :
    (r.launch n).2.graph = r.graph.enact (.prepare (n.activation n.prepare.1 r.iteration r.context)) :=
  prepare_graph (r := r.publish (.nodeStarted n.id n.typeId)) hn r.iteration r.context

theorem relaying_of_cancelled {r : Run} (hc : r.executor.cancelled = true) (n : Node) : r.relaying n = [.reset n.id] := by
  simp only [relaying, publish_cancelled, hc, if_true]

theorem relaying_of_not_cancelled {r : Run} (hc : r.executor.cancelled = false) (n : Node) : r.relaying n =
    .prepare (n.activation n.prepare.1 r.iteration r.context) ::
      (r.launch n).2.carrying n.id (r.launch n).1.script := by
  simp only [relaying, publish_cancelled, hc, Bool.false_eq_true, if_false]
  rfl

theorem spawn_graph {ids : List NodeId} {index : Nat} {r : Run} (hg : r.graph.Named) :
    (spawn ids index r).2.graph = r.graph.replay (preparing r.iteration r.context ids r.graph) := by
  induction ids generalizing index r with
  | nil => rfl
  | cons id rest ih =>
    cases hn : r.graph.node? id with
    | none =>
      simp only [spawn, preparing, hn]
      exact ih hg
    | some n =>
      obtain rfl := hg _ _ hn
      simp only [spawn, preparing, hn, Graph.replay_cons, ← prepare_graph hn r.iteration r.context]
      exact ih (hg.setNode n.prepare.2)

theorem propagateFrom_graph (r : Run) (id : NodeId) (depth : Nat) (agenda : Agenda) :
    (r.propagateFrom id depth agenda).graph = r.graph.replay (r.graph.moving id) := by
  rw [← Graph.transferOutputs_graph, propagateFrom]
  split <;> split_ifs <;> rfl

theorem beginIteration_graph {r : Run} (hg : r.graph.Named) :
    r.beginIteration.graph = r.graph.replay
      (preparing (r.iteration + 1) r.context (collectReady r.graph r.graph.nodeList r.firedSources).1 r.graph) := by
  unfold beginIteration
  rcases collectReady r.graph r.graph.nodeList r.firedSources with ⟨ready, fired⟩
  dsimp only
  split_ifs with hempty
  · rw [List.isEmpty_iff.1 hempty]; rfl
  · exact spawn_graph hg

end Run

end Dataflow
