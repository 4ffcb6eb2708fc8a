import Dataflow.Proofs.Run.Convoys
import Dataflow.Proofs.Run.Demand

/-!
# Iterations, each as a whole

What becomes of an iteration does not depend on the order in which its nodes are scanned, as long as no two edges end at one
port.

* `Essence.ready`, `Essence.launched` and `Essence.result?` are what an iteration begins with: its nodes, the graph when their
  activations have begun, and what these will come to;
* `Essence.Passes` says what an iteration leaves that does not fail, and `Essence.Fails` that one fails;
* `Essence.Alike` says of two states between iterations that they are alike but for the order of the nodes;
* `Essence.Alike.ready_perm`, `Essence.Alike.passes` and `Essence.Alike.not_fails`: in states that are alike the same nodes
  take part in the next iteration, which fails in both, or leaves states that are alike.
-/

namespace Dataflow

/-! ### Activations that begin -/

namespace Node

/-- The script of the next activation of a node. -/
def script (context : Context) (iteration : Nat) (n : Node) : Script :=
  n.behavior.activate (n.activation n.prepare.1 iteration context) n.memory

/-- A node whose activation has begun, where it remembers already what it will remember afterwards. -/
def launch (context : Context) (iteration : Nat) (n : Node) : Node :=
  { n.prepare.2 with memory := (n.script context iteration).memory n.memory }

theorem script_rename (context : Context) (iteration : Nat) (f : PortId → PortId) (n : Node) :
    (n.rename f).script context iteration = n.script context iteration := by
  rw [script, prepare_rename]
  rfl

theorem launch_rename (context : Context) (iteration : Nat) (f : PortId → PortId) (n : Node) :
    (n.rename f).launch context iteration = (n.launch context iteration).rename f := by
  rw [launch, script_rename, prepare_rename]
  rfl

end Node

namespace Graph

variable {g : Graph} {context : Context} {iteration index : Nat} {ids : List NodeId} {id : NodeId} {n : Node}

theorem engage_graph (hg : g.Named) :
    (g.engage context iteration ids index).2 = g.replay (Run.preparing iteration context ids g) := by
  induction ids generalizing g index with
  | nil => rfl
  | cons k rest ih =>
    unfold engage Run.preparing
    cases hk : g.node? k with
    | none => exact ih hg
    | some n =>
      obtain rfl := hg k n hk
      have henact : g.enact (.prepare (n.activation n.prepare.1 iteration context)) = g.setNode n.prepare.2 :=
        modifyNode_of_some hk fun n => n.prepare.2
      simp only [replay_cons, henact]
      exact ih (hg.setNode _)

theorem nodes_engage (g : Graph) (context : Context) (iteration index : Nat) (ids : List NodeId) :
    ((g.engage context iteration ids index).1.map Pledge.node).Sublist ids := by
  induction ids generalizing g index with
  | nil => exact List.Sublist.refl _
  | cons k rest ih =>
    unfold engage
    cases g.node? k with
    | none => exact (ih g index).cons k
    | some n => exact (ih _ (index + 1)).cons_cons k

/-- Each node of the scan is pledged to its script. -/
theorem pledgeOf?_engage (hg : g.Named) (hn : ids.Nodup) (hid : id ∈ ids) (hnode : g.node? id = some n) :
    ∃ place, pledgeOf? id (g.engage context iteration ids index).1 = some ⟨id, place, n.script context iteration⟩ := by
  induction ids generalizing g index with
  | nil => exact absurd hid List.not_mem_nil
  | cons k rest ih =>
    obtain ⟨hnew, hrest⟩ := List.nodup_cons.1 hn
    unfold engage
    cases hk : g.node? k with
    | none =>
      rcases List.mem_cons.1 hid with rfl | hid
      · rw [hk] at hnode
        cases hnode
      · exact ih hg hrest hid hnode
    | some m =>
      obtain rfl := hg k m hk
      simp only [pledgeOf?_cons]
      rcases List.mem_cons.1 hid with rfl | hid
      · obtain rfl : m = n := Option.some.inj (hk.symm.trans hnode)
        exact ⟨index, if_pos rfl⟩
      · have hne : m.id ≠ id := fun e => hnew (e ▸ hid)
        have hnode' : (g.setNode m.prepare.2).node? id = some n :=
          (node?_setNode g m.prepare.2 id).trans ((if_neg hne).trans hnode)
        obtain ⟨place, hplace⟩ := ih (hg.setNode m.prepare.2) hrest hid hnode'
        exact ⟨place, (if_neg hne).trans hplace⟩

theorem pledgeOf?_engage_of_notMem (hid : id ∉ ids) : pledgeOf? id (g.engage context iteration ids index).1 = none := by
  induction ids generalizing g index with
  | nil => rfl
  | cons k rest ih =>
    rw [List.mem_cons, not_or] at hid
    unfold engage
    cases g.node? k with
    | none => exact ih hid.2
    | some m =>
      simp only [pledgeOf?_cons]
      exact (if_neg (Ne.symm hid.1)).trans (ih hid.2)

/-- To remember in advance is an act like others. -/
theorem fulfilled_eq_replay {P : Behavior → Prop} (hg : g.Hosts P) {pledges : List Pledge}
    (hn : (pledges.map Pledge.node).Nodup) (hpresent : ∀ p ∈ pledges, (g.node? p.node).isSome) :
    ∃ acts, g.fulfilled pledges = g.replay acts := by
  induction pledges generalizing g with
  | nil => exact ⟨[], fulfilled_nil g⟩
  | cons p rest ih =>
    obtain ⟨hnew, hrest⟩ := List.nodup_cons.1 hn
    obtain ⟨hfirst, hlater⟩ := List.forall_mem_cons.1 hpresent
    obtain ⟨n, hnode⟩ := Option.isSome_iff_exists.1 hfirst
    have hid : n.id = p.node := hg.named hnode
    let memory := p.script.memory n.memory
    have henact : g.enact (.remember p.node memory) = g.setNode { n with memory } := modifyNode_of_some hnode _
    have hnone : pledgeOf? p.node rest = none := pledgeOf?_eq_none.2 hnew
    have hsame : (g.setNode { n with memory }).fulfilled rest = g.fulfilled (p :: rest) := by
      refine fulfilled_setNode_eq hg hid hnode ?_ fun k hk => ?_
      · rw [fulfil_of_none hnone, fulfil_of_some (by rw [pledgeOf?_cons, if_pos rfl])]
      · rw [pledgeOf?_cons, if_neg (Ne.symm hk)]
    have hpresent' : ∀ q ∈ rest, ((g.setNode { n with memory }).node? q.node).isSome := fun q hq => by
      rw [hg.node?_remember hnode]
      split_ifs
      · rfl
      · exact hlater q hq
    obtain ⟨acts, hacts⟩ := ih (hg.remember hnode memory) hrest hpresent'
    exact ⟨.remember p.node memory :: acts, by rw [← hsame, hacts, replay_cons, henact]⟩

/-! ### Settling and clearing -/

/-- What is done to some nodes, one after the other, shows at these nodes. -/
theorem view_each {s : Supply} {act : NodeId → Act} {change : Node → Node}
    (hact : ∀ {g : Graph} (k id : NodeId), g.Identified →
      (g.enact (act k)).view s id = if k = id then (g.view s id).map change else g.view s id)
    (hg : g.Identified) (hn : ids.Nodup) (id : NodeId) :
    (g.replay (ids.map act)).view s id = if id ∈ ids then (g.view s id).map change else g.view s id := by
  induction ids generalizing g with
  | nil => rfl
  | cons k rest ih =>
    obtain ⟨hnew, hrest⟩ := List.nodup_cons.1 hn
    rw [List.map_cons, replay_cons, ih (hg.enact (act k)) hrest, hact k id hg]
    by_cases hk : k = id
    · subst hk
      simp [hnew]
    · simp [hk, Ne.symm hk]

/-- Cleared inputs show at the nodes that they belong to. -/
theorem view_clears {s : Supply} (hg : g.Identified) (hn : ids.Nodup) (id : NodeId) :
    (g.replay (ids.map .clear)).view s id = if id ∈ ids then (g.view s id).map Node.clearInputs else g.view s id := by
  refine view_each (fun {g} k id hg => ?_) hg hn id
  rw [enact, view_reindex]
  exact view_modifyNode hg.isNamed Node.clearInputs (fun _ => rfl) (fun n => (n.clearInputs_rename _).symm) k id

/-- Statuses are reset at the nodes that they belong to. -/
theorem view_resets {s : Supply} (hg : g.Identified) (hn : ids.Nodup) (id : NodeId) :
    (g.replay (ids.map .reset)).view s id = if id ∈ ids then (g.view s id).map Node.resetStatus else g.view s id :=
  view_each (fun k id hg => view_modifyNode hg.isNamed Node.resetStatus (fun _ => rfl) (fun _ => rfl) k id) hg hn id

end Graph

/-- Among settled activations, a node has its own. -/
theorem Act.share_settles (result : NodeId → Except NodeError Output) {ids : List NodeId} (hn : ids.Nodup) (id : NodeId) :
    share id (ids.map fun k => .settle k (result k)) = if id ∈ ids then [.settle id (result id)] else [] := by
  induction ids with
  | nil => rfl
  | cons k rest ih =>
    obtain ⟨hnew, hrest⟩ := List.nodup_cons.1 hn
    rw [List.map_cons]
    by_cases hk : k = id
    · subst hk
      rw [share_cons_self rfl, ih hrest, if_neg hnew, if_pos List.mem_cons_self]
    · rw [share_cons_other rfl hk, ih hrest]
      simp [Ne.symm hk]

namespace Graph

variable {g : Graph} {id : NodeId}

/-! ### The scan -/

theorem mem_scanned {g : Graph} (nodes : List Node) (fired : List NodeId) (id : NodeId) :
    id ∈ (Run.collectReady g nodes fired).2 ↔
      id ∈ fired ∨ id ∈ (Run.collectReady g nodes fired).1 ∧ g.connectedInputs id = [] := by
  induction nodes generalizing fired with
  | nil => simp [Run.collectReady]
  | cons n rest ih =>
    unfold Run.collectReady
    by_cases hj : Run.joins g fired n = true
    · simp only [hj, if_true]
      by_cases hnil : g.connectedInputs n.id = []
      · simp only [hnil, List.isEmpty_nil, if_true, ih, mem_insertNew, List.mem_cons]
        constructor
        · rintro ((rfl | h) | h)
          · exact Or.inr ⟨Or.inl rfl, hnil⟩
          · exact Or.inl h
          · exact Or.inr ⟨Or.inr h.1, h.2⟩
        · rintro (h | ⟨rfl | h, hconnected⟩)
          · exact Or.inl (Or.inr h)
          · exact Or.inl (Or.inl rfl)
          · exact Or.inr ⟨h, hconnected⟩
      · have hempty : (g.connectedInputs n.id).isEmpty = false := by simpa using hnil
        simp only [hempty, Bool.false_eq_true, if_false, ih, List.mem_cons]
        constructor
        · rintro (h | h)
          · exact Or.inl h
          · exact Or.inr ⟨Or.inr h.1, h.2⟩
        · rintro (h | ⟨rfl | h, hconnected⟩)
          · exact Or.inl h
          · exact absurd hconnected hnil
          · exact Or.inr ⟨h, hconnected⟩
    · simp only [hj, Bool.false_eq_true, if_false, ih]

/-- The same nodes want to take part in graphs that look alike. -/
theorem Resembles.wants {s : Supply} {g' : Graph} (hr : g.Resembles s g') (hg : g.Named) (hg' : g'.Named)
    {fired fired' : List NodeId} (hfired : ∀ id, id ∈ fired' ↔ id ∈ fired) (id : NodeId) :
    g'.wants fired' id = g.wants fired id := by
  have hready := hr.isReady id
  rcases view_cases (hr.view id) with ⟨hn, hn'⟩ | ⟨n, n', hn, hn', hview⟩
  · rw [Graph.wants, Graph.wants, hn, hn']
    rfl
  · have hcontains : fired'.contains id = fired.contains id := by
      rw [Bool.eq_iff_iff, List.contains_iff_mem, List.contains_iff_mem, hfired]
    have hrefires : n'.behavior.refires = n.behavior.refires := (congrArg (fun k : Node => k.behavior.refires) hview :)
    have hpending : n'.hasPendingWork = n.hasPendingWork := (congrArg Node.hasPendingWork hview :)
    have hconnected := hr.connectedInputs id
    simp only [Graph.isReady, hn, hn', hconnected] at hready
    simp only [Graph.wants, hn, hn', Option.any_some, Run.joins, hg id n hn, hg' id n' hn', hready, hconnected, hcontains,
      hrefires, hpending]

end Graph

namespace Essence

variable {s : Supply} {e e' f f' : Essence} {id : NodeId} {n : Node} {order order' : List NodeId}

/-! ### What an iteration begins with -/

/-- The nodes of the next iteration. -/
def ready (e : Essence) : List NodeId :=
  (Run.collectReady e.graph e.graph.nodeList e.fired).1

/-- The sources that have fired when the next iteration has begun. -/
def spent (e : Essence) : List NodeId :=
  (Run.collectReady e.graph e.graph.nodeList e.fired).2

/-- What the activations of the next iteration are pledged to, and the graph when they have begun. -/
def outset (e : Essence) : List Pledge × Graph :=
  e.graph.engage e.context (e.iteration + 1) e.ready 0

/-- The graph when the activations of the next iteration have begun, where the nodes remember already what they will
remember then. -/
def launched (e : Essence) : Graph :=
  e.outset.2.fulfilled e.outset.1

/-- The result that a node will have in the next iteration. -/
def result? (e : Essence) (id : NodeId) : Option (Except NodeError Output) :=
  Table.find? id (promises e.outset.1)

theorem result?_eq_map (e : Essence) (id : NodeId) : e.result? id = (pledgeOf? id e.outset.1).map Pledge.result := by
  rw [result?, pledgeOf?, ← Table.find?_change fun _ => Pledge.result, Table.change, List.map_map]
  rfl

theorem result?_of_notMem (hid : id ∉ e.ready) : e.result? id = none := by
  rw [result?_eq_map, outset, Graph.pledgeOf?_engage_of_notMem hid, Option.map_none]

/-- A state between iterations, of a graph that keeps each node in its place, and where no two edges end at one port. -/
structure Poised (s : Supply) (e : Essence) : Prop where
  hosts : e.graph.Hosts fun _ => True
  threaded : e.graph.Threaded s

section Poised

variable (h : e.Poised s)

include h

theorem Poised.named : e.graph.Named := h.hosts.isNamed

theorem Poised.nodup_ready : e.ready.Nodup :=
  Run.nodup_collectReady h.threaded.identified e.fired

theorem Poised.mem_ready : id ∈ e.ready ↔ e.graph.wants e.fired id = true :=
  Graph.mem_scan h.threaded.identified

theorem Poised.exists_node (hid : id ∈ e.ready) : ∃ n, e.graph.node? id = some n := by
  obtain ⟨n, hn, -⟩ := (Option.any_eq_true _ _).1 (h.mem_ready.1 hid)
  exact ⟨n, hn⟩

theorem Poised.pledgeOf? (hid : id ∈ e.ready) (hn : e.graph.node? id = some n) :
    ∃ place, Dataflow.pledgeOf? id e.outset.1 = some ⟨id, place, n.script e.context (e.iteration + 1)⟩ :=
  Graph.pledgeOf?_engage h.named h.nodup_ready hid hn

/-- A node of the scan has the result that its script comes to. -/
theorem Poised.result?_eq (hid : id ∈ e.ready) (hn : e.graph.node? id = some n) :
    ∃ place, e.result? id = some (Pledge.result ⟨id, place, n.script e.context (e.iteration + 1)⟩) := by
  obtain ⟨place, hplace⟩ := h.pledgeOf? hid hn
  exact ⟨place, by rw [result?_eq_map, hplace, Option.map_some]⟩

/-- Activations begin by acts like others. -/
theorem Poised.launched_eq : ∃ acts, e.launched = e.graph.replay acts := by
  have hgraph : e.outset.2 = e.graph.replay (Run.preparing (e.iteration + 1) e.context e.ready e.graph) :=
    Graph.engage_graph h.named
  have hnodes : (e.outset.1.map Pledge.node).Sublist e.ready := e.graph.nodes_engage ..
  have hpresent : ∀ p ∈ e.outset.1, (e.outset.2.node? p.node).isSome := by
    intro p hp
    obtain ⟨n, hn⟩ := h.exists_node (hnodes.subset (List.mem_map_of_mem hp))
    rw [hgraph]
    exact Graph.isSome_node?_replay _ (by rw [hn]; rfl)
  obtain ⟨acts, hacts⟩ := Graph.fulfilled_eq_replay (hgraph ▸ h.hosts.replay _ : e.outset.2.Hosts fun _ => True)
    (h.nodup_ready.sublist hnodes) hpresent
  exact ⟨_, by rw [launched, hacts, hgraph, ← Graph.replay_append]⟩

theorem Poised.node?_launched (id : NodeId) : e.launched.node? id =
    if id ∈ e.ready then (e.graph.node? id).map (Node.launch e.context (e.iteration + 1)) else e.graph.node? id := by
  have hgraph : e.outset.2 = e.graph.replay (Run.preparing (e.iteration + 1) e.context e.ready e.graph) :=
    Graph.engage_graph h.named
  rw [launched, Graph.node?_fulfilled, hgraph, Run.node?_preparing h.named h.nodup_ready]
  split_ifs with hid
  · obtain ⟨n, hn⟩ := h.exists_node hid
    obtain ⟨place, hplace⟩ := h.pledgeOf? hid hn
    rw [hn, Option.map_some, Option.map_some, Option.map_some, Graph.fulfil_of_some hplace]
    rfl
  · have hnone : Dataflow.pledgeOf? id e.outset.1 = none := Graph.pledgeOf?_engage_of_notMem hid
    cases e.graph.node? id with
    | none => rfl
    | some n => rw [Option.map_some, Graph.fulfil_of_none hnone]

theorem Poised.view_launched (id : NodeId) : e.launched.view s id =
    if id ∈ e.ready then (e.graph.view s id).map (Node.launch e.context (e.iteration + 1)) else e.graph.view s id := by
  rw [Graph.view, h.node?_launched]
  split_ifs
  · rw [Graph.view, Option.map_map, Option.map_map]
    exact congrArg (Option.map · _) (funext fun n => (n.launch_rename ..).symm)
  · rfl

end Poised

/-! ### What an iteration comes to -/

/-- The result that a node has in the next iteration. -/
def result (e : Essence) (id : NodeId) : Except NodeError Output :=
  (e.result? id).getD (.ok .empty)

/-- The activation of a node fails in the next iteration. -/
def Stumbles (e : Essence) (id : NodeId) : Prop :=
  ∃ error, e.launched.completion id (e.result id) = .error error

/-- The graph when activations are settled, in some order. -/
def settled (e : Essence) (order : List NodeId) : Graph :=
  e.launched.replay (order.map fun id => .settle id (e.result id))

/-- The graph when moreover the consumed inputs are cleared. -/
def cleared (e : Essence) (order : List NodeId) : Graph :=
  (e.settled order).replay (e.ready.map .clear)

/-- What an iteration leaves that does not fail. -/
def Passes (e e' : Essence) : Prop :=
  e.ready ≠ [] ∧ (∀ id ∈ e.ready, ¬ e.Stumbles id) ∧ ∃ order graph, order.Perm e.ready ∧
    Graph.convey e.ready (e.cleared order) = some graph ∧ e' = ⟨e.context, graph, e.iteration + 1, e.spent, .idle⟩

/-- The next iteration fails: an activation fails, or a value that is moved is refused. -/
def Fails (e : Essence) : Prop :=
  e.ready ≠ [] ∧ ((∃ id ∈ e.ready, e.Stumbles id) ∨
    ∃ order : List NodeId, order.Perm e.ready ∧ Graph.convey e.ready (e.cleared order) = none)

/-- An activation that breaks down fails. -/
theorem Poised.stumbles (h : e.Poised s) {error : NodeError} (hid : id ∈ e.ready)
    (hresult : e.result? id = some (.error error)) : e.Stumbles id := by
  obtain ⟨n, hn⟩ := h.exists_node hid
  refine ⟨error, ?_⟩
  rw [result, hresult, Option.getD_some, Graph.completion, h.node?_launched, if_pos hid, hn, Option.map_some]
  rfl

theorem Poised.threaded_launched (h : e.Poised s) : e.launched.Threaded s := by
  obtain ⟨acts, hacts⟩ := h.launched_eq
  rw [hacts]
  exact h.threaded.replay acts

theorem subject?_settles (e : Essence) (order : List NodeId) :
    ∀ act ∈ order.map fun id => Act.settle id (e.result id), ∃ id, act.subject? = some id := by
  intro act hact
  obtain ⟨id, -, rfl⟩ := List.mem_map.1 hact
  exact ⟨id, rfl⟩

/-- The activations that were settled before are those of other nodes. -/
theorem Poised.completion_settled (h : e.Poised s) (hn : order.Nodup) (hid : id ∉ order) (result : Except NodeError Output) :
    (e.settled order).completion id result = e.launched.completion id result := by
  have hlaunched := h.threaded_launched.toGrown
  have hshare := (hlaunched.share_replay hlaunched (rfl : e.launched.view s id = _) (e.subject?_settles order)).1
  rw [Act.share_settles _ hn, if_neg hid] at hshare
  exact Graph.completion_view hlaunched.le (hlaunched.replay _).le hshare.symm result

theorem Poised.hosts_cleared (h : e.Poised s) (order : List NodeId) : (e.cleared order).Hosts fun _ => True := by
  obtain ⟨acts, hacts⟩ := h.launched_eq
  rw [cleared, settled, hacts]
  exact ((h.hosts.replay _).replay _).replay _

theorem Poised.threaded_cleared (h : e.Poised s) (order : List NodeId) : (e.cleared order).Threaded s :=
  (h.threaded_launched.replay _).replay _

theorem Poised.hosts_convey (h : e.Poised s) {graph : Graph}
    (hconvey : Graph.convey e.ready (e.cleared order) = some graph) : graph.Hosts fun _ => True := by
  rw [((h.threaded_cleared order).convey_eq_some h.nodup_ready).1 hconvey |>.2]
  exact (h.hosts_cleared order).replay _

/-- States between iterations that are alike but for the order of the nodes. -/
structure Alike (s : Supply) (e e' : Essence) : Prop where
  context : e'.context = e.context
  iteration : e'.iteration = e.iteration
  fired : ∀ id, id ∈ e'.fired ↔ id ∈ e.fired
  hosts : e.graph.Hosts fun _ => True
  hosts' : e'.graph.Hosts fun _ => True
  graph : e.graph.Shuffled s e'.graph

namespace Alike

variable (h : e.Alike s e')

include h

theorem symm : e'.Alike s e :=
  ⟨h.context.symm, h.iteration.symm, fun id => (h.fired id).symm, h.hosts', h.hosts, h.graph.symm⟩

theorem left : e.Poised s := ⟨h.hosts, h.graph.left⟩

theorem right : e'.Poised s := ⟨h.hosts', h.graph.right⟩

theorem mem_ready (id : NodeId) : id ∈ e'.ready ↔ id ∈ e.ready := by
  rw [h.left.mem_ready, h.right.mem_ready]
  have hnamed : (e'.graph.reorder e.graph.order).Named := h.right.named
  exact Bool.eq_iff_iff.1 (h.graph.resembles.wants h.left.named hnamed h.fired id)

/-- **The same nodes take part in the next iteration.** -/
theorem ready_perm : e.ready.Perm e'.ready :=
  (List.perm_ext_iff_of_nodup h.left.nodup_ready h.right.nodup_ready).2 fun id => (h.mem_ready id).symm

theorem mem_spent (id : NodeId) : id ∈ e'.spent ↔ id ∈ e.spent := by
  have hconnected : e'.graph.connectedInputs id = e.graph.connectedInputs id := h.graph.resembles.connectedInputs id
  have hready := h.mem_ready id
  unfold ready at hready
  rw [spent, spent, Graph.mem_scanned, Graph.mem_scanned, h.fired, hready, hconnected]

theorem launched : e.launched.Shuffled s e'.launched := by
  have hview : ∀ id, e'.launched.view s id = e.launched.view s id := fun id => by
    rw [h.left.view_launched, h.right.view_launched, h.graph.view, h.context, h.iteration]
    simp only [h.mem_ready]
  obtain ⟨acts, hacts⟩ := h.left.launched_eq
  obtain ⟨acts', hacts'⟩ := h.right.launched_eq
  rw [hacts, hacts'] at hview ⊢
  exact h.graph.replay hview

/-- An activation has the same result in both states, or breaks down in both. -/
theorem result?_cases (hid : id ∈ e.ready) :
    e'.result? id = e.result? id ∨ ∃ error error', e.result? id = some (.error error) ∧ e'.result? id = some (.error error') := by
  have hid' : id ∈ e'.ready := (h.mem_ready id).2 hid
  obtain ⟨n, hn⟩ := h.left.exists_node hid
  obtain ⟨n', hn'⟩ := h.right.exists_node hid'
  have hview := h.graph.view id
  rw [Graph.view_of_some hn, Graph.view_of_some hn', Option.some.injEq] at hview
  have hscript : n'.script e'.context (e'.iteration + 1) = n.script e.context (e.iteration + 1) := by
    rw [h.context, h.iteration, ← Node.script_rename _ _ s.view n', hview, Node.script_rename]
  obtain ⟨place, hplace⟩ := h.left.result?_eq hid hn
  obtain ⟨place', hplace'⟩ := h.right.result?_eq hid' hn'
  rw [hplace, hplace', hscript]
  unfold Pledge.result
  cases (n.script e.context (e.iteration + 1)).halt with
  | finished result => exact Or.inl rfl
  | panicked message => exact Or.inr ⟨_, _, rfl, rfl⟩

theorem stumbles_iff (hid : id ∈ e.ready) : e'.Stumbles id ↔ e.Stumbles id := by
  rcases h.result?_cases hid with hsame | ⟨error, error', herror, herror'⟩
  · have hcompletion : e'.launched.completion id (e.result id) = e.launched.completion id (e.result id) :=
      Graph.completion_view h.launched.left.le h.launched.right.le (h.launched.view id) _
    rw [Stumbles, Stumbles, result, hsame, ← result, hcompletion]
  · exact ⟨fun _ => h.left.stumbles hid herror, fun _ => h.right.stumbles ((h.mem_ready id).2 hid) herror'⟩

theorem result_eq (hid : id ∈ e.ready) (hok : ¬ e.Stumbles id) : e'.result id = e.result id := by
  rcases h.result?_cases hid with hsame | ⟨error, error', herror, -⟩
  · rw [result, hsame, result]
  · exact absurd (h.left.stumbles hid herror) hok

theorem settled (hok : ∀ id ∈ e.ready, ¬ e.Stumbles id) (hperm : order.Perm e.ready) (hperm' : order'.Perm e'.ready) :
    (e.settled order).Shuffled s (e'.settled order') := by
  refine h.launched.replay fun id => ?_
  -- Each node sees its own activation only, which has the same result in both states.
  have hshare : Act.share id (order'.map fun k => .settle k (e'.result k)) =
      Act.share id (order.map fun k => .settle k (e.result k)) := by
    rw [Act.share_settles _ (hperm.nodup_iff.2 h.left.nodup_ready), Act.share_settles _ (hperm'.nodup_iff.2 h.right.nodup_ready)]
    have hmem : id ∈ order' ↔ id ∈ order := by rw [hperm'.mem_iff, hperm.mem_iff, h.mem_ready]
    by_cases hid : id ∈ order
    · have hin := hperm.mem_iff.1 hid
      rw [if_pos hid, if_pos (hmem.2 hid), h.result_eq hin (hok id hin)]
    · rw [if_neg hid, if_neg (mt hmem.1 hid)]
  have hlaunched := h.launched
  rw [← (hlaunched.left.toGrown.share_replay hlaunched.left.toGrown rfl (e.subject?_settles order)).1, ← hshare,
    ← (hlaunched.right.toGrown.share_replay hlaunched.left.toGrown (hlaunched.view id).symm (e'.subject?_settles order')).1]

theorem cleared (hok : ∀ id ∈ e.ready, ¬ e.Stumbles id) (hperm : order.Perm e.ready) (hperm' : order'.Perm e'.ready) :
    (e.cleared order).Shuffled s (e'.cleared order') := by
  have hsettled := h.settled hok hperm hperm'
  refine hsettled.replay fun id => ?_
  rw [Graph.view_clears hsettled.left.identified h.left.nodup_ready,
    Graph.view_clears hsettled.right.identified h.right.nodup_ready, hsettled.view]
  simp only [h.mem_ready]

/-- **Iterations that begin alike leave states that are alike.** -/
theorem passes (hf : e.Passes f) (hf' : e'.Passes f') : f.Alike s f' := by
  obtain ⟨-, hok, order, graph, hperm, hconvey, rfl⟩ := hf
  obtain ⟨-, -, order', graph', hperm', hconvey', rfl⟩ := hf'
  have hcleared := h.cleared hok hperm hperm'
  rcases hcleared.convey h.left.nodup_ready h.ready_perm with ⟨hnone, -⟩ | ⟨g₁, g₁', hsome, hsome', hgraph⟩
  · rw [hconvey] at hnone
    cases hnone
  · obtain rfl : graph = g₁ := Option.some.inj (hconvey.symm.trans hsome)
    obtain rfl : graph' = g₁' := Option.some.inj (hconvey'.symm.trans hsome')
    exact ⟨h.context, congrArg (· + 1) h.iteration, h.mem_spent, h.left.hosts_convey hconvey,
      h.right.hosts_convey hconvey', hgraph⟩

/-- **Of iterations that begin alike, both fail or none.** -/
theorem not_fails (hf : e.Passes f) : ¬ e'.Fails := by
  obtain ⟨-, hok, order, graph, hperm, hconvey, rfl⟩ := hf
  rintro ⟨-, ⟨id, hid, hstumbles⟩ | ⟨order', hperm', hconvey'⟩⟩
  · have hid' : id ∈ e.ready := (h.mem_ready id).1 hid
    exact hok id hid' ((h.stumbles_iff hid').1 hstumbles)
  · rcases (h.cleared hok hperm hperm').convey h.left.nodup_ready h.ready_perm with ⟨hnone, -⟩ | ⟨g₁, g₁', -, hsome', -⟩
    · rw [hconvey] at hnone
      cases hnone
    · rw [hconvey'] at hsome'
      cases hsome'

end Alike

end Essence

end Dataflow
