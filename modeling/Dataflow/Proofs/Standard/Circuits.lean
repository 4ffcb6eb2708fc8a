import Dataflow.Proofs.Run.WiredIterations
import Dataflow.Proofs.Standard.Nodes

/-!
# Runs of graphs at rest

* `Graph.Comprises` says that a graph consists of some nodes and wires, and that nothing waits in it;
* `Run.Stands` says that a run of such a graph is between two iterations, and `Run.stands_start` that it is when it begins;
* `Run.Stands.wants_fed` and `Run.Stands.wants_unfed`: which nodes take part in the next iteration;
* `Run.Stands.unfolds_alone`: when a constant fires alone, its value comes to the end of its way, and
  `Run.Stands.unfolds_alone_exceed`: the run fails if the way is too long.
-/

namespace Dataflow

namespace Graph

variable {g : Graph} {nodes : List Node} {wires : List Wire}

/-- A graph of some nodes and wires, in any order, at rest: no node remembers anything, and no value waits at an end of a
wire. -/
structure Comprises (nodes : List Node) (wires : List Wire) (g : Graph) : Prop where
  reached : g.Reached
  members : g.nodeList.Perm nodes
  joined : (g.edges.map some).Perm (wires.map g.edge?)
  fit : g.flagged = []
  blank : ∀ n ∈ nodes, n.memory = []
  quiet : ∀ w ∈ wires, g.sent? w = none ∧ g.received? w = none

theorem Comprises.node? (h : g.Comprises nodes wires) {n : Node} (hn : n ∈ nodes) : g.node? n.id = some n :=
  (mem_nodeList h.reached.regular.toIdentified).1 (h.members.mem_iff.2 hn)

theorem Comprises.exists_node (h : g.Comprises nodes wires) {id : NodeId} (hid : (g.node? id).isSome) :
    ∃ n ∈ nodes, n.id = id := by
  obtain ⟨n, hn⟩ := Option.isSome_iff_exists.1 hid
  have hname := h.reached.regular.named hn
  exact ⟨n, h.members.mem_iff.1 ((mem_nodeList h.reached.regular.toIdentified).2 (hname ▸ hn)), hname⟩

/-- The nodes have identifiers of their own. -/
theorem Comprises.apart (h : g.Comprises nodes wires) : (nodes.map Node.id).Nodup := by
  rw [← (h.members.map Node.id).nodup_iff, nodeList_ids h.reached.regular.toIdentified]
  exact h.reached.regular.nodup

theorem Comprises.wired (h : g.Comprises nodes wires) (hsources : (wires.map Wire.source).Nodup)
    (htargets : (wires.map Wire.target).Nodup) : g.WiredBy wires where
  toRegular := h.reached.regular
  indexed := h.reached.indexed
  filled := h.reached.filled.1
  fit := h.fit
  sources := hsources
  targets := htargets
  laid w hw := by
    obtain ⟨e, he, hends⟩ := List.mem_map.1 (h.joined.mem_iff.2 (List.mem_map_of_mem hw))
    exact ⟨e, he, hends.symm⟩
  all e he := List.mem_map.1 (h.joined.mem_iff.1 (List.mem_map_of_mem he))

/-- Handing out identifiers leaves a graph wired. -/
theorem WiredBy.draw (h : g.WiredBy wires) {s : Supply} (hs : g.supply.next ≤ s.next) :
    ({ g with supply := s } : Graph).WiredBy wires where
  toRegular := h.toRegular.draw hs
  indexed := h.indexed.of_eq rfl rfl rfl rfl
  filled := h.filled
  fit := h.fit
  sources := h.sources
  targets := h.targets
  laid := h.laid
  all := h.all

/-- New nodes may be added one after the other, each of them with what was not drawn for the one before. -/
theorem Built.create_next {g' : Graph} {s : Supply} {id : NodeId} {label : String} {b : Behavior} {config : Config}
    (hg : g.Built ∧ g.supply = s) (h : ({ g with supply := (Node.create id label b config s).2 } : Graph).addNode
      (Node.create id label b config s).1 = .ok g') : g'.Built ∧ g'.supply = (Node.create id label b config s).2 := by
  obtain ⟨hbuilt, rfl⟩ := hg
  exact ⟨hbuilt.create h, by rw [(addNode_eq_ok h).2]⟩

/-- To forget how activations went changes neither what nodes remember nor what waits at their ports. -/
theorem node?_resets (hg : g.Named) (ids : List NodeId) (id : NodeId) :
    ((g.replay (ids.map .reset)).node? id).map (fun n => (n.memory, n.portAt?)) =
      (g.node? id).map fun n => (n.memory, n.portAt?) := by
  induction ids generalizing g with
  | nil => rfl
  | cons k rest ih =>
    rw [List.map_cons, replay_cons, ih (hg.enact _)]
    simp only [enact]
    cases hk : g.node? k with
    | none => rw [modifyNode_of_none hk]
    | some n =>
      rw [modifyNode_of_some hk, node?_evolve]
      split_ifs with hid
      · rw [← hid, show n.resetStatus.id = n.id from rfl, hg k n hk, hk, Option.map_some, Option.map_some]
        exact congrArg some (Prod.ext rfl (funext fun slot => by cases slot <;> rfl))
      · rfl

end Graph

namespace Standard

/-- What activations come to that put out one value, while the node goes on to remember the same. -/
def puts (g : Graph) (output : String) (v : Value) (id : NodeId) : Memory × Output :=
  ((g.memory? id).getD [], .single output v)

theorem yields_puts {g : Graph} {id : NodeId} {n : Node} {output : String} {v : Value} (hn : g.node? id = some n)
    (h : n.Yields n.memory (.single output v)) : n.Yields (puts g output v id).1 (puts g output v id).2 := by
  rwa [puts, Graph.memory?, hn]

end Standard

open Standard

namespace Run

variable {x : Executor} {g : Graph} {context : Context} {now limit : Nat} {r₀ r r' : Run} {nodes : List Node}
  {wires ws : List Wire} {w : Wire} {n : Node} {b : Behavior} {acts acts' : List Act} {turn : NodeId → Memory × Output}

/-! ### Between two iterations -/

/-- A run at full speed of a graph is between two iterations, and no value waits to be moved. -/
structure Stands (g : Graph) (wires : List Wire) (limit : Nat) (r : Run) : Prop where
  phase : r.phase = .boundary
  wired : r.Wired wires limit
  becomes : g.Becomes r.graph
  idle : ∀ w ∈ wires, r.graph.sent? w = none

theorem Iterated.stands (h' : Iterated turn wires ws limit r acts acts' r') (h : r.Stands g wires limit) :
    r'.Stands g wires limit :=
  ⟨h'.phase, h'.wired, h.becomes.trans h'.becomes, h'.idle⟩

/-- What holds when a run of a graph at rest begins. -/
theorem stands_start (h : g.Comprises nodes wires) (hsources : (wires.map Wire.source).Nodup)
    (htargets : (wires.map Wire.target).Nodup) (hstart : start x g context .continuous now = .ok r₀) :
    r₀.Stands g wires x.config.maxRelayDepth ∧ r₀.iteration = 0 ∧ r₀.firedSources = [] ∧
      (∀ n ∈ nodes, r₀.graph.memory? n.id = some []) ∧ ∀ w ∈ wires, r₀.graph.received? w = none := by
  have hdrawn : ({ g with supply := g.supply.draw.2 } : Graph).WiredBy wires :=
    (h.wired hsources htargets).draw (Nat.le_succ _)
  obtain ⟨hphase, hgraph⟩ := start_eq hstart
  obtain ⟨-, hstate, -, hconfig, hcancelled, hstepping⟩ := start_executor hstart
  have hsame : ∀ id, (r₀.graph.node? id).map (fun n => (n.memory, n.portAt?)) =
      (g.node? id).map fun n => (n.memory, n.portAt?) := by
    rw [hgraph]
    exact Graph.node?_resets hdrawn.toIdentified.isNamed g.order
  have hmemory : ∀ id, r₀.graph.memory? id = g.memory? id := fun id => by
    have hmap := congrArg (Option.map Prod.fst) (hsame id)
    rwa [Option.map_map, Option.map_map] at hmap
  have hports : ∀ id slot, r₀.graph.portIn? id slot = g.portIn? id slot := fun id slot => by
    have hbind := congrArg (fun view => view.bind fun entry => entry.2 slot) (hsame id)
    rwa [Option.bind_map, Option.bind_map] at hbind
  refine ⟨⟨hphase, ⟨⟨hstate, hcancelled, hstepping⟩, by rw [hconfig], ?_⟩, ?_, fun w hw => ?_⟩, start_iteration hstart, ?_,
    fun n hn => ?_, fun w hw => ?_⟩
  · rw [hgraph]
    exact hdrawn.replay _
  · rw [hgraph]
    have hsupply : g.Becomes { g with supply := g.supply.draw.2 } := ⟨rfl, fun _ n hn => ⟨n, hn, .refl n⟩⟩
    exact hsupply.trans (hdrawn.becomes_replay _)
  · rw [Graph.sent?, hports]
    exact (h.quiet w hw).1
  · obtain ⟨y, -, rfl⟩ := Except.map_eq_ok.1 hstart
    rfl
  · rw [hmemory, Graph.memory?, h.node? hn, Option.map_some, h.blank n hn]
  · rw [Graph.received?, hports]
    exact (h.quiet w hw).2

section Stands

variable (h : r.Stands g wires limit) (hg : g.Comprises nodes wires)

include h hg

theorem Stands.node? (hn : n ∈ nodes) : ∃ n', r.graph.node? n.id = some n' ∧ n.Becomes n' :=
  h.becomes.members n.id n (hg.node? hn)

/-- Only nodes of the graph take part in a scan. -/
theorem Stands.exists_node {id : NodeId} {fired : List NodeId} (hwants : r.graph.wants fired id = true) :
    ∃ n ∈ nodes, n.id = id := by
  obtain ⟨n, hn, -⟩ := (Option.any_eq_true _ _).1 hwants
  refine hg.exists_node ((h.becomes.isSome_node? hg.reached.regular.toIdentified h.wired.graph.toIdentified).1 ?_)
  rw [hn]
  rfl

/-- A node to which a wire leads takes part in a scan if something has come, or if it has work left. -/
theorem Stands.wants_fed (hn : n ∈ nodes) (hb : n.Performs b) (hw : w ∈ wires) (hid : w.target = n.id) :
    r.graph.wants r.firedSources n.id = true ↔
      ((r.graph.memory? n.id).any b.hasPendingWork = true ∨ (r.graph.received? w).isSome = true) := by
  obtain ⟨n', hn', hbecomes⟩ := h.node? hg hn
  have hb' := hb.becomes hbecomes
  rw [h.wired.graph.wants_fed hn' hb'.enabled hw hid, Node.hasPendingWork, hb'.behavior, Graph.memory?, hn',
    Option.map_some, Option.any_some]

/-- A node to which no wire leads takes part in one scan. -/
theorem Stands.wants_unfed (hn : n ∈ nodes) (hb : n.Performs b) (hnone : ∀ w ∈ wires, w.target ≠ n.id)
    (hpending : ∀ m, b.hasPendingWork m = false) (hrefires : b.refires = false) :
    r.graph.wants r.firedSources n.id = true ↔ n.id ∉ r.firedSources := by
  obtain ⟨n', hn', hbecomes⟩ := h.node? hg hn
  have hb' := hb.becomes hbecomes
  refine h.wired.graph.wants_unfed hn' hb'.enabled hnone ?_ (by rw [hb'.behavior, hrefires]) _
  rw [Node.hasPendingWork, hb'.behavior, hpending]

end Stands

/-! ### A constant that fires alone -/

section Constant

variable {source : Node} {v : Value} (h : r.Stands g wires limit) (hg : g.Comprises nodes wires) (hmem : source ∈ nodes)
  (hsource : source.Performs (constantBehavior v false)) (hv : v.convert v.dataType = .ok v)
  (halone : ∀ id, r.graph.wants r.firedSources id = true ↔ id = source.id)

include h halone

/-- Its value goes along the wire that begins at it, and nothing goes along another wire. -/
theorem Stands.others_alone (hw : w ∈ wires) (hbegin : w.source = source.id) : ∀ w' ∈ wires, w' ≠ w →
    r.graph.wants r.firedSources w'.source = true →
      w'.output ∉ Keyed.keys (puts r.graph "value" v w'.source).2.outputs := fun _ hw' hne hid =>
  absurd (h.wired.graph.eq_of_source hw hw' (((halone _).1 hid).trans hbegin.symm)) hne

include hg hmem hsource hv

theorem Stands.yields_alone {id : NodeId} (hid : r.graph.wants r.firedSources id = true) (hn : r.graph.node? id = some n) :
    n.Yields (puts r.graph "value" v id).1 (puts r.graph "value" v id).2 := by
  obtain rfl := (halone id).1 hid
  obtain ⟨n', hn', hbecomes⟩ := h.node? hg hmem
  obtain rfl : n = n' := Option.some.inj (hn.symm.trans hn')
  exact yields_puts hn (yields_constant (hsource.becomes hbecomes) (h.wired.graph.declared hn) hv)

variable (hlane : w :: ws ⊆ wires) (hchain : (w :: ws).IsChain r.graph.Relayed) (hbegin : w.source = source.id)
  (houtput : w.output = "value")

include hlane hchain hbegin houtput

/-- **When a constant fires alone, its value comes to the end of its way.** -/
theorem Stands.unfolds_alone (hunfed : ∀ w ∈ wires, w.target ≠ source.id)
    (hempty : ∀ w ∈ wires, r.graph.received? w = none) (hlands : r.graph.Lands (ws.getLastD w) v) (hlimit : ws.length ≤ limit) :
    r.Unfolds (fun acts' r' => r'.Stands g wires limit ∧ r'.iteration = r.iteration + 1 ∧ source.id ∈ r'.firedSources ∧
      (∀ n ∈ nodes, n.id ≠ source.id → r'.graph.memory? n.id = r.graph.memory? n.id) ∧
      (∀ n ∈ nodes, n.id ≠ source.id → n.id ∉ ws.map Wire.source → Act.received n.id acts' = Act.received n.id acts) ∧
      ∀ w' ∈ wires, r'.graph.received? w' = if w' = ws.getLastD w then some v else none) acts := by
  have hput : (w.output, v) ∈ (puts r.graph "value" v w.source).2.outputs := houtput ▸ List.mem_singleton_self _
  have hothers := h.others_alone (v := v) halone (hlane List.mem_cons_self) hbegin
  have hidle : ∀ n : Node, n.id ≠ source.id → ¬r.graph.wants r.firedSources n.id = true := fun n hne hid =>
    hne ((halone _).1 hid)
  refine (unfolds_sending h.wired h.phase h.idle (fun id n => h.yields_alone hg hmem hsource hv halone) hlane hchain
    ((halone _).2 hbegin) hput hothers hlands hlimit).mono fun acts' r' h' => ?_
  obtain ⟨hiterated, hcame⟩ := h'
  refine ⟨hiterated.stands h, hiterated.iteration, ?_, fun n hn hne => ?_, fun n hn hne hnot => ?_, fun w' hw' => ?_⟩
  · obtain ⟨n, hn, -⟩ := h.node? hg hmem
    exact (hiterated.fired _).2 (Or.inr ⟨(halone _).2 rfl, h.wired.graph.connectedInputs_unfed hn hunfed⟩)
  · obtain ⟨n', hn', -⟩ := h.node? hg hn
    rw [hiterated.memory n.id (by rw [hn']; rfl), if_neg (hidle n hne)]
  · obtain ⟨n', hn', -⟩ := h.node? hg hn
    rw [hiterated.received n.id n' hn' hnot, if_neg (hidle n hne), List.append_nil]
  · rw [hcame w' hw', hempty w' hw', ite_self, ite_self]

/-- **If its way is too long, the run fails.** -/
theorem Stands.unfolds_alone_exceed {w' : Wire} (hexceeds : ws[limit]? = some w') :
    r.Unfolds (fun acts' r' => r'.IsOver (.failed (r.graph.depthFailure limit w'.source)) (r.iteration + 1) ∧
      ∀ n ∈ nodes, n.id ≠ source.id → n.id ∉ ws.map Wire.source → Act.received n.id acts' = Act.received n.id acts)
      acts := by
  have hput : (w.output, v) ∈ (puts r.graph "value" v w.source).2.outputs := houtput ▸ List.mem_singleton_self _
  have hothers := h.others_alone (v := v) halone (hlane List.mem_cons_self) hbegin
  refine (unfolds_sending_exceed h.wired h.phase h.idle (fun id n => h.yields_alone hg hmem hsource hv halone) hlane hchain
    ((halone _).2 hbegin) hput hothers hexceeds).mono fun acts' r' h' => ⟨h'.1, fun n hn hne hnot => ?_⟩
  obtain ⟨n', hn', -⟩ := h.node? hg hn
  rw [h'.2 n.id n' hn' hnot, if_neg fun hid => hne ((halone _).1 hid), List.append_nil]

end Constant

end Run

end Dataflow
