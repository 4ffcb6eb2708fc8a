import Dataflow.Proofs.Graph.Removal
import Dataflow.Proofs.Run.Demand
import Dataflow.Proofs.Run.Dispatch
import Dataflow.Proofs.Run.Turns

/-!
# Graphs in which every node is wired to at most one other

In a graph whose edges lead from a port of its own for each node to a port of its own for each node, a value has one way to go.

* `Wire` names the two ports that an edge joins, and `Graph.WiredBy` says that the edges of a graph are some wires, of which no
  two begin or end at one node;
* `Graph.sent?` and `Graph.received?` are the values that wait at the two ends of a wire;
* `Graph.WiredBy.replay`: a graph stays wired, whatever happens to it in a run;
* `Graph.WiredBy.wants_fed`, `Graph.WiredBy.wants_unfed`: which nodes take part in a scan;
* `Graph.WiredBy.idle` and `Graph.WiredBy.carry`: what it comes to when the outputs of a node are moved.
-/

namespace Dataflow

/-- The only member of a list with some property is all that is left of it. -/
theorem filter_of_unique {α : Type} {l : List α} {a : α} {P : α → Bool} (hn : l.Nodup) (ha : a ∈ l)
    (h : ∀ b ∈ l, P b = true → b = a) : l.filter P = if P a = true then [a] else [] := by
  split_ifs with hP
  · refine List.Perm.eq_singleton ((List.perm_ext_iff_of_nodup (hn.filter P) (List.nodup_singleton a)).2 fun b => ?_)
    rw [List.mem_filter, List.mem_singleton]
    exact ⟨fun hb => h b hb.1 hb.2, fun hb => hb ▸ ⟨ha, hP⟩⟩
  · exact List.filter_eq_nil_iff.2 fun b hb hPb => hP (h b hb hPb ▸ hPb)

/-- A wire from an output of one node to an input of another. -/
structure Wire where
  source : NodeId
  output : String
  target : NodeId
  input : String
  deriving DecidableEq, Repr

namespace Graph

variable {g g' : Graph} {wires : List Wire} {w : Wire} {id : NodeId} {n : Node}

/-! ### Nodes stay what they are -/

/-- Each node of a graph has become one of another graph, and the other graph has no further nodes. -/
structure Becomes (g g' : Graph) : Prop where
  order : g'.order = g.order
  members : ∀ id n, g.node? id = some n → ∃ n', g'.node? id = some n' ∧ n.Becomes n'

theorem Becomes.refl (g : Graph) : g.Becomes g :=
  ⟨rfl, fun _ n hn => ⟨n, hn, .refl n⟩⟩

theorem Becomes.trans {g'' : Graph} (h : g.Becomes g') (h' : g'.Becomes g'') : g.Becomes g'' := by
  refine ⟨h'.order.trans h.order, fun id n hn => ?_⟩
  obtain ⟨n', hn', hbecomes⟩ := h.members id n hn
  obtain ⟨n'', hn'', hbecomes'⟩ := h'.members id n' hn'
  exact ⟨n'', hn'', hbecomes.trans hbecomes'⟩

theorem Becomes.isSome_node? (h : g.Becomes g') (hg : g.Identified) (hg' : g'.Identified) :
    (g'.node? id).isSome ↔ (g.node? id).isSome := by
  rw [hg.listed, hg'.listed, h.order]

theorem Becomes.portIn? (h : g.Becomes g') {slot : Slot} {p : Port} (hp : g.portIn? id slot = some p) :
    ∃ p', g'.portIn? id slot = some p' ∧ p'.id = p.id ∧ p'.dataType = p.dataType := by
  obtain ⟨n, hn, hat⟩ := portIn?_eq_some.1 hp
  obtain ⟨n', hn', hbecomes⟩ := h.members id n hn
  obtain ⟨p', hat', hface⟩ := hbecomes.portAt? hat
  exact ⟨p', portIn?_eq_some.2 ⟨n', hn', hat'⟩, hface⟩

/-- One node has become another one, and the others are the same. -/
theorem becomes_of_node? {n n' : Node} (horder : g'.order = g.order) (hn : g.node? id = some n) (h : n.Becomes n')
    (hnodes : ∀ id', g'.node? id' = if id = id' then some n' else g.node? id') : g.Becomes g' := by
  refine ⟨horder, fun id' m hm => ?_⟩
  rw [hnodes]
  split_ifs with hid
  · obtain rfl : n = m := Option.some.inj (hn.symm.trans (hid ▸ hm))
    exact ⟨n', rfl, h⟩
  · exact ⟨m, hm, .refl m⟩

/-- Whatever happens to a graph in a run, its nodes stay what they are. -/
theorem Consistent.becomes_enact (hg : g.Consistent) (act : Act) : g.Becomes (g.enact act) := by
  have hrefl : g.Becomes g := .refl g
  have hmodify : ∀ id (f : Node → Node), (∀ n : Node, n.Becomes (f n)) → g.Becomes (g.modifyNode id f) := by
    intro id f hf
    cases hn : g.node? id with
    | none => rw [modifyNode_of_none hn]; exact hrefl
    | some n =>
      rw [modifyNode_of_some hn]
      refine becomes_of_node? rfl hn (hf n) fun id' => ?_
      rw [node?_evolve, (hf n).id, hg.named hn]
  have hreindex : ∀ {g' : Graph} id, g.Becomes g' → g.Becomes (g'.reindex id) := fun id h =>
    ⟨(reindex_order ..).trans h.order, fun id' n hn => by rw [node?_reindex]; exact h.members id' n hn⟩
  cases act with
  | prepare a => exact hmodify a.node _ Node.becomes_prepare
  | remember id memory => exact hmodify id _ fun n => n.becomes_status memory n.status n.lastError
  | reset id => exact hmodify id _ fun n => n.becomes_status n.memory .idle none
  | clear id => exact hreindex id (hmodify id _ Node.becomes_clearInputs)
  | settle id result =>
    cases hn : g.node? id with
    | none => simp only [enact, settle, hn]; exact hrefl
    | some n =>
      simp only [enact, settle, hn]
      have hended := (n.becomes_complete result g.supply).1
      refine hreindex id (becomes_of_node? rfl hn hended fun id' => ?_)
      rw [node?_evolve, hended.id, hg.named hn]
  | take id =>
    cases hn : g.node? id with
    | none => simp only [enact, take, hn]; exact hrefl
    | some n =>
      have htaken := n.becomes_consume ((g.sources n).map Prod.fst)
      rw [enact, (hg.take_eq hn).2]
      refine becomes_of_node? rfl hn htaken fun id' => ?_
      rw [node?_setNode, htaken.id, hg.named hn]
  | offer o =>
    simp only [enact]
    split
    · rename_i v g' hanswer
      unfold answer? at hanswer
      split_ifs at hanswer
      obtain ⟨owner, n, n', s', -, hn, hw, rfl⟩ := write_eq_ok (Option.some.inj hanswer)
      obtain ⟨slot, p, p', hp, hpw, rfl⟩ := Node.write_eq_ok hw
      obtain ⟨hid, htype⟩ := Port.writeAt_head hpw
      have hbecomes : n.Becomes (n.setPort slot p') := Node.becomes_setPort hp (Prod.ext hid htype)
      refine hreindex owner (becomes_of_node? rfl hn hbecomes fun id' => ?_)
      rw [node?_evolve, Node.setPort_id, hg.named hn]
    · exact hrefl
  | publish => exact hrefl

/-! ### Wires -/

/-- The edge from one end of a wire to the other. -/
def edge? (g : Graph) (w : Wire) : Option Edge := do
  let p ← g.portIn? w.source (.output w.output)
  let q ← g.portIn? w.target (.input w.input)
  return ⟨p.id, q.id⟩

/-- The value that waits at the beginning of a wire to be moved. -/
def sent? (g : Graph) (w : Wire) : Option Value :=
  (g.portIn? w.source (.output w.output)).bind Port.fresh?

/-- The value that waits at the end of a wire to be consumed. -/
def received? (g : Graph) (w : Wire) : Option Value :=
  (g.portIn? w.target (.input w.input)).bind Port.held?

/-- What a node remembers. -/
def memory? (g : Graph) (id : NodeId) : Option Memory :=
  (g.node? id).map Node.memory

theorem edge?_eq_some {e : Edge} : g.edge? w = some e ↔ ∃ p q, g.portIn? w.source (.output w.output) = some p ∧
    g.portIn? w.target (.input w.input) = some q ∧ e = ⟨p.id, q.id⟩ := by
  simp only [edge?, Option.bind_eq_bind, Option.bind_eq_some_iff, Option.pure_def, Option.some.injEq]
  exact ⟨fun ⟨p, hp, q, hq, he⟩ => ⟨p, q, hp, hq, he.symm⟩, fun ⟨p, q, hp, hq, he⟩ => ⟨p, hp, q, hq, he.symm⟩⟩

theorem Becomes.edge? (h : g.Becomes g') {e : Edge} (he : g.edge? w = some e) : g'.edge? w = some e := by
  obtain ⟨p, q, hp, hq, rfl⟩ := edge?_eq_some.1 he
  obtain ⟨p', hp', hpid, -⟩ := h.portIn? hp
  obtain ⟨q', hq', hqid, -⟩ := h.portIn? hq
  exact edge?_eq_some.2 ⟨p', q', hp', hq', by rw [hpid, hqid]⟩

/-- A port is found at its node. -/
theorem Regular.ownerOf?_of_portAt? (hg : g.Regular) {id : NodeId} {n : Node} {slot : Slot} {p : Port}
    (hn : g.node? id = some n) (hp : n.portAt? slot = some p) : g.ownerOf? p.id = some id :=
  hg.owned.2 ⟨n, hn, (Node.mem_portIds (hg.ordered hn)).2 ⟨slot, p, hp, Port.id_mem_ids p⟩⟩

/-- The edges of a graph are some wires, none of which is flagged. No two of them begin at one node or end at one node. -/
structure WiredBy (wires : List Wire) (g : Graph) : Prop extends g.Regular where
  indexed : g.Indexed
  filled : Filled g.inEdges
  fit : g.flagged = []
  sources : (wires.map Wire.source).Nodup
  targets : (wires.map Wire.target).Nodup
  laid : ∀ w ∈ wires, ∃ e ∈ g.edges, g.edge? w = some e
  all : ∀ e ∈ g.edges, ∃ w ∈ wires, g.edge? w = some e

/-- A value has moved along a wire, and nothing else has. -/
structure Shifts (wires : List Wire) (w : Wire) (v : Value) (g g' : Graph) : Prop where
  sent : ∀ w' ∈ wires, g'.sent? w' = if w' = w then none else g.sent? w'
  received : ∀ w' ∈ wires, g'.received? w' = if w' = w then some v else g.received? w'
  shells : ∀ id, (g'.node? id).map Node.shell = (g.node? id).map Node.shell

/-- A single offer that is accepted is a transfer, and reaches the relay that owns its target. -/
theorem deliver_single {o : Offer} {v : Value} (hs : g.skips o.edge = false)
    (hw : g.write o.edge.target o.value = .ok (v, g')) :
    deliver [o] ⟨g, [], [], none⟩ =
      ⟨g', [⟨o.edge.source, o.edge.target, v⟩], (g'.relayAt? o.edge.target).toList, none⟩ := by
  rw [deliver, if_neg (by rw [hs]; decide), hw]
  dsimp only
  cases g'.relayAt? o.edge.target <;> rfl

namespace WiredBy

theorem consistent (hg : g.WiredBy wires) : g.Consistent where
  toIdentified := hg.toIdentified
  agrees := hg.toRegular.agrees_of_indexed hg.indexed
  proper := hg.proper
  filled := hg.filled

/-- A graph stays wired, whatever happens to it. -/
theorem enact (hg : g.WiredBy wires) (act : Act) : (g.enact act).WiredBy wires := by
  have hbecomes := hg.consistent.becomes_enact act
  obtain ⟨-, -, hflagged, -, hin⟩ := edges_enact g act
  have hedges := edges_unchanged hg.toIdentified act
  refine ⟨hg.toRegular.enact act, hg.indexed.replay hg.toIdentified [act], hin ▸ hg.filled, hflagged.trans hg.fit,
    hg.sources, hg.targets, fun w hw => ?_, fun e he => ?_⟩
  · obtain ⟨e, he, hends⟩ := hg.laid w hw
    exact ⟨e, hedges ▸ he, hbecomes.edge? hends⟩
  · obtain ⟨w, hw, hends⟩ := hg.all e (hedges ▸ he)
    exact ⟨w, hw, hbecomes.edge? hends⟩

theorem replay (hg : g.WiredBy wires) (acts : List Act) : (g.replay acts).WiredBy wires := by
  induction acts generalizing g with
  | nil => exact hg
  | cons act rest ih => exact ih (hg.enact act)

theorem becomes_replay (hg : g.WiredBy wires) (acts : List Act) : g.Becomes (g.replay acts) := by
  induction acts generalizing g with
  | nil => exact .refl g
  | cons act rest ih => exact (hg.consistent.becomes_enact act).trans (ih (hg.enact act))

section Ends

variable (hg : g.WiredBy wires)

include hg

theorem exists_source (hw : w ∈ wires) : ∃ n, g.node? w.source = some n := by
  obtain ⟨e, -, hends⟩ := hg.laid w hw
  obtain ⟨p, -, hp, -⟩ := edge?_eq_some.1 hends
  exact (portIn?_eq_some.1 hp).imp fun _ h => h.1

theorem exists_target (hw : w ∈ wires) : ∃ n, g.node? w.target = some n := by
  obtain ⟨e, -, hends⟩ := hg.laid w hw
  obtain ⟨-, q, -, hq, -⟩ := edge?_eq_some.1 hends
  exact (portIn?_eq_some.1 hq).imp fun _ h => h.1

theorem eq_of_source {w' : Wire} (hw : w ∈ wires) (hw' : w' ∈ wires) (h : w'.source = w.source) : w' = w :=
  List.inj_on_of_nodup_map hg.sources hw' hw h

theorem eq_of_target {w' : Wire} (hw : w ∈ wires) (hw' : w' ∈ wires) (h : w'.target = w.target) : w' = w :=
  List.inj_on_of_nodup_map hg.targets hw' hw h

/-- An edge that begins in a place is that of a wire from there. -/
theorem wire_of_source {e : Edge} (he : e ∈ g.edges) {slot : Slot} {p : Port} (hp : g.portIn? id slot = some p)
    (hin : e.source ∈ p.ids) : ∃ w ∈ wires, w.source = id ∧ slot = .output w.output ∧ g.edge? w = some e := by
  obtain ⟨w, hw, hends⟩ := hg.all e he
  obtain ⟨p', q, hp', -, rfl⟩ := edge?_eq_some.1 hends
  obtain ⟨rfl, rfl⟩ := hg.toIdentified.portIn?_unique hp hp' hin (Port.id_mem_ids p')
  exact ⟨w, hw, rfl, rfl, hends⟩

/-- An edge that ends in a place is that of a wire to there. -/
theorem wire_of_target {e : Edge} (he : e ∈ g.edges) {slot : Slot} {q : Port} (hq : g.portIn? id slot = some q)
    (hin : e.target ∈ q.ids) : ∃ w ∈ wires, w.target = id ∧ slot = .input w.input ∧ g.edge? w = some e := by
  obtain ⟨w, hw, hends⟩ := hg.all e he
  obtain ⟨p, q', -, hq', rfl⟩ := edge?_eq_some.1 hends
  obtain ⟨rfl, rfl⟩ := hg.toIdentified.portIn?_unique hq hq' hin (Port.id_mem_ids q')
  exact ⟨w, hw, rfl, rfl, hends⟩

theorem isTarget_iff {p : PortId} : g.isTarget p = true ↔ ∃ e ∈ g.edges, e.target = p := by
  constructor
  · intro h
    obtain ⟨q, hq⟩ := exists_of_contains hg.filled h
    exact ⟨⟨q, p⟩, Edge.mem_sourcesOf.1 ((hg.indexed.into p).symm ▸ hq), rfl⟩
  · rintro ⟨e, he, rfl⟩
    have hmem : e.source ∈ g.incoming e.target := by rw [hg.indexed.into]; exact Edge.mem_sourcesOf.2 he
    by_contra hnone
    rw [isTarget, Table.contains, Bool.not_eq_true, Option.isSome_eq_false_iff, Option.isNone_iff_eq_none] at hnone
    rw [incoming, hnone] at hmem
    cases hmem

end Ends

/-! ### The scan -/

section Scan

variable (hg : g.WiredBy wires) (hn : g.node? id = some n)

include hg hn

/-- The connected inputs of a node are the end of the wire that leads to it. -/
theorem gauge_fed (hw : w ∈ wires) (hid : w.target = id) {q : Port} (hq : n.portAt? (.input w.input) = some q) :
    (n.gauge.filter fun e => g.isTarget e.1) = [(q.id, q.hasData)] := by
  have ho := hg.ordered hn
  have hnodup : (n.gauge.map Prod.fst).Nodup := by
    rw [← Node.triggerIds_eq]
    refine (hg.distinct hn).sublist (List.Sublist.flatMap ?_ _)
    simp only [Node.triggers, Node.ports, List.append_assoc, List.cons_append]
    exact (List.sublist_append_left _ _).cons_cons _
  have hmem : (q.id, q.hasData) ∈ n.gauge :=
    List.mem_map.2 ⟨q, List.mem_flatMap.2 ⟨q, (Node.mem_triggers ho).2 ⟨_, rfl, hq⟩, Port.self_mem_flatten q⟩, rfl⟩
  have hq' : g.portIn? w.target (.input w.input) = some q := by rw [portIn?_of_node? (hid ▸ hn), hq]
  obtain ⟨e, he, hends⟩ := hg.laid w hw
  obtain ⟨p, q', -, hqe, rfl⟩ := edge?_eq_some.1 hends
  obtain rfl : q = q' := Option.some.inj (hq'.symm.trans hqe)
  rw [filter_of_unique hnodup.of_map hmem fun entry hentry htarget => ?_, if_pos (hg.isTarget_iff.2 ⟨_, he, rfl⟩)]
  -- another connected input would be the end of another wire to the node
  obtain ⟨e', he', htarget'⟩ := hg.isTarget_iff.1 htarget
  have hin : entry.1 ∈ n.triggerIds := by rw [Node.triggerIds_eq]; exact List.mem_map_of_mem hentry
  obtain ⟨slot, top, -, htop, hin⟩ := (Node.mem_triggerIds ho).1 hin
  obtain ⟨w', hw', hid', rfl, hends'⟩ := hg.wire_of_target he' (portIn?_eq_some.2 ⟨n, hn, htop⟩) (htarget' ▸ hin)
  obtain rfl := hg.eq_of_target hw hw' (hid'.trans hid.symm)
  refine List.inj_on_of_nodup_map hnodup hentry hmem ?_
  rw [hends] at hends'
  rw [← htarget', ← Option.some.inj hends']

/-- A node to which no wire leads has no connected inputs. -/
theorem gauge_unfed (hnone : ∀ w ∈ wires, w.target ≠ id) : (n.gauge.filter fun e => g.isTarget e.1) = [] := by
  refine List.filter_eq_nil_iff.2 fun entry hentry htarget => ?_
  obtain ⟨e, he, htarget⟩ := hg.isTarget_iff.1 htarget
  have hin : entry.1 ∈ n.triggerIds := by rw [Node.triggerIds_eq]; exact List.mem_map_of_mem hentry
  obtain ⟨slot, top, -, htop, hin⟩ := (Node.mem_triggerIds (hg.ordered hn)).1 hin
  obtain ⟨w, hw, hid, -⟩ := hg.wire_of_target he (portIn?_eq_some.2 ⟨n, hn, htop⟩) (htarget ▸ hin)
  exact hnone w hw hid

/-- A node to which a wire leads is ready for a value that has come along it. -/
theorem readiness_fed (hd : n.isDisabled = false) (hw : w ∈ wires) (hid : w.target = id) :
    n.readiness (g.connectedInputs id) = .ready ↔ n.hasPendingWork = true ∨ (g.received? w).isSome = true := by
  obtain ⟨e, he, hends⟩ := hg.laid w hw
  obtain ⟨p, q, -, hq, rfl⟩ := edge?_eq_some.1 hends
  have hat : n.portAt? (.input w.input) = some q := by rwa [hid, portIn?_of_node? hn] at hq
  have hreceived : (g.received? w).isSome = q.hasData := by
    rw [received?, hq, Option.bind_some, Port.held?]
    split_ifs with hdata <;> simp [hdata]
  have hfed : Node.isFed n.behavior.policy n.gauge g.isTarget = q.hasData := by
    unfold Node.isFed
    rw [hg.gauge_fed hn hw hid hat]
    cases n.behavior.policy <;> simp
  rw [Node.readiness_eq_ready hd, filter_connectedInputs hn, isFed_connectedInputs hn, hfed, hreceived,
    hg.gauge_fed hn hw hid hat]
  simp

theorem isReady_fed (hd : n.isDisabled = false) (hw : w ∈ wires) (hid : w.target = id) :
    g.isReady id = true ↔ n.hasPendingWork = true ∨ (g.received? w).isSome = true := by
  rw [← hg.readiness_fed hn hd hw hid, isReady, hn, decide_eq_true_eq]

theorem connectedInputs_fed (hw : w ∈ wires) (hid : w.target = id) : g.connectedInputs id ≠ [] := by
  obtain ⟨e, he, hends⟩ := hg.laid w hw
  obtain ⟨p, q, -, hq, rfl⟩ := edge?_eq_some.1 hends
  have hat : n.portAt? (.input w.input) = some q := by rwa [hid, portIn?_of_node? hn] at hq
  rw [ne_eq, connectedInputs_eq_nil hn, hg.gauge_fed hn hw hid hat]
  exact List.cons_ne_nil _ _

theorem connectedInputs_unfed (hnone : ∀ w ∈ wires, w.target ≠ id) : g.connectedInputs id = [] :=
  (connectedInputs_eq_nil hn).2 (hg.gauge_unfed hn hnone)

/-- A node to which a wire leads takes part in a scan if a value has come along it. -/
theorem wants_fed (hd : n.isDisabled = false) (hw : w ∈ wires) (hid : w.target = id) (fired : List NodeId) :
    g.wants fired id = true ↔ n.hasPendingWork = true ∨ (g.received? w).isSome = true := by
  have hconnected : (g.connectedInputs id).isEmpty = false := by simpa using hg.connectedInputs_fed hn hw hid
  rw [← hg.readiness_fed hn hd hw hid, wants, hn, Option.any_some, Run.joins, hg.named hn]
  simp [hconnected]

/-- A node to which no wire leads takes part in one scan. -/
theorem wants_unfed (hd : n.isDisabled = false) (hnone : ∀ w ∈ wires, w.target ≠ id) (hpending : n.hasPendingWork = false)
    (hrefires : n.behavior.refires = false) (fired : List NodeId) : g.wants fired id = true ↔ id ∉ fired := by
  have hready : n.readiness (g.connectedInputs id) = .ready := by
    rw [Node.readiness_eq_ready hd, filter_connectedInputs hn]
    exact Or.inr (Or.inl (hg.gauge_unfed hn hnone))
  rw [hg.connectedInputs_unfed hn hnone] at hready
  rw [wants, hn, Option.any_some, Run.joins, hg.named hn, hg.connectedInputs_unfed hn hnone]
  simp [hready, hpending, hrefires]

end Scan

/-! ### Moving outputs -/

section Move

variable (hg : g.WiredBy wires) (hn : g.node? id = some n)

include hg hn

/-- A port of the output side that feeds another one is at the beginning of a wire. -/
theorem port_of_source {e : Edge} (he : e ∈ g.edges) {p : Port} (hp : p ∈ n.outputSide.flatMap Port.flatten)
    (hid : e.source = p.id) : ∃ w ∈ wires, w.source = id ∧ n.portAt? (.output w.output) = some p := by
  have ho := hg.ordered hn
  obtain ⟨top, htop, hin⟩ := List.mem_flatMap.1 hp
  obtain ⟨slot, hslot, hat⟩ := (Node.mem_outputSide ho).1 htop
  have hmem : e.source ∈ top.ids := hid ▸ Port.mem_ids_iff.2 ⟨p, hin, rfl⟩
  obtain ⟨w, hw, rfl, rfl, hends⟩ := hg.wire_of_source he (portIn?_eq_some.2 ⟨n, hn, hat⟩) hmem
  obtain ⟨p', q, hp', -, rfl⟩ := edge?_eq_some.1 hends
  rw [portIn?_of_node? hn] at hp'
  have hp'' : p' ∈ n.outputSide.flatMap Port.flatten :=
    List.mem_flatMap.2 ⟨p', (Node.mem_outputSide ho).2 ⟨_, rfl, hp'⟩, Port.self_mem_flatten p'⟩
  have hnodup := nodup_outputIds (hg.distinct hn)
  rw [outputIds_eq] at hnodup
  obtain rfl := List.inj_on_of_nodup_map hnodup hp'' hp hid
  exact ⟨w, hw, rfl, hp'⟩

theorem sources_idle (hnone : ∀ w ∈ wires, w.source = id → g.sent? w = none) : g.sources n = [] := by
  rw [Graph.sources, List.map_eq_nil_iff, List.filter_eq_nil_iff]
  intro p hp hfresh
  rw [Bool.and_eq_true, List.any_eq_true] at hfresh
  obtain ⟨hnew, e, he, hid⟩ := hfresh
  obtain ⟨w, hw, rfl, hat⟩ := hg.port_of_source hn he hp (of_decide_eq_true hid)
  have hsent := hnone w hw rfl
  rw [sent?, portIn?_of_node? hn, hat, Option.bind_some, Port.fresh?, if_pos hnew] at hsent
  cases hsent

theorem sources_sent (hw : w ∈ wires) (hid : w.source = id) {p : Port} (hp : n.portAt? (.output w.output) = some p)
    (hnew : p.hasNewData = true) : g.sources n = [(p.id, p.data)] := by
  obtain ⟨e, he, hends⟩ := hg.laid w hw
  obtain ⟨p', q, hp', -, rfl⟩ := edge?_eq_some.1 hends
  rw [hid, portIn?_of_node? hn, hp] at hp'
  cases hp'
  have hmem : p ∈ n.outputSide.flatMap Port.flatten :=
    List.mem_flatMap.2 ⟨p, (Node.mem_outputSide (hg.ordered hn)).2 ⟨_, rfl, hp⟩, Port.self_mem_flatten p⟩
  have hnodup := nodup_outputIds (hg.distinct hn)
  rw [outputIds_eq] at hnodup
  have hfeeds : (g.edges.any fun e => decide (e.source = p.id)) = true :=
    List.any_eq_true.2 ⟨_, he, decide_eq_true rfl⟩
  rw [Graph.sources, filter_of_unique hnodup.of_map hmem fun p' hp' hfresh => ?_, if_pos (by rw [hnew, hfeeds]; rfl),
    List.map_singleton]
  rw [Bool.and_eq_true, List.any_eq_true] at hfresh
  obtain ⟨-, e', he', hsource⟩ := hfresh
  obtain ⟨w', hw', hid', hat⟩ := hg.port_of_source hn he' hp' (of_decide_eq_true hsource)
  obtain rfl := hg.eq_of_source hw hw' (hid'.trans hid.symm)
  exact Option.some.inj (hat.symm.trans hp)

/-- A node without a value to be moved is passed over. -/
theorem idle (hnone : ∀ w ∈ wires, w.source = id → g.sent? w = none) : g.transferOutputs id = ⟨g, [], [], none⟩ := by
  obtain ⟨htaken, htake⟩ := hg.consistent.take_eq hn
  rw [hg.sources_idle hn hnone] at htaken htake
  have hself : g.setNode (n.consume []) = g := by
    rw [Node.consume_nil (hg.ordered hn), setNode, hg.named hn, Table.set_of_find? hn]
  rw [transferOutputs_eq, htaken, htake, List.map_nil, hself]
  rfl

end Move

section Shift

variable (hg : g.WiredBy wires) {v : Value}

include hg

/-- A value is stored at the end of a wire if it needs no conversion there. -/
theorem write_end (hn : g.node? w.target = some n)
    (hv : ∀ q, n.portAt? (.input w.input) = some q → v.convert q.dataType = .ok v) {e : Edge} (hends : g.edge? w = some e) :
    ∃ q q' s', g.portIn? w.target (.input w.input) = some q ∧ q.Stores v q' ∧ q.id = e.target ∧
      g.write e.target v = .ok (v, (g.evolve (n.setPort (.input w.input) q') s').reindex w.target) := by
  obtain ⟨p, q, -, hq, rfl⟩ := edge?_eq_some.1 hends
  have hat := hq
  rw [portIn?_of_node? hn] at hat
  obtain ⟨q', s', hwrite, hstores⟩ := Port.stores_write (hv q hat) g.supply
  refine ⟨q, q', s', hq, hstores, rfl, ?_⟩
  have howner : g.ownerOf? q.id = some w.target := hg.ownerOf?_of_portAt? hn hat
  have hnode := Node.write_top (hg.ordered hn) (hg.distinct hn) hat v g.supply
  rw [hwrite] at hnode
  simp only [Graph.write, howner, hn, hnode, Option.bind_eq_bind, Option.bind_some, Except.map, Option.pure_def]
  rfl

variable (hw : w ∈ wires)

include hw

/-- The value at the beginning of a wire is offered along it, and nothing else is. -/
theorem offers_sent (hsent : g.sent? w = some v) {e : Edge} (hends : g.edge? w = some e) :
    (g.take w.source).offers (g.taken w.source) = [⟨e, v⟩] := by
  obtain ⟨p, q, hp, -, rfl⟩ := edge?_eq_some.1 hends
  obtain ⟨m, hm, hat⟩ := portIn?_eq_some.1 hp
  obtain ⟨hnew, hdata⟩ : p.hasNewData = true ∧ p.data = v := by
    rw [sent?, hp, Option.bind_some, Port.fresh?] at hsent
    split_ifs at hsent with hnew
    exact ⟨hnew, Option.some.inj hsent⟩
  obtain ⟨htaken, htake⟩ := hg.consistent.take_eq hm
  have hedge : (⟨p.id, q.id⟩ : Edge) ∈ g.edges := by
    obtain ⟨e, he, hends'⟩ := hg.laid w hw
    rwa [← Option.some.inj (hends'.symm.trans hends)]
  rw [htaken, htake, hg.consistent.offers_eq, hg.sources_sent hm hw rfl hat hnew, hdata, routes, List.flatMap_singleton]
  dsimp only
  rw [filter_of_unique hg.simple hedge fun e' he' hid => ?_, if_pos (decide_eq_true rfl), List.map_singleton]
  obtain ⟨w', hw', hid', -, hends'⟩ := hg.wire_of_source he' hp (of_decide_eq_true hid ▸ Port.id_mem_ids p)
  obtain rfl := hg.eq_of_source hw hw' hid'
  exact Option.some.inj (hends'.symm.trans hends)

/-- What changes when a value was transferred along a wire, and nothing else was. -/
theorem shifts_of_dispatched (hsent : g.sent? w = some v) {e : Edge} (hends : g.edge? w = some e) {m : Node}
    (hm : g.node? w.source = some m) {d : Delivery} (hd : g.Dispatched w.source m d)
    (htransfers : d.transfers = [⟨e.source, e.target, v⟩]) (hreceived : d.graph.received? w = some v) :
    g.Shifts wires w v d.graph := by
  obtain ⟨p, q, hp, hq, rfl⟩ := edge?_eq_some.1 hends
  have hat : m.portAt? (.output w.output) = some p := by rwa [portIn?_of_node? hm] at hp
  have hnew : p.hasNewData = true := by
    rw [sent?, hp, Option.bind_some, Port.fresh?] at hsent
    split_ifs at hsent with hnew
    exact hnew
  refine ⟨fun w' hw' => ?_, fun w' hw' => ?_, hd.shells⟩
  · rw [sent?, hd.outputs w'.source _ rfl]
    by_cases hsame : w' = w
    · subst hsame
      rw [if_pos rfl, if_pos rfl, hp, hg.sources_sent hm hw rfl hat hnew, Option.map_some, Option.bind_some, Port.fresh?,
        Port.hasNewData_consume]
      simp
    · rw [if_neg hsame, if_neg fun hsource => hsame (hg.eq_of_source hw hw' hsource), sent?]
  · by_cases hsame : w' = w
    · rw [if_pos hsame, hsame, hreceived]
    · rw [if_neg hsame, received?, received?]
      rcases hd.inputs w'.target (.input w'.input) rfl with heq | ⟨t, ht, top, htop, hin⟩
      · rw [heq]
      · -- something came to another place, so that it was not the end of the wire
        rw [htransfers, List.mem_singleton] at ht
        subst ht
        obtain ⟨htarget, -⟩ := hg.toIdentified.portIn?_unique htop hq hin (Port.id_mem_ids q)
        exact absurd (hg.eq_of_target hw hw' htarget) hsame

/-- **A value moves along a wire** to where it is stored as it is. A direct-through node at the end of the wire is reached. -/
theorem shift (hsent : g.sent? w = some v) (hn : g.node? w.target = some n)
    (hv : ∀ q, n.portAt? (.input w.input) = some q → v.convert q.dataType = .ok v) :
    (g.transferOutputs w.source).failure = none ∧
      (g.transferOutputs w.source).relays = (if n.isDirectThrough = true then [w.target] else []) ∧
        g.Shifts wires w v (g.transferOutputs w.source).graph := by
  obtain ⟨e, he, hends⟩ := hg.laid w hw
  obtain ⟨-, q₀, -, hq₀, -⟩ := edge?_eq_some.1 hends
  obtain ⟨m, hm⟩ := hg.exists_source hw
  have hwired : (g.take w.source).WiredBy wires := hg.enact (.take w.source)
  have hbecomes : g.Becomes (g.take w.source) := hg.consistent.becomes_enact (.take w.source)
  obtain ⟨n₁, hn₁, hn₁'⟩ := hbecomes.members _ _ hn
  have hv₁ : ∀ q, n₁.portAt? (.input w.input) = some q → v.convert q.dataType = .ok v := by
    intro q hq
    rw [portIn?_of_node? hn] at hq₀
    obtain ⟨q', hq', -, htype⟩ := hn₁'.portAt? hq₀
    cases hq.symm.trans hq'
    exact htype ▸ hv q₀ hq₀
  obtain ⟨q, q', s', hq, hstores, hqid, hwrite⟩ := hwired.write_end hn₁ hv₁ (hbecomes.edge? hends)
  set g₂ := ((g.take w.source).evolve (n₁.setPort (.input w.input) q') s').reindex w.target with hg₂
  have hnode : g₂.node? w.target = some (n₁.setPort (.input w.input) q') := by
    rw [hg₂, node?_reindex, node?_evolve, Node.setPort_id, if_pos (hwired.named hn₁)]
  have howner₁ : (g.take w.source).ownerOf? e.target = some w.target := by
    rw [portIn?_of_node? hn₁] at hq
    exact hqid ▸ hwired.ownerOf?_of_portAt? hn₁ hq
  have hskips : (g.take w.source).skips e = false := by
    have hset : e ∈ (g.take w.source).edgeSet := hwired.inSet.2 (edges_unchanged hg.toIdentified (.take w.source) ▸ he)
    simp [skips, isEdgeValid, hset, hwired.fit, howner₁]
  have hwired₂ : g₂.WiredBy wires := enact_of_write (o := ⟨e, v⟩) hskips hwrite ▸ hwired.enact (.offer ⟨e, v⟩)
  have hrelay : g₂.relayAt? e.target = if n.isDirectThrough = true then some w.target else none := by
    have hat : (n₁.setPort (.input w.input) q').portAt? (.input w.input) = some q' := by
      rw [Node.portAt?_setPort, if_pos rfl]
    have howner : g₂.ownerOf? e.target = some w.target := by
      rw [← hqid, ← (Prod.mk.inj hstores.face).1]
      exact hwired₂.ownerOf?_of_portAt? hnode hat
    have hdirect : (n₁.setPort (.input w.input) q').isDirectThrough = n.isDirectThrough := by
      rw [Node.isDirectThrough, Node.setPort_behavior, hn₁'.behavior, Node.isDirectThrough]
    simp only [relayAt?, howner, hnode, hdirect, Option.bind_eq_bind, Option.bind_some]
  -- the only offer is the one along the wire
  have htransfer : g.transferOutputs w.source = ⟨g₂, [⟨e.source, e.target, v⟩], (g₂.relayAt? e.target).toList, none⟩ := by
    rw [transferOutputs_eq, hg.offers_sent hw hsent hends, deliver_single hskips hwrite]
  have hreceived : g₂.received? w = some v := by
    rw [received?, portIn?_of_node? hnode, Node.portAt?_setPort, if_pos rfl, Option.bind_some, hstores.held?]
  have hdispatched := hg.consistent.dispatched hg.toRegular.directed hm
  rw [htransfer] at hdispatched ⊢
  refine ⟨rfl, ?_, hg.shifts_of_dispatched hw hsent hends hm hdispatched rfl hreceived⟩
  rw [hrelay]
  split_ifs <;> rfl

end Shift

end WiredBy

end Graph

end Dataflow
