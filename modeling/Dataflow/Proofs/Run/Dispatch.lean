import Dataflow.Proofs.Node.Consumption
import Dataflow.Proofs.Run.Arrivals

/-!
# Moving the outputs of a node

When the outputs of a node are moved, the graph changes under the loop that walks it: a write to a container may take away
a port to which a later edge leads, and a refused write ends the loop midway.

* `Graph.sources` are the values to be moved and `Graph.routes` the ways they go, in order, as read off the graph at the
  beginning;
* `Graph.Attempts` says what is made of a list of offers, one after the other, each in the graph that the ones before it left;
* `Graph.attempts_deliver`: this is what the loop makes of them;
* `Graph.Attempts.portIn?_eq`, `Graph.Attempts.shell_eq`: nothing changes but ports to whose tree something was written;
* `Graph.Dispatched` puts together what moving the outputs of a node comes to, and `Run.dispatches` says that it is so.
-/

namespace Dataflow

namespace Graph

/-! ### What is to be moved, and where to -/

/-- The outputs of a node that are to be moved, with the values they hold: the ports of the output side that are unread
and at which an edge begins, a container before its elements. -/
def sources (g : Graph) (n : Node) : List (PortId × Value) :=
  ((n.outputSide.flatMap Port.flatten).filter fun p => p.hasNewData && g.edges.any fun e => decide (e.source = p.id)).map
    fun p => (p.id, p.data)

/-- The edges along which values are to be moved: for each value those that begin at its port, in the order of the edges. -/
def routes (g : Graph) (values : List (PortId × Value)) : List Offer :=
  values.flatMap fun (port, v) => (g.edges.filter fun e => e.source = port).map fun e => ⟨e, v⟩

section Sources

variable {g : Graph} {id : NodeId} {n : Node}

theorem outputIds_eq (n : Node) : n.outputIds = (n.outputSide.flatMap Port.flatten).map Port.id := by
  rw [Node.outputIds, List.map_flatMap]
  exact List.flatMap_congr fun p _ => Port.ids_eq_map_flatten p

/-- A look-up finds the ports of the output side. -/
theorem port?_of_mem_outputSide (hn : n.Ordered) (hd : n.portIds.Nodup) {p : Port}
    (hp : p ∈ n.outputSide.flatMap Port.flatten) : n.port? p.id = some p := by
  obtain ⟨top, htop, hin⟩ := List.mem_flatMap.1 hp
  obtain ⟨slot, -, hat⟩ := (Node.mem_outputSide hn).1 htop
  rw [Node.port?_eq hn hd hat (Port.mem_ids_iff.2 ⟨p, hin, rfl⟩)]
  exact (Port.find?_eq_some_iff (Node.nodup_ids hn hd hat)).2 ⟨hin, rfl⟩

theorem nodup_outputIds (hd : n.portIds.Nodup) : n.outputIds.Nodup := by
  have hsublist : n.outputSide.Sublist n.ports := by
    simp only [Node.outputSide, Node.ports, List.append_assoc, List.cons_append]
    exact ((List.sublist_append_right _ _).trans (List.sublist_append_right _ _)).trans (List.sublist_cons_self _ _)
  exact hd.sublist (hsublist.flatMap _)

/-- A port feeds another one if an edge begins at it. -/
theorem Consistent.feeds (hg : g.Consistent) (port : PortId) :
    (!(g.outgoing port).isEmpty) = g.edges.any fun e => decide (e.source = port) := by
  rw [hg.agrees.outgoing, Edge.targetsOf, Edge.scan, List.isEmpty_map, Bool.eq_iff_iff]
  simp [List.filter_eq_nil_iff]

/-- What is taken from a node are its sources, and they are read afterwards. -/
theorem Consistent.take_eq (hg : g.Consistent) (hn : g.node? id = some n) :
    g.taken id = g.sources n ∧ g.take id = g.setNode (n.consume ((g.sources n).map Prod.fst)) := by
  have ho := hg.ordered hn
  have hd := hg.distinct hn
  have hfeeds := hg.feeds
  have hvalues : (g.feedingPorts n).filterMap (unread? n) = g.sources n := by
    have hall : ∀ ps : List Port, (∀ p ∈ ps, n.port? p.id = some p) →
        ((ps.map Port.id).filter fun port => !(g.outgoing port).isEmpty).filterMap (unread? n) =
          (ps.filter fun p => p.hasNewData && g.edges.any fun e => decide (e.source = p.id)).map fun p => (p.id, p.data) := by
      intro ps hps
      induction ps with
      | nil => rfl
      | cons p rest ih =>
        obtain ⟨hp, hrest⟩ := List.forall_mem_cons.1 hps
        have hunread : unread? n p.id = if p.hasNewData then some (p.id, p.data) else none := by
          rw [unread?, hp, Option.bind_some]
        rw [List.map_cons, List.filter_cons, List.filter_cons, hfeeds]
        by_cases hedge : g.edges.any fun e => decide (e.source = p.id) <;> by_cases hnew : p.hasNewData = true <;>
          simp [hedge, hnew, hunread, ih hrest]
    rw [feedingPorts, outputIds_eq, hall _ fun p hp => port?_of_mem_outputSide ho hd hp]
    rfl
  have htake := takeUnread_eq ho hd ((nodup_outputIds hd).filter _) (g.feedingPorts_subset n)
  rw [← feedingPorts, hvalues] at htake
  constructor
  · simp only [taken, hn, htake]
  · simp only [take, hn, htake]

/-- The offers are made along the edges, in their order. -/
theorem Consistent.offers_eq (hg : g.Consistent) (n' : Node) (values : List (PortId × Value)) :
    (g.setNode n').offers values = g.routes values := by
  refine List.flatMap_congr fun value _ => ?_
  dsimp only
  rw [show (g.setNode n').outgoing value.1 = g.outgoing value.1 from rfl, hg.agrees.outgoing, Edge.targetsOf, Edge.scan,
    List.map_map]
  refine List.map_congr_left fun e he => ?_
  have hsource : e.source = value.1 := by simpa using (List.mem_filter.1 he).2
  rw [Function.comp_apply, ← hsource]

theorem mem_routes {values : List (PortId × Value)} {o : Offer} (h : o ∈ g.routes values) : o.edge ∈ g.edges := by
  obtain ⟨value, -, ho⟩ := List.mem_flatMap.1 h
  obtain ⟨e, he, rfl⟩ := List.mem_map.1 ho
  exact (List.mem_filter.1 he).1

end Sources

/-! ### One offer after the other -/

/-- Offers are made one after the other. Those along flagged edges and those to ports that are gone are passed over, each
accepted one is a transfer of the value as stored, and the first refused one ends it. -/
inductive Attempts : Graph → List Offer → List Transfer → Option String → Graph → Prop
  | done (g : Graph) : Attempts g [] [] none g
  | flagged {g g' : Graph} {o : Offer} {rest : List Offer} {transfers : List Transfer} {failure : Option String}
      (hflag : o.edge ∈ g.flagged) (hrest : Attempts g rest transfers failure g') :
      Attempts g (o :: rest) transfers failure g'
  | vanished {g g' : Graph} {o : Offer} {rest : List Offer} {transfers : List Transfer} {failure : Option String}
      (hflag : o.edge ∉ g.flagged) (hgone : ∀ id n, g.node? id = some n → o.edge.target ∉ n.portIds)
      (hrest : Attempts g rest transfers failure g') : Attempts g (o :: rest) transfers failure g'
  | moved {g g₁ g' : Graph} {o : Offer} {rest : List Offer} {transfers : List Transfer} {failure : Option String}
      {w : Value} (hflag : o.edge ∉ g.flagged) (hw : g.write o.edge.target o.value = .ok (w, g₁))
      (hrest : Attempts g₁ rest transfers failure g') :
      Attempts g (o :: rest) (⟨o.edge.source, o.edge.target, w⟩ :: transfers) failure g'
  | refused {g : Graph} {o : Offer} {rest : List Offer} {error : GraphError} (hflag : o.edge ∉ g.flagged)
      (hthere : ∃ id n, g.node? id = some n ∧ o.edge.target ∈ n.portIds)
      (hw : g.write o.edge.target o.value = .error error) : Attempts g (o :: rest) [] (some (o.failure error)) g

section Attempts

variable {g g' : Graph} {offers : List Offer} {transfers : List Transfer} {failure : Option String}

/-- An accepted offer changes the graph as an act of a run does. -/
theorem enact_of_write {o : Offer} {w : Value} (hs : g.skips o.edge = false)
    (hw : g.write o.edge.target o.value = .ok (w, g')) : g.enact (.offer o) = g' := by
  have hanswer : g.answer? o = some (.ok (w, g')) := by rw [answer?, if_neg (by rw [hs]; decide), hw]
  simp only [enact, hanswer]

/-- The loop makes one attempt after the other. -/
theorem attempts_deliver (hg : g.Identified) (ho : g.Owned) (hset : ∀ o ∈ offers, o.edge ∈ g.edgeSet)
    (before : List Transfer) (relays : List NodeId) :
    let d := deliver offers ⟨g, before, relays, none⟩
    ∃ transfers, d.transfers = before ++ transfers ∧ Attempts g offers transfers d.failure d.graph := by
  induction offers generalizing g before relays with
  | nil => exact ⟨[], (List.append_nil _).symm, .done g⟩
  | cons o rest ih =>
    obtain ⟨hin, hrest⟩ := List.forall_mem_cons.1 hset
    have howner : ∀ id, g.ownerOf? o.edge.target = some id → ∃ id n, g.node? id = some n ∧ o.edge.target ∈ n.portIds :=
      fun id h => ⟨id, ho.owned.1 h⟩
    have hvalid : g.isEdgeValid o.edge = true ↔ o.edge ∉ g.flagged := by simp [isEdgeValid, hin]
    by_cases hs : g.skips o.edge = true
    · rw [deliver, if_pos hs]
      obtain ⟨transfers, htransfers, hattempts⟩ := ih hg ho hrest before relays
      refine ⟨transfers, htransfers, ?_⟩
      by_cases hflag : o.edge ∈ g.flagged
      · exact .flagged hflag hattempts
      · refine .vanished hflag (fun id n hn hmem => ?_) hattempts
        rw [skips, hvalid.2 hflag, Bool.not_true, Bool.false_or, Option.isNone_iff_eq_none] at hs
        rw [ho.owned.2 ⟨n, hn, hmem⟩] at hs
        cases hs
    · rw [deliver, if_neg hs]
      rw [Bool.not_eq_true] at hs
      have hparts := hs
      rw [skips, Bool.or_eq_false_iff, Bool.not_eq_false'] at hparts
      have hflag := hvalid.1 hparts.1
      cases hw : g.write o.edge.target o.value with
      | error error =>
        obtain ⟨owner, hsome⟩ := Option.isSome_iff_exists.1 (Option.isNone_eq_false_iff.1 hparts.2)
        exact ⟨[], (List.append_nil _).symm, .refused hflag (howner owner hsome) hw⟩
      | ok result =>
        obtain ⟨w, g₁⟩ := result
        have henact := enact_of_write hs hw
        have hedges := edges_enact g (.offer o)
        rw [henact] at hedges
        obtain ⟨transfers, htransfers, hattempts⟩ := ih (g := g₁) (henact ▸ hg.enact _) (henact ▸ ho.enact hg _)
          (fun o' ho' => by rw [hedges.2.1]; exact hrest o' ho') (before ++ [⟨o.edge.source, o.edge.target, w⟩]) _
        exact ⟨⟨o.edge.source, o.edge.target, w⟩ :: transfers, by rw [htransfers, List.append_assoc]; rfl,
          .moved hflag hw hattempts⟩

/-- What was transferred was offered. -/
theorem Attempts.offered (h : Attempts g offers transfers failure g') {t : Transfer} (ht : t ∈ transfers) :
    ∃ o ∈ offers, t.source = o.edge.source ∧ t.target = o.edge.target := by
  induction h with
  | done | refused => exact absurd ht List.not_mem_nil
  | flagged _ _ ih | vanished _ _ _ ih =>
    obtain ⟨o, ho, heq⟩ := ih ht
    exact ⟨o, List.mem_cons_of_mem _ ho, heq⟩
  | moved _ _ _ ih =>
    rcases List.mem_cons.1 ht with rfl | ht
    · exact ⟨_, List.mem_cons_self, rfl, rfl⟩
    · obtain ⟨o, ho, heq⟩ := ih ht
      exact ⟨o, List.mem_cons_of_mem _ ho, heq⟩

/-- A write changes the port in one place, to whose tree the port belongs that is written to. Beside nodes, owners and
supply, it changes nothing. -/
theorem write_place {p : PortId} {v w : Value} (hg : g.Identified) (hw : g.write p v = .ok (w, g')) :
    ∃ owner slot top top', g.portIn? owner slot = some top ∧ p ∈ top.ids ∧
      (∀ id slot', g'.portIn? id slot' = if owner = id ∧ slot = slot' then some top' else g.portIn? id slot') ∧
      (∀ id, (g'.node? id).map Node.shell = (g.node? id).map Node.shell) ∧ g'.Identified ∧
      g' = { g with nodes := g'.nodes, owners := g'.owners, supply := g'.supply } := by
  obtain ⟨owner, n, n', s', -, hn, hwrite, rfl⟩ := write_eq_ok hw
  obtain rfl := hg.named hn
  have hevolves := Node.evolves_write hwrite
  obtain ⟨slot, top, top', htop, hat, rfl⟩ := Node.write_eq_ok hwrite
  have hnode : ∀ id, ((g.evolve (n.setPort slot top') s').reindex n.id).node? id =
      if n.id = id then some (n.setPort slot top') else g.node? id := fun id => by
    rw [node?_reindex, node?_evolve, Node.setPort_id]
  refine ⟨n.id, slot, top, top', ?_, (Port.edit_of_writeAt hat).mem_ids, fun id slot' => ?_, fun id => ?_,
    (hg.evolve hn hevolves.toRenews).reindex n.id, ?_⟩
  · rw [portIn?_of_node? hn, htop]
  · rw [portIn?, hnode]
    by_cases hid : n.id = id
    · subst hid
      simp only [if_true, Option.bind_some, Node.portAt?_setPort, true_and, portIn?_of_node? hn]
    · simp only [hid, if_false, false_and, portIn?]
  · rw [hnode]
    split_ifs with hid
    · rw [← hid, hn, Option.map_some, Option.map_some, Node.shell_setPort]
    · rfl
  · unfold reindex
    split <;> rfl

/-- What is left by attempts is the graph with other nodes, owners and supply, and the nodes are other ones by their ports
only. -/
theorem Attempts.frame (h : Attempts g offers transfers failure g') (hg : g.Identified) :
    g'.Identified ∧ g' = { g with nodes := g'.nodes, owners := g'.owners, supply := g'.supply } ∧
      ∀ id, (g'.node? id).map Node.shell = (g.node? id).map Node.shell := by
  induction h with
  | done | refused => exact ⟨hg, rfl, fun _ => rfl⟩
  | flagged _ _ ih | vanished _ _ _ ih => exact ih hg
  | moved _ hw _ ih =>
    obtain ⟨-, -, -, -, -, -, -, hshell, hg₁, hframe₁⟩ := write_place hg hw
    obtain ⟨hg', hframe, hshell'⟩ := ih hg₁
    exact ⟨hg', hframe.trans (by rw [hframe₁]), fun id => (hshell' id).trans (hshell id)⟩

/-- A port in a place stays as it is, unless something was transferred to its tree. -/
theorem Attempts.portIn?_eq (h : Attempts g offers transfers failure g') (hg : g.Identified) (id : NodeId) (slot : Slot) :
    g'.portIn? id slot = g.portIn? id slot ∨
      ∃ t ∈ transfers, ∃ top, g.portIn? id slot = some top ∧ t.target ∈ top.ids := by
  induction h with
  | done | refused => exact Or.inl rfl
  | flagged _ _ ih | vanished _ _ _ ih => exact ih hg
  | @moved g g₁ g' o rest transfers failure w _ hw _ ih =>
    obtain ⟨owner, place, top, top', htop, hin, hplaces, -, hg₁, -⟩ := write_place hg hw
    by_cases hhere : owner = id ∧ place = slot
    · obtain ⟨rfl, rfl⟩ := hhere
      exact Or.inr ⟨_, List.mem_cons_self, top, htop, hin⟩
    · have hsame : g₁.portIn? id slot = g.portIn? id slot := by rw [hplaces, if_neg hhere]
      rcases ih hg₁ with heq | ⟨t, ht, other, hother, hmem⟩
      · exact Or.inl (heq.trans hsame)
      · exact Or.inr ⟨t, List.mem_cons_of_mem _ ht, other, hsame ▸ hother, hmem⟩

end Attempts

/-! ### All together -/

/-- What it comes to when the outputs of a node are moved: the sources are marked as read, and then their values are
offered along the edges, source by source and edge by edge. No source is unread afterwards, so that the same again moves
nothing. Other than that, only ports of the input side change to whose tree something was transferred. -/
structure Dispatched (g : Graph) (id : NodeId) (n : Node) (d : Delivery) : Prop where
  attempts : Attempts (g.setNode (n.consume ((g.sources n).map Prod.fst))) (g.routes (g.sources n)) d.transfers d.failure
    d.graph
  read : ∃ n', d.graph.node? id = some n' ∧
    ∀ e ∈ g.sources n, ∃ c, n'.port? e.1 = some c ∧ c.data = e.2 ∧ c.hasNewData = false
  spent : d.graph.transferOutputs id = ⟨d.graph, [], [], none⟩
  frame : d.graph = { g with nodes := d.graph.nodes, owners := d.graph.owners, supply := d.graph.supply }
  shells : ∀ id', (d.graph.node? id').map Node.shell = (g.node? id').map Node.shell
  outputs : ∀ id' slot, slot.isOutput = true → d.graph.portIn? id' slot =
    if id' = id then (g.portIn? id' slot).map (Port.consume ((g.sources n).map Prod.fst)) else g.portIn? id' slot
  inputs : ∀ id' slot, slot.isOutput = false → d.graph.portIn? id' slot = g.portIn? id' slot ∨
    ∃ t ∈ d.transfers, ∃ top, g.portIn? id' slot = some top ∧ t.target ∈ top.ids

section Dispatched

variable {g : Graph} {id : NodeId} {n : Node}

/-- Marking outputs as read changes the output side of one node. -/
theorem portIn?_setNode_consume (hg : g.Identified) (hn : g.node? id = some n) (ids : List PortId) (id' : NodeId)
    (slot : Slot) : (g.setNode (n.consume ids)).portIn? id' slot =
      if id' = id ∧ slot.isOutput = true then (g.portIn? id' slot).map (Port.consume ids) else g.portIn? id' slot := by
  rw [portIn?, node?_setNode, Node.consume_node_id, hg.named hn]
  by_cases hid : id = id'
  · subst hid
    rw [if_pos rfl, Option.bind_some, Node.portAt?_consume, portIn?_of_node? hn]
    simp only [true_and]
  · rw [if_neg hid, if_neg fun h => hid h.1.symm, portIn?]

/-- What is offered along edges leaves the output side as it is. -/
theorem Attempts.portIn?_output {g₁ g' : Graph} {values : List (PortId × Value)} {transfers : List Transfer}
    {failure : Option String} (h : Attempts g₁ (g.routes values) transfers failure g') (hg₁ : g₁.Identified)
    (hin : ∀ p, g.outgoing p = Edge.targetsOf p g.edges) (hd : g.Directed)
    (hids : ∀ {id n}, g₁.node? id = some n → ∃ m, g.node? id = some m ∧ m.outputIds = n.outputIds)
    (id : NodeId) {slot : Slot} (hs : slot.isOutput = true) : g'.portIn? id slot = g₁.portIn? id slot := by
  refine (h.portIn?_eq hg₁ id slot).resolve_right fun ⟨t, ht, top, htop, hmem⟩ => ?_
  obtain ⟨o, ho, -, htarget⟩ := h.offered ht
  have hedge : o.edge.target ∈ g.outgoing o.edge.source := by
    rw [hin]
    exact Edge.mem_targetsOf.2 (mem_routes ho)
  obtain ⟨m, hm, hat⟩ := portIn?_eq_some.1 htop
  obtain ⟨old, hold, hsame⟩ := hids hm
  refine hd _ _ id old hedge hold ?_
  rw [hsame, ← htarget]
  exact (Node.mem_outputIds (hg₁.ordered hm)).2 ⟨slot, top, hs, hat, hmem⟩

/-- After its sources were marked as read, the output side of a node has nothing to move. -/
theorem Consistent.read_of_sameOutputs {n' : Node} (hg : g.Consistent) (hn : g.node? id = some n)
    (h : (n.consume ((g.sources n).map Prod.fst)).SameOutputs n') (ho' : n'.Ordered) (hd' : n'.portIds.Nodup) :
    (∀ e ∈ g.sources n, ∃ c, n'.port? e.1 = some c ∧ c.data = e.2 ∧ c.hasNewData = false) ∧
      ∀ p ∈ n'.outputIds, g.outgoing p ≠ [] → ∀ c, n'.port? p = some c → c.hasNewData = false := by
  set ids := (g.sources n).map Prod.fst with hids
  have ho := hg.ordered hn
  have hd := hg.distinct hn
  have hout : n'.outputIds = n.outputIds := (h.outputIds ho.consume ho').trans (n.outputIds_consume ids)
  -- a look-up finds what was there before, marked if it was a source
  have hlook : ∀ p ∈ n.outputSide.flatMap Port.flatten, n'.port? p.id = some (p.consume ids) := fun p hp => by
    have hin : p.id ∈ n.outputIds := by rw [outputIds_eq]; exact List.mem_map_of_mem hp
    rw [h.port?_eq ho.consume ho' (by rwa [Node.portIds_consume]) hd' (by rwa [Node.outputIds_consume]),
      Node.port?_consume ho hd hin, port?_of_mem_outputSide ho hd hp, Option.map_some]
  constructor
  · intro e he
    obtain ⟨p, hp, rfl⟩ := List.mem_map.1 he
    refine ⟨p.consume ids, hlook p (List.mem_filter.1 hp).1, Port.consume_data ids p, ?_⟩
    rw [Port.hasNewData_consume, if_pos (List.mem_map.2 ⟨_, he, rfl⟩)]
  · intro port hport hedge c hc
    rw [hout, outputIds_eq] at hport
    obtain ⟨p, hp, rfl⟩ := List.mem_map.1 hport
    rw [hlook p hp] at hc
    cases hc
    rw [Port.hasNewData_consume]
    split_ifs with hsource
    · rfl
    · -- an unread port that feeds another one was a source
      by_contra hnew
      have hfeeds : (g.edges.any fun e => decide (e.source = p.id)) = true := by
        rw [← hg.feeds]
        simpa using hedge
      refine hsource (List.mem_map.2 ⟨(p.id, p.data), List.mem_map.2 ⟨p, List.mem_filter.2 ⟨hp, ?_⟩, rfl⟩, rfl⟩)
      rw [hfeeds, Bool.and_true]
      simpa using hnew

theorem Consistent.dispatched (hg : g.Consistent) (hd : g.Directed) (hn : g.node? id = some n) :
    g.Dispatched id n (g.transferOutputs id) := by
  obtain ⟨htaken, htake⟩ := hg.take_eq hn
  set ids := (g.sources n).map Prod.fst with hids
  set start := g.setNode (n.consume ids) with hstart
  have hidentified : start.Identified := htake ▸ hg.toIdentified.enact (.take id)
  have howned : start.Owned := htake ▸ Owned.enact ⟨hg.proper, fun {p i} => hg.agrees.owner p i⟩ hg.toIdentified (.take id)
  have heq : g.transferOutputs id = deliver (g.routes (g.sources n)) ⟨start, [], [], none⟩ := by
    rw [transferOutputs_eq, htaken, htake, hg.offers_eq]
  have hattempts : Attempts start (g.routes (g.sources n)) (g.transferOutputs id).transfers (g.transferOutputs id).failure
      (g.transferOutputs id).graph := by
    have hset : ∀ o ∈ g.routes (g.sources n), o.edge ∈ start.edgeSet := fun o ho =>
      (hg.agrees.edgeSet o.edge).2 (mem_routes ho)
    obtain ⟨transfers, htransfers, hall⟩ := attempts_deliver hidentified howned hset [] []
    rw [← heq] at htransfers hall
    rwa [htransfers, List.nil_append]
  generalize g.transferOutputs id = d at hattempts
  obtain ⟨hafter, hframe, hshell⟩ := hattempts.frame hidentified
  have hnodes : ∀ id', start.node? id' = if id = id' then some (n.consume ids) else g.node? id' := fun id' => by
    rw [node?_setNode, Node.consume_node_id, hg.named hn]
  have houtput : ∀ id' slot, slot.isOutput = true → d.graph.portIn? id' slot = start.portIn? id' slot := by
    refine fun id' slot hs => hattempts.portIn?_output hidentified hg.agrees.outgoing hd (fun {id' m} hm => ?_) id' hs
    rw [hnodes] at hm
    split_ifs at hm with hid
    · cases hm
      exact ⟨n, hid ▸ hn, (n.outputIds_consume ids).symm⟩
    · exact ⟨m, hm, rfl⟩
  obtain ⟨n', hn', -⟩ : ∃ n', d.graph.node? id = some n' ∧ n'.shell = (n.consume ids).shell := by
    have hmap := hshell id
    rw [hnodes, if_pos rfl, Option.map_some] at hmap
    exact Option.map_eq_some_iff.1 hmap
  have hsame : (n.consume ids).SameOutputs n' := fun slot hs => by
    have hplace := houtput id slot hs
    rwa [portIn?_of_node? hn', portIn?_of_node? ((hnodes id).trans (if_pos rfl))] at hplace
  obtain ⟨hread, hspent⟩ := hg.read_of_sameOutputs hn hsame (hafter.ordered hn') (hafter.distinct hn')
  refine ⟨hattempts, ⟨n', hn', hread⟩, ?_, hframe, fun id' => ?_, fun id' slot hs => ?_, fun id' slot hs => ?_⟩
  · have hnothing : takeUnread (d.graph.feedingPorts n') n' = ([], n') := by
      refine takeUnread_of_read fun p hp c hc => ?_
      obtain ⟨hpout, hfeeds⟩ := List.mem_filter.1 hp
      have hout : d.graph.outgoing p = g.outgoing p := by rw [hframe]; rfl
      rw [hout] at hfeeds
      exact hspent p hpout (by simpa using hfeeds) c hc
    have hself : d.graph.setNode n' = d.graph := by rw [setNode, hafter.named hn', Table.set_of_find? hn']
    simp only [transferOutputs, hn', hnothing, hself]
    rfl
  · rw [hshell, hnodes]
    split_ifs with hid
    · rw [← hid, hn, Option.map_some, Option.map_some, Node.shell_consume]
    · rfl
  · rw [houtput id' slot hs, portIn?_setNode_consume hg.toIdentified hn]
    simp only [hs, and_true, hids]
  · have hmarked := portIn?_setNode_consume hg.toIdentified hn ids id' slot
    rw [if_neg (by rw [hs]; exact fun h => Bool.false_ne_true h.2)] at hmarked
    rw [← hmarked]
    exact hattempts.portIn?_eq hidentified id' slot

end Dispatched

end Graph

namespace Run

/-- **Moving the outputs of a node moves exactly what is unread.** In a consistent graph whose edges lead to the input side,
the step in which the outputs of a node are moved makes one attempt for each source and edge, in order, up to the first
refused one; the event that it publishes lists the transfers, also when the run fails by it. -/
theorem dispatches {r : Run} {id : NodeId} {n : Node} {depth : Nat} {work : List Work} {origins : List NodeId}
    (hg : r.graph.Consistent) (hd : r.graph.Directed) (hn : r.graph.node? id = some n)
    (hp : r.phase = .propagating ⟨.propagate id depth :: work, origins⟩) :
    let d := r.graph.transferOutputs id
    r.graph.Dispatched id n d ∧ ∃ r', r.step? .drive = some r' ∧ r'.graph = d.graph ∧
      r'.executor = (if d.transfers = [] then r.executor else r.executor.publish (.dataPropagated id d.transfers)) ∧
      (∀ error, d.failure = some error → r'.phase = .ending (.failed error)) := by
  refine ⟨hg.dispatched hd hn, _, (drive_moving hp).1, ?_, ?_, fun error hfailure => ?_⟩
  · unfold propagateFrom
    dsimp only
    split <;> split <;> rfl
  · by_cases hnone : (r.graph.transferOutputs id).transfers = []
    · rw [if_pos hnone]
      unfold propagateFrom
      simp only [hnone, List.isEmpty_nil, if_true]
      split <;> rfl
    · rw [if_neg hnone]
      exact executor_propagateFrom r depth ⟨work, origins⟩ hnone
  · unfold propagateFrom
    simp only [hfailure]
    rfl

end Run

/-! ### A list that gets shorter on the way -/

namespace Graph

/-- A node that takes a list. -/
def listTaker : Node × Supply :=
  Node.create ⟨2⟩ "taker" gathering [] leftList.2

/-- A list of two items on its way to one of three. Its first item goes to the third one of the other list, and its second
item to the first. -/
def shortening? : Except GraphError Graph := do
  let g ← ({ empty ⟨10⟩ with supply := leftList.2 } : Graph).addNode leftList.1
  let g ← ({ g with supply := listTaker.2 } : Graph).addNode listTaker.1
  let written ← g.write ⟨12⟩ (.array [.integer 1, .integer 2])
  let written ← written.2.write ⟨15⟩ (.array [.integer 7, .integer 8, .integer 9])
  let g ← written.2.addEdge ⟨12⟩ ⟨15⟩
  let g ← g.addEdge ⟨16⟩ ⟨20⟩
  g.addEdge ⟨17⟩ ⟨18⟩

/-- The graph of the two lists. -/
@[irreducible]
def shortening : Graph :=
  shortening?.toOption.getD (empty ⟨0⟩)

theorem built_shortening : shortening.Built := by
  have h : shortening? = .ok shortening := by
    have hsome : shortening?.toOption.isSome = true := by decide +kernel
    cases hg : shortening? with
    | error e => rw [hg] at hsome; cases hsome
    | ok g => rw [shortening, hg]; rfl
  obtain ⟨g₁, h₁, h⟩ := Except.bind_eq_ok.1 h
  obtain ⟨g₂, h₂, h⟩ := Except.bind_eq_ok.1 h
  obtain ⟨⟨w₃, g₃⟩, h₃, h⟩ := Except.bind_eq_ok.1 h
  obtain ⟨⟨w₄, g₄⟩, h₄, h⟩ := Except.bind_eq_ok.1 h
  obtain ⟨g₅, h₅, h⟩ := Except.bind_eq_ok.1 h
  obtain ⟨g₆, h₆, h⟩ := Except.bind_eq_ok.1 h
  have hleft : g₁.Built := .create (.empty ⟨10⟩) h₁
  have hsupply : g₁.supply = leftList.2 := by rw [(addNode_eq_ok h₁).2]
  have htaker : g₂.Built := .create hleft (by rw [hsupply]; exact h₂)
  exact .addEdge (.addEdge (.addEdge (.write (.write htaker h₃) h₄) h₅) h₆) h

end Graph

namespace Run

/-- A run that is about to move the list. -/
def shorteningRun : Run :=
  { signalStart with graph := Graph.shortening, phase := .propagating ⟨[.propagate ⟨1⟩ 0], []⟩ }

/-- The list takes the third item away before its own first item gets there. -/
theorem dispatches_shortening : shorteningRun.graph.Consistent ∧ shorteningRun.graph.Directed ∧
    shorteningRun.phase = .propagating ⟨[.propagate ⟨1⟩ 0], []⟩ ∧ ∃ n, shorteningRun.graph.node? ⟨1⟩ = some n ∧
      shorteningRun.graph.sources n =
        [(⟨12⟩, .array [.integer 1, .integer 2]), (⟨16⟩, .integer 1), (⟨17⟩, .integer 2)] ∧
      (shorteningRun.graph.transferOutputs ⟨1⟩).transfers =
        [⟨⟨12⟩, ⟨15⟩, .array [.integer 1, .integer 2]⟩, ⟨⟨17⟩, ⟨18⟩, .integer 2⟩] ∧
      shorteningRun.graph.Dispatched ⟨1⟩ n (shorteningRun.graph.transferOutputs ⟨1⟩) ∧
      ∃ r', shorteningRun.step? .drive = some r' ∧ (r'.graph.transferOutputs ⟨1⟩).transfers = [] := by
  have hreached := Graph.built_shortening.reached
  have hconsistent : shorteningRun.graph.Consistent := hreached.consistent
  have hdirected : shorteningRun.graph.Directed := hreached.regular.directed
  obtain ⟨n, hn, hsources⟩ : ∃ n, shorteningRun.graph.node? ⟨1⟩ = some n ∧ shorteningRun.graph.sources n =
      [(⟨12⟩, .array [.integer 1, .integer 2]), (⟨16⟩, .integer 1), (⟨17⟩, .integer 2)] :=
    Option.map_eq_some_iff.1 (show (shorteningRun.graph.node? ⟨1⟩).map shorteningRun.graph.sources = some
      [(⟨12⟩, .array [.integer 1, .integer 2]), (⟨16⟩, .integer 1), (⟨17⟩, .integer 2)] by decide +kernel)
  have hphase : shorteningRun.phase = .propagating ⟨[.propagate ⟨1⟩ 0], []⟩ := rfl
  obtain ⟨hd, r', hstep, hgraph, -⟩ := dispatches hconsistent hdirected hn hphase
  refine ⟨hconsistent, hdirected, hphase, n, hn, hsources, by decide +kernel, hd, r', hstep, ?_⟩
  rw [hgraph, hd.spent]

end Run

end Dataflow
