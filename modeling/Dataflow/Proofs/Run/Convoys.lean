import Dataflow.Proofs.Run.Arrivals

/-!
# The outputs of several nodes, one node after the other

* `Graph.convey` moves the outputs of some nodes, one node after the other, unless something is refused;
  `Graph.Threaded.convey_eq_some` says what is left where every edge has a port of its own to end at: what each node offers
  and what is refused does not depend on the nodes before it;
* `Graph.Shuffled` says of graphs that they look alike but for the order of their nodes;
* `Graph.Shuffled.convey`: in such graphs the outputs of the same nodes are moved in any order, with graphs that look alike
  but for the order of their nodes, unless something is refused in both.
-/

namespace Dataflow

namespace Graph

variable {s : Supply} {g g' : Graph} {id : NodeId} {ids ids' : List NodeId}

/-! ### The outputs of one node -/

/-- What a node offers along its edges when its outputs are taken. -/
def consignment (g : Graph) (id : NodeId) : List Offer :=
  g.offers (g.taken id)

/-- The acts by which the outputs of a node are moved if nothing is refused. -/
def shipment (g : Graph) (id : NodeId) : List Act :=
  .take id :: (g.consignment id).map .offer

theorem along_consignment {o : Offer} (ho : o ∈ g.consignment id) : o.edge.target ∈ g.outgoing o.edge.source :=
  (mem_offers.1 ho).2

theorem carries_shipment (g : Graph) (id : NodeId) : ∀ act ∈ g.shipment id, g.Carries act := by
  refine List.forall_mem_cons.2 ⟨trivial, fun act hact => ?_⟩
  obtain ⟨o, ho, rfl⟩ := List.mem_map.1 hact
  exact along_consignment ho

/-- A delivery fails if and only if one of the offers is refused. -/
theorem Threaded.failure_deliver {offers : List Offer} {d : Delivery} (hg : d.graph.Threaded s) (hnone : d.failure = none)
    (halong : ∀ o ∈ offers, o.edge.target ∈ d.graph.outgoing o.edge.source) :
    (deliver offers d).failure = none ↔ ∀ o ∈ offers, ¬ d.graph.Refuses o := by
  induction offers generalizing d with
  | nil => exact ⟨fun _ o ho => absurd ho List.not_mem_nil, fun _ => hnone⟩
  | cons o rest ih =>
    obtain ⟨hfirst, hrest⟩ := List.forall_mem_cons.1 halong
    rw [deliver_cons, List.forall_mem_cons]
    cases ha : d.graph.answer? o with
    | none =>
      have hfree : ¬ d.graph.Refuses o := fun ⟨e, he⟩ => by rw [ha] at he; cases he
      rw [ih hg hnone hrest, and_iff_right hfree]
    | some answer =>
      cases answer with
      | error e => exact ⟨fun h => (by cases h), fun h => absurd ⟨e, ha⟩ h.1⟩
      | ok r =>
        have hfree : ¬ d.graph.Refuses o := fun ⟨e, he⟩ => by rw [ha] at he; cases he
        have henact : d.graph.enact (.offer o) = r.2 := by simp only [Graph.enact, ha]
        -- The offers after this one are refused after it if they were before it.
        have hlater : ∀ o' ∈ rest, (r.2.Refuses o' ↔ d.graph.Refuses o') := fun o' ho' => by
          rw [← henact]
          exact hg.refuses_replay (hrest o' ho') [.offer o]
        dsimp only
        rw [ih (d := ⟨r.2, _, _, _⟩) (henact ▸ hg.enact (.offer o)) hnone fun o' ho' => by
          dsimp only
          rw [← henact, outgoing_enact]
          exact hrest o' ho', and_iff_right hfree]
        exact forall₂_congr fun o' ho' => not_congr (hlater o' ho')

theorem offers_enact (g : Graph) (act : Act) : (g.enact act).offers = g.offers := by
  funext values
  simp only [offers, outgoing_enact]

/-- The outputs of a node are moved unless one of its offers is refused. -/
theorem Threaded.failure_transferOutputs (hg : g.Threaded s) (id : NodeId) :
    (g.transferOutputs id).failure = none ↔ ∀ o ∈ g.consignment id, ¬ g.Refuses o := by
  have hoffers : (g.take id).offers (g.taken id) = g.consignment id :=
    congrFun (g.offers_enact (.take id)) (g.taken id)
  have halong : ∀ o ∈ g.consignment id, o.edge.target ∈ (g.take id).outgoing o.edge.source := fun o ho => by
    rw [show g.take id = g.enact (.take id) from rfl, outgoing_enact]
    exact along_consignment ho
  rw [transferOutputs_eq, hoffers, (hg.enact (.take id)).failure_deliver (d := ⟨g.take id, [], [], none⟩) rfl halong]
  exact forall₂_congr fun o ho => not_congr (hg.refuses_replay (along_consignment ho) [.take id])

/-- The graph after the outputs of a node were moved. -/
theorem graph_transferOutputs (h : (g.transferOutputs id).failure = none) :
    (g.transferOutputs id).graph = g.replay (g.shipment id) := by
  have hoffers : (g.take id).offers (g.taken id) = g.consignment id :=
    congrFun (g.offers_enact (.take id)) (g.taken id)
  rw [transferOutputs_eq, hoffers] at h ⊢
  rw [deliver_graph, offering_eq h]
  rfl

/-! ### The outputs of several nodes -/

/-- Move the outputs of some nodes, one node after the other; none if something is refused. -/
def convey : List NodeId → Graph → Option Graph
  | [], g => some g
  | id :: rest, g => if (g.transferOutputs id).failure = none then convey rest (g.transferOutputs id).graph else none

theorem convey_append (ids ids' : List NodeId) (g : Graph) : convey (ids ++ ids') g = (convey ids g).bind (convey ids') := by
  induction ids generalizing g with
  | nil => rfl
  | cons id rest ih =>
    rw [List.cons_append, convey, convey]
    split_ifs
    · exact ih _
    · rfl

/-- All that the nodes offer can be delivered. -/
def Accepts (g : Graph) (ids : List NodeId) : Prop :=
  ∀ id ∈ ids, ∀ o ∈ g.consignment id, ¬ g.Refuses o

/-- What a node offers does not depend on what was moved from other nodes before. -/
theorem Threaded.consignment_shipment (hg : g.Threaded s) {id k : NodeId} (hne : id ≠ k) :
    (g.replay (g.shipment id)).consignment k = g.consignment k := by
  have hnone : .take k ∉ g.shipment id := by
    intro h
    rcases List.mem_cons.1 h with h | h
    · exact hne (Act.take.inj h).symm
    · obtain ⟨o, -, ho⟩ := List.mem_map.1 h
      cases ho
  rw [consignment, (hg.take_replay (g.carries_shipment id) hnone).1, consignment]
  simp only [offers, outgoing_replay]

/-- **Where every edge has a port of its own to end at, the outputs of nodes are moved as if each were the first one.** -/
theorem Threaded.convey_eq_some (hg : g.Threaded s) (hn : ids.Nodup) :
    convey ids g = some g' ↔ g.Accepts ids ∧ g' = g.replay (ids.flatMap g.shipment) := by
  induction ids generalizing g with
  | nil =>
    have hall : g.Accepts [] := fun id hid => absurd hid List.not_mem_nil
    simp only [convey, Option.some.injEq, List.flatMap_nil, replay_nil, hall, true_and]
    exact eq_comm
  | cons id rest ih =>
    obtain ⟨hid, hrest⟩ := List.nodup_cons.1 hn
    have hsame : ∀ k ∈ rest, (g.replay (g.shipment id)).consignment k = g.consignment k := fun k hk =>
      hg.consignment_shipment fun e => hid (e ▸ hk)
    have haccepts : g.Accepts (id :: rest) ↔
        (∀ o ∈ g.consignment id, ¬ g.Refuses o) ∧ (g.replay (g.shipment id)).Accepts rest := by
      refine List.forall_mem_cons.trans (and_congr_right fun _ => forall₂_congr fun k hk => ?_)
      rw [hsame k hk]
      exact forall₂_congr fun o ho => not_congr (hg.refuses_replay (along_consignment ho) (g.shipment id)).symm
    rw [convey, haccepts]
    split_ifs with hfail
    · have hshipments : rest.flatMap (g.replay (g.shipment id)).shipment = rest.flatMap g.shipment :=
        List.flatMap_congr fun k hk => by rw [shipment, hsame k hk, shipment]
      rw [graph_transferOutputs hfail, ih (hg.replay _) hrest, hshipments, ← replay_append, ← List.flatMap_cons,
        and_iff_right ((hg.failure_transferOutputs id).1 hfail)]
    · exact ⟨fun h => (by cases h), fun h => absurd ((hg.failure_transferOutputs id).2 h.1.1) hfail⟩

theorem Threaded.convey_eq_none (hg : g.Threaded s) (hn : ids.Nodup) : convey ids g = none ↔ ¬ g.Accepts ids := by
  rw [Option.eq_none_iff_forall_ne_some]
  constructor
  · exact fun h haccepts => h _ ((hg.convey_eq_some hn).2 ⟨haccepts, rfl⟩)
  · exact fun h g' hg' => h ((hg.convey_eq_some hn).1 hg').1

/-! ### No two values arrive at one port -/

theorem takeUnread_sublist (ports : List PortId) (n : Node) : ((takeUnread ports n).1.map Prod.fst).Sublist ports := by
  induction ports generalizing n with
  | nil => exact List.Sublist.refl _
  | cons port rest ih =>
    unfold takeUnread
    split
    · exact (ih n).cons port
    · split_ifs
      · exact (ih _).cons_cons port
      · exact (ih n).cons port

/-- Each port of a node is taken from once. -/
theorem nodup_taken (hg : g.Identified) (id : NodeId) : ((g.taken id).map Prod.fst).Nodup := by
  cases hn : g.node? id with
  | none => simp only [taken, hn, List.map_nil, List.nodup_nil]
  | some n =>
    have hports : n.ports = (n.execIn :: Keyed.values n.inputs ++ Keyed.values n.controlInputs) ++ n.outputSide := by
      simp [Node.ports, Node.outputSide]
    have hout : n.outputIds.Sublist n.portIds := by
      rw [Node.outputIds, Node.portIds, hports, List.flatMap_append]
      exact List.sublist_append_right ..
    simp only [taken, hn]
    exact (hg.distinct hn).sublist ((takeUnread_sublist _ n).trans (List.filter_sublist.trans hout))

theorem Threaded.apart_consignment (hg : g.Threaded s) (id : NodeId) :
    (g.consignment id).Pairwise fun o o' => o.edge.target ≠ o'.edge.target := by
  refine List.pairwise_flatMap.2 ⟨fun e _ => List.pairwise_map.2 (hg.simple e.1), ?_⟩
  refine (List.pairwise_map.1 (nodup_taken hg.identified id)).imp fun {e e'} hne o ho o' ho' htarget => ?_
  obtain ⟨q, hq, rfl⟩ := List.mem_map.1 ho
  obtain ⟨q', hq', rfl⟩ := List.mem_map.1 ho'
  obtain rfl : q = q' := htarget
  exact hne (hg.single hq hq')

theorem Threaded.apart_shipments (hg : g.Threaded s) (hn : ids.Nodup) : (ids.flatMap g.shipment).Pairwise Act.Apart := by
  refine List.pairwise_flatMap.2 ⟨fun id _ => List.pairwise_cons.2 ⟨fun act hact => ?_, ?_⟩, hn.imp fun {id k} hne => ?_⟩
  · obtain ⟨o, -, rfl⟩ := List.mem_map.1 hact
    trivial
  · exact List.pairwise_map.2 (hg.apart_consignment id)
  · -- A port that two nodes offer to would have two edges.
    have hoffers : ∀ o ∈ g.consignment id, ∀ o' ∈ g.consignment k, o.edge.target ≠ o'.edge.target := by
      intro o ho o' ho' htarget
      obtain ⟨hvalue, halong⟩ := mem_offers.1 ho
      obtain ⟨hvalue', halong'⟩ := mem_offers.1 ho'
      obtain ⟨n, hn, hp⟩ := mem_portIds_of_taken hg.identified hvalue
      obtain ⟨n', hn', hp'⟩ := mem_portIds_of_taken hg.identified hvalue'
      have hsource : o.edge.source = o'.edge.source := hg.single halong (htarget ▸ halong')
      exact hg.identified.apart hn hn' hne hp (hsource ▸ hp')
    intro act hact act' hact'
    rcases List.mem_cons.1 hact with rfl | hact <;> rcases List.mem_cons.1 hact' with rfl | hact'
    · exact hne
    · obtain ⟨o', -, rfl⟩ := List.mem_map.1 hact'
      trivial
    · obtain ⟨o, -, rfl⟩ := List.mem_map.1 hact
      trivial
    · obtain ⟨o, ho, rfl⟩ := List.mem_map.1 hact
      obtain ⟨o', ho', rfl⟩ := List.mem_map.1 hact'
      exact hoffers o ho o' ho'

/-! ### Nodes in another order -/

/-- A graph with its nodes in another order. -/
def reorder (order : List NodeId) (g : Graph) : Graph :=
  { g with order }

section Reorder

variable (order : List NodeId) (g : Graph)

theorem modifyNode_reorder (id : NodeId) (f : Node → Node) :
    (g.reorder order).modifyNode id f = (g.modifyNode id f).reorder order := by
  rw [modifyNode, show (g.reorder order).node? id = g.node? id from rfl, modifyNode]
  cases g.node? id <;> rfl

theorem reindex_reorder (id : NodeId) : (g.reorder order).reindex id = (g.reindex id).reorder order := by
  rw [reindex, show (g.reorder order).node? id = g.node? id from rfl, reindex]
  cases g.node? id <;> rfl

theorem write_reorder (p : PortId) (v : Value) :
    (g.reorder order).write p v = (g.write p v).map fun r => (r.1, r.2.reorder order) := by
  have hsame : ∀ id, (g.reorder order).node? id = g.node? id := fun _ => rfl
  unfold write
  simp only [show (g.reorder order).ownerOf? p = g.ownerOf? p from rfl, hsame]
  cases g.ownerOf? p with
  | none => rfl
  | some owner =>
    cases hn : g.node? owner with
    | none => simp only [Option.bind_eq_bind, Option.bind_some, hn, Option.bind_none]; rfl
    | some n =>
      have hsupply : (g.reorder order).supply = g.supply := rfl
      simp only [Option.bind_eq_bind, Option.bind_some, hn, hsupply]
      rcases n.write p v g.supply with _ | _ | r
      · rfl
      · rfl
      · exact congrArg Except.ok (Prod.ext rfl (reindex_reorder order (g.evolve r.2.1 r.2.2) owner))

theorem answer?_reorder (o : Offer) :
    (g.reorder order).answer? o = (g.answer? o).map (Except.map fun r => (r.1, r.2.reorder order)) := by
  rw [answer?, show (g.reorder order).skips o.edge = g.skips o.edge from rfl, answer?, write_reorder]
  split_ifs <;> rfl

theorem enact_reorder (act : Act) : (g.reorder order).enact act = (g.enact act).reorder order := by
  have hsame : ∀ id, (g.reorder order).node? id = g.node? id := fun _ => rfl
  cases act with
  | prepare a => exact modifyNode_reorder order g a.node fun n => n.prepare.2
  | remember id memory => exact modifyNode_reorder order g id fun n => { n with memory }
  | settle id result =>
    simp only [enact, settle, hsame]
    cases g.node? id with
    | none => rfl
    | some n => exact reindex_reorder order (g.evolve _ _) id
  | reset id => exact modifyNode_reorder order g id Node.resetStatus
  | clear id => rw [enact, modifyNode_reorder, reindex_reorder, enact]
  | take id =>
    simp only [enact, take, hsame]
    cases g.node? id <;> rfl
  | offer o =>
    simp only [enact, answer?_reorder]
    rcases g.answer? o with _ | _ | r <;> rfl
  | publish => rfl

end Reorder

theorem replay_reorder (order : List NodeId) (g : Graph) (acts : List Act) :
    (g.reorder order).replay acts = (g.replay acts).reorder order := by
  induction acts generalizing g with
  | nil => rfl
  | cons act acts ih => rw [replay_cons, enact_reorder, ih, replay_cons]

theorem Grown.reorder {order : List NodeId} (hg : g.Grown s) (hperm : order.Perm g.order) : (g.reorder order).Grown s where
  identified :=
    { nodup := hperm.nodup_iff.2 hg.identified.nodup
      listed := hg.identified.listed.trans hperm.mem_iff.symm
      named := hg.identified.named
      ordered := hg.identified.ordered
      distinct := hg.identified.distinct
      apart := hg.identified.apart
      used := hg.identified.used
      ends := hg.identified.ends }
  owned := ⟨hg.owned.proper, hg.owned.owned⟩
  le := hg.le
  ends := hg.ends
  targets := hg.targets
  edges := hg.edges

/-- Graphs that look alike but for the order of their nodes, and where no two edges end at one port. -/
structure Shuffled (s : Supply) (g g' : Graph) : Prop where
  left : g.Threaded s
  right : g'.Threaded s
  perm : g'.order.Perm g.order
  edges : g'.edges = g.edges
  edgeSet : g'.edgeSet = g.edgeSet
  flagged : g'.flagged = g.flagged
  outEdges : g'.outEdges = g.outEdges
  inEdges : g'.inEdges = g.inEdges
  view : ∀ id, g'.view s id = g.view s id

namespace Shuffled

theorem symm (h : g.Shuffled s g') : g'.Shuffled s g :=
  ⟨h.right, h.left, h.perm.symm, h.edges.symm, h.edgeSet.symm, h.flagged.symm, h.outEdges.symm, h.inEdges.symm, fun id =>
    (h.view id).symm⟩

/-- In the same order, the graphs look alike. -/
theorem resembles (h : g.Shuffled s g') : g.Resembles s (g'.reorder g.order) :=
  ⟨h.left.toGrown, h.right.toGrown.reorder h.perm.symm, rfl, h.edges, h.edgeSet, h.flagged, h.outEdges, h.inEdges, h.view⟩

/-- Whatever is done to the graphs that leaves all nodes looking alike. -/
theorem replay (h : g.Shuffled s g') {acts acts' : List Act}
    (hview : ∀ id, (g'.replay acts').view s id = (g.replay acts).view s id) : (g.replay acts).Shuffled s (g'.replay acts') := by
  obtain ⟨hedges, hset, hflagged, hout, hin⟩ := frame_replay h.left.identified acts
  obtain ⟨hedges', hset', hflagged', hout', hin'⟩ := frame_replay h.right.identified acts'
  refine ⟨h.left.replay acts, h.right.replay acts', by rw [order_replay, order_replay]; exact h.perm, ?_, ?_, ?_, ?_, ?_, hview⟩
  · rw [hedges', h.edges, hedges]
  · rw [hset', h.edgeSet, hset]
  · rw [hflagged', h.flagged, hflagged]
  · rw [hout', h.outEdges, hout]
  · rw [hin', h.inEdges, hin]

theorem shipment (h : g.Shuffled s g') : g'.shipment = g.shipment := by
  have hout : ∀ p, g'.outgoing p = g.outgoing p := h.resembles.outgoing
  have htaken : ∀ id, g'.taken id = g.taken id := h.resembles.taken
  funext id
  simp only [Graph.shipment, consignment, offers, hout, htaken]

theorem refuses (h : g.Shuffled s g') (o : Offer) : g'.Refuses o ↔ g.Refuses o := by
  have hsame : (g'.reorder g.order).Refuses o ↔ g'.Refuses o := by
    unfold Refuses
    rw [answer?_reorder]
    rcases g'.answer? o with _ | _ | r <;> simp [Except.map]
  rw [← hsame]
  unfold Refuses
  rcases h.resembles.answer? o with ⟨ha, ha'⟩ | ⟨e, ha, ha'⟩ | ⟨w, g₁, g₁', ha, ha', -, -⟩ <;> rw [ha, ha']
  simp

theorem accepts (h : g.Shuffled s g') (hperm : ids.Perm ids') : g'.Accepts ids' ↔ g.Accepts ids := by
  have hout : ∀ p, g'.outgoing p = g.outgoing p := h.resembles.outgoing
  have htaken : ∀ id, g'.taken id = g.taken id := h.resembles.taken
  simp only [Accepts, consignment, offers, hout, htaken, h.refuses, hperm.mem_iff]

/-- **The outputs of nodes are moved in any order**, unless something is refused, whatever the order. -/
theorem convey (h : g.Shuffled s g') (hn : ids.Nodup) (hperm : ids.Perm ids') :
    Graph.convey ids g = none ∧ Graph.convey ids' g' = none ∨
      ∃ g₁ g₁', Graph.convey ids g = some g₁ ∧ Graph.convey ids' g' = some g₁' ∧ g₁.Shuffled s g₁' := by
  have hn' : ids'.Nodup := hperm.nodup_iff.1 hn
  by_cases haccepts : g.Accepts ids
  · refine Or.inr ⟨_, _, (h.left.convey_eq_some hn).2 ⟨haccepts, rfl⟩,
      (h.right.convey_eq_some hn').2 ⟨(h.accepts hperm).2 haccepts, rfl⟩, h.replay fun id => ?_⟩
    have hcarries : ∀ act ∈ ids.flatMap g.shipment, g.Carries act := fun act hact => by
      obtain ⟨k, -, hact⟩ := List.mem_flatMap.1 hact
      exact g.carries_shipment k act hact
    have hcarried := h.left.resembles_carry hcarries (h.left.apart_shipments hn) (hperm.flatMap_right g.shipment)
    have hlike := h.resembles.replay (ids'.flatMap g.shipment)
    rw [replay_reorder] at hlike
    rw [h.shipment, ← hcarried.view id]
    exact hlike.view id
  · exact Or.inl ⟨(h.left.convey_eq_none hn).2 haccepts, (h.right.convey_eq_none hn').2 (mt (h.accepts hperm).1 haccepts)⟩

end Shuffled

end Graph

end Dataflow
