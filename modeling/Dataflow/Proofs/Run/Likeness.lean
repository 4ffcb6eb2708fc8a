import Dataflow.Proofs.Node.Renaming
import Dataflow.Proofs.Run.Marks
import Dataflow.Proofs.Run.Reached
import Dataflow.Proofs.Run.Relays

/-!
# Graphs that look alike

Two graphs look alike to those who know a supply if they have the same edges, all of them between ports that were handed out
by then, and the same nodes but for the identifiers of element ports that came later.

* `Graph.view` is a node as it looks, and `Graph.Resembles` says that graphs look alike;
* `Graph.Resembles.enact`: graphs that look alike still do after the same act;
* `Graph.Resembles.transferOutputs`: the same data moves in them;
* `Graph.Resembles.renames`: of graphs that look alike, one is the other under other identifiers for new element ports.
-/

namespace Dataflow

namespace Graph

/-- A node as it looks to those who know the supply. -/
def view (s : Supply) (g : Graph) (id : NodeId) : Option Node :=
  (g.node? id).map (Node.rename s.view)

/-- A graph that has grown out of one with the supply `s`: its edges are as old. -/
structure Grown (s : Supply) (g : Graph) : Prop where
  identified : g.Identified
  owned : g.Owned
  le : s.next ≤ g.supply.next
  ends : ∀ {p q : PortId}, q ∈ g.outgoing p → s.Used p ∧ s.Used q
  targets : ∀ {p : PortId}, g.isTarget p = true → s.Used p
  edges : ∀ {e : Edge}, e ∈ g.edgeSet → s.Used e.target

/-- Graphs that look alike to those who know the supply `s`. -/
structure Resembles (s : Supply) (g g' : Graph) : Prop where
  left : g.Grown s
  right : g'.Grown s
  order : g'.order = g.order
  edges : g'.edges = g.edges
  edgeSet : g'.edgeSet = g.edgeSet
  flagged : g'.flagged = g.flagged
  outEdges : g'.outEdges = g.outEdges
  inEdges : g'.inEdges = g.inEdges
  view : ∀ id, g'.view s id = g.view s id

variable {s : Supply} {g g' : Graph}

theorem Grown.enact (h : g.Grown s) (act : Act) : (g.enact act).Grown s where
  identified := h.identified.enact act
  owned := h.owned.enact h.identified act
  le := h.le.trans (supply_enact_le h.identified act)
  ends hq := h.ends (by rwa [outgoing_enact] at hq)
  targets hp := h.targets (by rwa [isTarget_enact] at hp)
  edges he := h.edges (by rwa [(edges_enact g act).2.1] at he)

/-- A port that feeds others is as old as its edges. -/
theorem Grown.used_of_feeds (h : g.Grown s) (p : PortId) (hp : (!(g.outgoing p).isEmpty) = true) : s.Used p := by
  cases hout : g.outgoing p with
  | nil => rw [hout] at hp; cases hp
  | cons q rest => exact (h.ends (hout ▸ List.mem_cons_self)).1

theorem Grown.used_feedingPorts (h : g.Grown s) (n : Node) : ∀ p ∈ g.feedingPorts n, s.Used p :=
  fun p hp => h.used_of_feeds p (List.mem_filter.1 hp).2

/-! ### Nodes that look alike -/

theorem view_of_some {id : NodeId} {n : Node} (hn : g.node? id = some n) : g.view s id = some (n.rename s.view) := by
  rw [view, hn, Option.map_some]

theorem view_of_none {id : NodeId} (hn : g.node? id = none) : g.view s id = none := by
  rw [view, hn, Option.map_none]

/-- Where nodes look alike, there are none, or two that become one under other identifiers. -/
theorem view_cases {id : NodeId} (h : g'.view s id = g.view s id) :
    g.node? id = none ∧ g'.node? id = none ∨
      ∃ n n', g.node? id = some n ∧ g'.node? id = some n' ∧ n'.rename s.view = n.rename s.view := by
  cases hn : g.node? id with
  | none =>
    rw [view_of_none hn, view, Option.map_eq_none_iff] at h
    exact Or.inl ⟨rfl, h⟩
  | some n =>
    rw [view_of_some hn, view] at h
    obtain ⟨n', hn', hview⟩ := Option.map_eq_some_iff.1 h
    exact Or.inr ⟨n, n', rfl, hn', hview⟩

theorem view_evolve {id k : NodeId} {n : Node} (hid : n.id = k) (t : Supply) :
    (g.evolve n t).view s id = if k = id then some (n.rename s.view) else g.view s id := by
  rw [view, node?_evolve, hid]
  split_ifs <;> rfl

theorem view_reindex (k id : NodeId) : (g.reindex k).view s id = g.view s id := by
  rw [view, node?_reindex, view]

/-- A change that does not look at identifiers shows. -/
theorem view_modifyNode (hg : g.Named) (f : Node → Node) (hid : ∀ n, (f n).id = n.id)
    (hf : ∀ n, (f n).rename s.view = f (n.rename s.view)) (k id : NodeId) :
    (g.modifyNode k f).view s id = if k = id then (g.view s id).map f else g.view s id := by
  cases hn : g.node? k with
  | none =>
    rw [modifyNode_of_none hn]
    split_ifs with hk
    · rw [← hk, view_of_none hn, Option.map_none]
    · rfl
  | some n =>
    rw [modifyNode_of_some hn, view_evolve ((hid n).trans (hg k n hn)), hf]
    split_ifs with hk
    · rw [← hk, view_of_some hn, Option.map_some]
    · rfl

theorem view_remember (hg : g.Named) (k id : NodeId) (memory : Memory) : (g.enact (.remember k memory)).view s id =
    if k = id then (g.view s id).map fun n => { n with memory } else g.view s id :=
  view_modifyNode hg (fun n => { n with memory }) (fun _ => rfl) (fun _ => rfl) k id

/-- The end of an activation is answered in the same way where nodes look alike. -/
theorem completion_view (hle : s.next ≤ g.supply.next) (hle' : s.next ≤ g'.supply.next) {id : NodeId}
    (h : g'.view s id = g.view s id) (result : Except NodeError Output) : g'.completion id result = g.completion id result := by
  rcases view_cases h with ⟨hn, hn'⟩ | ⟨n, n', hn, hn', hview⟩
  · simp only [completion, hn, hn']
  · simp only [completion, hn, hn']
    exact (Node.complete_view result hle' hle hview).1

/-- Nodes look alike after the end of an activation if they did before. -/
theorem view_settle (hg : g.Named) (hg' : g'.Named) (hle : s.next ≤ g.supply.next) (hle' : s.next ≤ g'.supply.next)
    {id : NodeId} (h : g'.view s id = g.view s id) (result : Except NodeError Output) :
    (g'.settle id result).view s id = (g.settle id result).view s id := by
  rcases view_cases h with ⟨hn, hn'⟩ | ⟨n, n', hn, hn', hview⟩
  · simp only [settle, hn, hn', h]
  · have hid := (n.evolves_complete result g.supply).id.trans (hg id n hn)
    have hid' := (n'.evolves_complete result g'.supply).id.trans (hg' id n' hn')
    simp only [settle, hn, hn']
    rw [view_reindex, view_reindex, view_evolve hid, view_evolve hid', if_pos rfl, if_pos rfl]
    exact congrArg some (Node.complete_view result hle' hle hview).2

theorem view_settle_other (hg : g.Named) {k id : NodeId} (hne : k ≠ id) (result : Except NodeError Output) :
    (g.settle k result).view s id = g.view s id := by
  unfold settle
  cases hn : g.node? k with
  | none => rfl
  | some n =>
    dsimp only
    rw [view_reindex, view_evolve ((n.evolves_complete result g.supply).id.trans (hg k n hn)), if_neg hne]

/-! ### Graphs that look alike -/

section Resembles

variable (hr : g.Resembles s g')

include hr

theorem Resembles.ownerOf? {p : PortId} (hp : s.Used p) : g'.ownerOf? p = g.ownerOf? p := by
  have hmem : ∀ n : Node, p ∈ (n.rename s.view).portIds ↔ p ∈ n.portIds := by
    intro n
    rw [Node.portIds_rename, List.mem_map]
    constructor
    · rintro ⟨q, hq, he⟩
      rwa [(Supply.view_eq_iff hp).1 he] at hq
    · exact fun h => ⟨p, h, Supply.view_of_used hp⟩
  refine Option.ext fun id => ?_
  rw [hr.left.owned.owned, hr.right.owned.owned]
  rcases view_cases (hr.view id) with ⟨hn, hn'⟩ | ⟨n, n', hn, hn', hview⟩
  · rw [hn, hn']
  · simp only [hn, hn', Option.some.injEq, exists_eq_left', ← hmem n, ← hmem n', hview]

theorem Resembles.outgoing (p : PortId) : g'.outgoing p = g.outgoing p := by
  rw [Graph.outgoing, hr.outEdges, Graph.outgoing]

theorem Resembles.skips (e : Edge) : g'.skips e = g.skips e := by
  have hvalid : g'.isEdgeValid e = g.isEdgeValid e := by rw [isEdgeValid, hr.edgeSet, hr.flagged, isEdgeValid]
  unfold Graph.skips
  rw [hvalid]
  cases hv : g.isEdgeValid e with
  | false => rfl
  | true =>
    have hmem : e ∈ g.edgeSet := List.contains_iff_mem.1 (Bool.and_eq_true_iff.1 hv).1
    rw [hr.ownerOf? (hr.left.edges hmem)]

theorem Resembles.relayAt? {p : PortId} (hp : s.Used p) : g'.relayAt? p = g.relayAt? p := by
  unfold Graph.relayAt?
  rw [hr.ownerOf? hp]
  cases g.ownerOf? p with
  | none => rfl
  | some id =>
    rcases view_cases (hr.view id) with ⟨hn, hn'⟩ | ⟨n, n', hn, hn', hview⟩
    · simp only [Option.bind_eq_bind, Option.bind_some, hn, hn']
    · have hdirect : n'.isDirectThrough = n.isDirectThrough := (congrArg Node.isDirectThrough hview :)
      simp only [Option.bind_eq_bind, Option.bind_some, hn, hn', hdirect]

theorem Resembles.connectedInputs (id : NodeId) : g'.connectedInputs id = g.connectedInputs id := by
  have htarget : g'.isTarget = g.isTarget := by
    unfold isTarget
    rw [hr.inEdges]
  rcases view_cases (hr.view id) with ⟨hn, hn'⟩ | ⟨n, n', hn, hn', hview⟩
  · simp only [Graph.connectedInputs, hn, hn']
  · have hids : n'.triggerIds.map s.view = n.triggerIds.map s.view := by
      rw [← Node.triggerIds_rename, hview, Node.triggerIds_rename]
    simp only [Graph.connectedInputs, hn, hn']
    change n'.triggerIds.filter g'.isTarget = n.triggerIds.filter g.isTarget
    rw [htarget, ← Supply.filter_view (fun _ => hr.left.targets), hids, Supply.filter_view fun _ => hr.left.targets]

/-- The same nodes are ready. -/
theorem Resembles.isReady (id : NodeId) : g'.isReady id = g.isReady id := by
  have hconnected := hr.connectedInputs id
  rcases view_cases (hr.view id) with ⟨hn, hn'⟩ | ⟨n, n', hn, hn', hview⟩
  · simp only [Graph.isReady, hn, hn']
  · have hused : ∀ p ∈ g.connectedInputs id, s.Used p := by
      intro p hp
      simp only [Graph.connectedInputs, hn] at hp
      exact hr.left.targets (List.mem_filter.1 hp).2
    simp only [Graph.isReady, hn, hn', hconnected]
    rw [← Node.readiness_view hused, hview, Node.readiness_view hused]

theorem Resembles.labelOf : g'.labelOf = g.labelOf := by
  funext id
  unfold Graph.labelOf
  rcases view_cases (hr.view id) with ⟨hn, hn'⟩ | ⟨n, n', hn, hn', hview⟩
  · rw [hn, hn']
  · rw [hn, hn']
    exact (congrArg Node.label hview :)

/-- The outputs of a node that feed others. -/
theorem Resembles.feedingPorts {n n' : Node} (hview : n'.rename s.view = n.rename s.view) :
    g'.feedingPorts n' = g.feedingPorts n := by
  have hids : n'.outputIds.map s.view = n.outputIds.map s.view := by
    rw [← Node.outputIds_rename, hview, Node.outputIds_rename]
  unfold Graph.feedingPorts
  simp only [hr.outgoing]
  rw [← Supply.filter_view hr.left.used_of_feeds, hids, Supply.filter_view hr.left.used_of_feeds]

/-- The same values are taken from a node. -/
theorem Resembles.taken (id : NodeId) : g'.taken id = g.taken id := by
  rcases view_cases (hr.view id) with ⟨hn, hn'⟩ | ⟨n, n', hn, hn', hview⟩
  · simp only [Graph.taken, hn, hn']
  · have hused := hr.left.used_feedingPorts n
    simp only [Graph.taken, hn, hn', hr.feedingPorts hview]
    have htaken := congrArg Prod.fst (takeUnread_view hused n)
    rw [← hview, takeUnread_view hused] at htaken
    exact htaken

theorem Resembles.view_take (k id : NodeId) : (g'.take k).view s id = (g.take k).view s id := by
  rcases view_cases (hr.view k) with ⟨hn, hn'⟩ | ⟨n, n', hn, hn', hview⟩
  · simp only [take, hn, hn', hr.view id]
  · have hused := hr.left.used_feedingPorts n
    have htaken := congrArg Prod.snd (takeUnread_view hused n)
    rw [← hview, takeUnread_view hused] at htaken
    have hid := (kept_takeUnread (g.feedingPorts n) n).id.trans (hr.left.identified.named hn)
    have hid' := (kept_takeUnread (g.feedingPorts n) n').id.trans (hr.right.identified.named hn')
    have hlast : (g.evolve (takeUnread (g.feedingPorts n) n).2 g.supply).view s id =
        (g'.evolve (takeUnread (g.feedingPorts n) n').2 g'.supply).view s id := by
      rw [view_evolve hid, view_evolve hid', hr.view id]
      exact congrArg (fun m => if k = id then some m else g.view s id) htaken.symm
    simp only [take, hn, hn', hr.feedingPorts hview]
    exact hlast.symm

/-! ### Moving data -/

/-- A write to a port that was handed out is answered in the same way, and shows in the same way. -/
theorem Resembles.write {p : PortId} (hp : s.Used p) (v : Value) :
    (∃ e, g.write p v = .error e ∧ g'.write p v = .error e) ∨
      ∃ w g₁ g₁', g.write p v = .ok (w, g₁) ∧ g'.write p v = .ok (w, g₁') ∧ ∀ id, g₁'.view s id = g₁.view s id := by
  unfold Graph.write
  rw [hr.ownerOf? hp]
  cases g.ownerOf? p with
  | none => exact Or.inl ⟨_, rfl, rfl⟩
  | some k =>
    rcases view_cases (hr.view k) with ⟨hn, hn'⟩ | ⟨n, n', hn, hn', hview⟩
    · simp only [Option.bind_eq_bind, Option.bind_some, hn, hn', Option.bind_none]
      exact Or.inl ⟨_, rfl, rfl⟩
    · have hwrite := Node.write_view hp v hr.right.le hr.left.le hview
      simp only [Option.bind_eq_bind, Option.bind_some, hn, hn']
      cases hw : n.write p v g.supply with
      | none =>
        rw [hw, Option.map_none, Option.map_eq_none_iff] at hwrite
        simp only [hwrite, Option.bind_none]
        exact Or.inl ⟨_, rfl, rfl⟩
      | some x =>
        rw [hw, Option.map_some] at hwrite
        obtain ⟨y, hw', hy⟩ := Option.map_eq_some_iff.1 hwrite
        rw [hw']
        cases x with
        | error e =>
          cases y with
          | error e' => exact Or.inl ⟨_, rfl, by rw [Except.error.inj hy]; rfl⟩
          | ok r' => cases hy
        | ok r =>
          cases y with
          | error e' => cases hy
          | ok r' =>
            obtain ⟨w, m, t⟩ := r
            obtain ⟨w', m', t'⟩ := r'
            obtain ⟨rfl, hview'⟩ : w' = w ∧ m'.rename s.view = m.rename s.view := Prod.mk.inj (Except.ok.inj hy)
            refine Or.inr ⟨w', _, _, rfl, rfl, fun id => ?_⟩
            have hid := (Node.evolves_write hw).id.trans (hr.left.identified.named hn)
            have hid' := (Node.evolves_write hw').id.trans (hr.right.identified.named hn')
            change ((g'.evolve m' t').reindex k).view s id = ((g.evolve m t).reindex k).view s id
            rw [view_reindex, view_reindex, view_evolve hid, view_evolve hid', hview', hr.view]

/-- An offer is answered in the same way. -/
theorem Resembles.answer? (o : Offer) :
    (g.answer? o = none ∧ g'.answer? o = none) ∨
      (∃ e, g.answer? o = some (.error e) ∧ g'.answer? o = some (.error e)) ∨
        ∃ w g₁ g₁', g.answer? o = some (.ok (w, g₁)) ∧ g'.answer? o = some (.ok (w, g₁')) ∧ s.Used o.edge.target ∧
          ∀ id, g₁'.view s id = g₁.view s id := by
  unfold Graph.answer?
  rw [hr.skips]
  cases hskips : g.skips o.edge with
  | true => exact Or.inl ⟨rfl, rfl⟩
  | false =>
    have hvalid : g.isEdgeValid o.edge = true := by
      unfold Graph.skips at hskips
      simpa using (Bool.or_eq_false_iff.1 hskips).1
    have hused : s.Used o.edge.target :=
      hr.left.edges (List.contains_iff_mem.1 (Bool.and_eq_true_iff.1 hvalid).1)
    rcases hr.write hused o.value with ⟨e, hw, hw'⟩ | ⟨w, g₁, g₁', hw, hw', hview⟩
    · exact Or.inr (Or.inl ⟨e, congrArg some hw, congrArg some hw'⟩)
    · exact Or.inr (Or.inr ⟨w, g₁, g₁', congrArg some hw, congrArg some hw', hused, hview⟩)

/-- **Graphs that look alike still do after the same act.** -/
theorem Resembles.enact (act : Act) : (g.enact act).Resembles s (g'.enact act) := by
  obtain ⟨horder, hset, hflagged, hout, hin⟩ := edges_enact g act
  obtain ⟨horder', hset', hflagged', hout', hin'⟩ := edges_enact g' act
  have hg := hr.left.identified.isNamed
  have hg' := hr.right.identified.isNamed
  have hmodify : ∀ (f : Node → Node) (k id : NodeId), (∀ n, (f n).id = n.id) →
      (∀ n, (f n).rename s.view = f (n.rename s.view)) →
      (g'.modifyNode k f).view s id = (g.modifyNode k f).view s id := by
    intro f k id hid hf
    rw [view_modifyNode hg f hid hf, view_modifyNode hg' f hid hf, hr.view]
  refine ⟨hr.left.enact act, hr.right.enact act, by rw [horder, horder', hr.order], ?_, by rw [hset, hset', hr.edgeSet],
    by rw [hflagged, hflagged', hr.flagged], by rw [hout, hout', hr.outEdges], by rw [hin, hin', hr.inEdges], fun id => ?_⟩
  · rw [edges_unchanged hr.left.identified, edges_unchanged hr.right.identified, hr.edges]
  cases act with
  | prepare a =>
    exact hmodify (fun n => n.prepare.2) _ _ (fun _ => rfl) fun n => (congrArg Prod.snd (n.prepare_rename _)).symm
  | remember k memory => exact hmodify (fun n => { n with memory }) _ _ (fun _ => rfl) fun _ => rfl
  | reset k => exact hmodify Node.resetStatus _ _ (fun _ => rfl) fun _ => rfl
  | clear k =>
    rw [Graph.enact, Graph.enact, view_reindex, view_reindex]
    exact hmodify Node.clearInputs _ _ (fun _ => rfl) fun n => (n.clearInputs_rename _).symm
  | settle k result =>
    by_cases hk : k = id
    · subst hk
      exact view_settle hg hg' hr.left.le hr.right.le (hr.view k) result
    · exact (view_settle_other hg' hk result).trans ((hr.view id).trans (view_settle_other hg hk result).symm)
  | take k => exact hr.view_take k id
  | offer o =>
    rcases hr.answer? o with ⟨ha, ha'⟩ | ⟨e, ha, ha'⟩ | ⟨w, g₁, g₁', ha, ha', -, hview⟩ <;>
      simp only [Graph.enact, ha, ha']
    · exact hr.view id
    · exact hr.view id
    · exact hview id
  | publish => exact hr.view id

theorem Resembles.replay (acts : List Act) : (g.replay acts).Resembles s (g'.replay acts) := by
  induction acts generalizing g g' with
  | nil => exact hr
  | cons act acts ih => exact ih (hr.enact act)

end Resembles

end Graph

/-- Deliveries in graphs that look alike, of the same data. -/
structure Delivery.Resembles (s : Supply) (d d' : Delivery) : Prop where
  graph : d.graph.Resembles s d'.graph
  transfers : d'.transfers = d.transfers
  relays : d'.relays = d.relays
  failure : d'.failure = d.failure

namespace Graph

variable {s : Supply} {g g' : Graph}

theorem deliver_cons (o : Offer) (rest : List Offer) (d : Delivery) : deliver (o :: rest) d =
    match d.graph.answer? o with
    | none => deliver rest d
    | some (.error e) => { d with failure := some (o.failure e) }
    | some (.ok (stored, graph)) =>
      deliver rest
        { d with
          graph
          relays := match graph.relayAt? o.edge.target with
            | some relay => insertNew relay d.relays
            | none => d.relays
          transfers := d.transfers ++ [⟨o.edge.source, o.edge.target, stored⟩] } := by
  rw [deliver, answer?]
  split_ifs
  · rfl
  · dsimp only
    rcases d.graph.write o.edge.target o.value with e | ⟨w, g₁⟩ <;> rfl

theorem resembles_deliver (offers : List Offer) {d d' : Delivery} (h : d.Resembles s d') :
    (deliver offers d).Resembles s (deliver offers d') := by
  induction offers generalizing d d' with
  | nil => exact h
  | cons o rest ih =>
    have hlater := h.graph.enact (.offer o)
    rw [deliver_cons, deliver_cons]
    rcases h.graph.answer? o with ⟨ha, ha'⟩ | ⟨e, ha, ha'⟩ | ⟨w, g₁, g₁', ha, ha', hused, -⟩ <;> rw [ha, ha']
    · exact ih h
    · exact ⟨h.graph, h.transfers, h.relays, rfl⟩
    · simp only [enact, ha, ha'] at hlater
      refine ih ⟨hlater, by rw [h.transfers], ?_, h.failure⟩
      rw [hlater.relayAt? hused, h.relays]

/-- **The same data moves in graphs that look alike.** -/
theorem Resembles.transferOutputs (hr : g.Resembles s g') (id : NodeId) :
    (g.transferOutputs id).Resembles s (g'.transferOutputs id) := by
  have htake := hr.enact (.take id)
  have hout : ∀ p, (g'.take id).outgoing p = (g.take id).outgoing p := htake.outgoing
  have hoffers : (g'.take id).offers (g'.taken id) = (g.take id).offers (g.taken id) := by
    simp only [offers, hr.taken, hout]
  rw [transferOutputs_eq, transferOutputs_eq, hoffers]
  exact resembles_deliver _ ⟨htake, rfl, rfl, rfl⟩

/-! ### One graph under other identifiers -/

/-- The second graph is the first under other identifiers for the element ports that came after the supply `s`. -/
structure Renames (s : Supply) (σ : Equiv.Perm PortId) (g g' : Graph) : Prop where
  fixes : ∀ p, s.Used p → σ p = p
  order : g'.order = g.order
  nodes : ∀ id, g'.node? id = (g.node? id).map (Node.rename σ)
  edges : g'.edges = g.edges
  edgeSet : g'.edgeSet = g.edgeSet
  owners : ∀ p, g'.ownerOf? (σ p) = g.ownerOf? p
  outEdges : g'.outEdges = g.outEdges
  inEdges : g'.inEdges = g.inEdges
  flagged : g'.flagged = g.flagged

/-- The identifiers of the ports of a node, if there is one. -/
def portIdsOf (g : Graph) (id : NodeId) : List PortId :=
  (g.node? id).elim [] Node.portIds

theorem Identified.nodup_portIds (hg : g.Identified) : (g.order.flatMap g.portIdsOf).Nodup := by
  have hof : ∀ {id p}, p ∈ g.portIdsOf id → ∃ n, g.node? id = some n ∧ p ∈ n.portIds := by
    intro id p hp
    unfold portIdsOf at hp
    cases hn : g.node? id with
    | none => rw [hn] at hp; exact absurd hp List.not_mem_nil
    | some n => rw [hn] at hp; exact ⟨n, rfl, hp⟩
  refine List.nodup_flatMap.2 ⟨fun id _ => ?_, hg.nodup.imp fun {id id'} hne p hp hp' => ?_⟩
  · unfold portIdsOf
    cases hn : g.node? id with
    | none => exact List.nodup_nil
    | some n => exact hg.distinct hn
  · obtain ⟨n, hn, hin⟩ := hof hp
    obtain ⟨n', hn', hin'⟩ := hof hp'
    exact hg.apart hn hn' hne hin hin'

/-- **Of graphs that look alike, one is the other under other identifiers for new element ports.** -/
theorem Resembles.renames (hr : g.Resembles s g') : ∃ σ : Equiv.Perm PortId, g.Renames s σ g' := by
  have hids : ∀ id, (g'.portIdsOf id).map s.view = (g.portIdsOf id).map s.view := by
    intro id
    rcases view_cases (hr.view id) with ⟨hn, hn'⟩ | ⟨n, n', hn, hn', hview⟩
    · rw [portIdsOf, portIdsOf, hn, hn']
    · rw [portIdsOf, portIdsOf, hn, hn', Option.elim_some, Option.elim_some, ← Node.portIds_rename, hview, Node.portIds_rename]
  have hall : (g'.order.flatMap g'.portIdsOf).map s.view = (g.order.flatMap g.portIdsOf).map s.view := by
    rw [List.map_flatMap, List.map_flatMap, hr.order]
    exact List.flatMap_congr fun id _ => hids id
  obtain ⟨σ, hfixes, hσ⟩ :=
    Supply.exists_perm hr.left.identified.nodup_portIds hr.right.identified.nodup_portIds hall
  have hport : ∀ order : List NodeId, (order.flatMap g.portIdsOf).map σ = order.flatMap g'.portIdsOf →
      ∀ id ∈ order, (g.portIdsOf id).map σ = g'.portIdsOf id := by
    intro order h id hid
    induction order with
    | nil => exact absurd hid List.not_mem_nil
    | cons k rest ih =>
      have hlength : ((g.portIdsOf k).map σ).length = (g'.portIdsOf k).length := by
        simpa only [List.length_map] using (congrArg List.length (hids k)).symm
      rw [List.flatMap_cons, List.flatMap_cons, List.map_append] at h
      obtain ⟨hfirst, hlater⟩ := List.append_inj h hlength
      rcases List.mem_cons.1 hid with rfl | hid
      · exact hfirst
      · exact ih hlater hid
  have hnodes : ∀ id, g'.node? id = (g.node? id).map (Node.rename σ) := by
    intro id
    rcases view_cases (hr.view id) with ⟨hn, hn'⟩ | ⟨n, n', hn, hn', hview⟩
    · rw [hn, hn', Option.map_none]
    · have hlisted : id ∈ g.order := hr.left.identified.listed.1 (by rw [hn]; rfl)
      have hsame := hport g.order (by rw [hσ, hr.order]) id hlisted
      rw [portIdsOf, portIdsOf, hn, hn', Option.elim_some, Option.elim_some] at hsame
      rw [hn, hn', Option.map_some, Node.eq_rename_of_view hview.symm hsame]
  refine ⟨σ, hfixes, hr.order, hnodes, hr.edges, hr.edgeSet, fun p => Option.ext fun id => ?_, hr.outEdges, hr.inEdges, hr.flagged⟩
  rw [hr.left.owned.owned, hr.right.owned.owned, hnodes]
  cases g.node? id with
  | none => simp
  | some n => simp [Node.portIds_rename]

end Graph

end Dataflow
