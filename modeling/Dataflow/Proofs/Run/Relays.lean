import Dataflow.Proofs.Run.Moves

/-!
# Relays settle within the iteration

A direct-through node is *due* when its connected inputs are filled as its policy asks. While outputs are
moved, every node that is due is among the work that is left; so none is left over at the end.

* `Node.gauge` is all that readiness sees of the ports of a node;
* `Graph.isDue` says that a direct-through node is due; `Graph.isReady_of_isDue` and `Graph.isDue_of_isReady`
  compare this with readiness;
* `Graph.enact_alike`: only a delivery to a node and clearing its inputs change its readiness;
* `Graph.isDue_enact`: only a delivery to a node makes it due, and clearing its inputs ends it;
* `Run.Settles` is the invariant of a run, `Run.Leads.settles` says that all states of a run have it;
* `Run.relays_settle`: no relay is ready when all outputs of an iteration are moved.
-/

namespace Dataflow

namespace Node

/-- The ports that gate readiness, each with whether it is filled. -/
def gauge (n : Node) : List (PortId × Bool) :=
  (n.triggers.flatMap Port.flatten).map fun p => (p.id, p.hasData)

/-- Whether the connected ones of these ports are filled as the policy asks. -/
def isFed (policy : ReadinessPolicy) (gauge : List (PortId × Bool)) (connected : PortId → Bool) : Bool :=
  let fed := gauge.filter fun e => connected e.1
  !fed.isEmpty && match policy with
    | .allConnected => fed.all Prod.snd
    | .anyConnected => fed.any Prod.snd

theorem triggerIds_eq (n : Node) : n.triggerIds = n.gauge.map Prod.fst := by
  rw [gauge, triggerIds, List.map_map, List.map_flatMap]
  exact List.flatMap_congr fun p _ => p.ids_eq_map_flatten

/-- What readiness comes to, apart from being switched off. -/
theorem readiness_eq_ready {n : Node} {connected : List PortId} (hd : n.isDisabled = false) :
    n.readiness connected = .ready ↔ n.hasPendingWork = true ∨
      (n.gauge.filter fun e => connected.contains e.1) = [] ∨
        isFed n.behavior.policy n.gauge connected.contains = true := by
  have hfilter : (n.gauge.filter fun e => connected.contains e.1) =
      ((n.triggers.flatMap Port.flatten).filter fun p => connected.contains p.id).map fun p => (p.id, p.hasData) := by
    rw [gauge, List.filter_map]
    rfl
  unfold readiness isFed
  rw [hfilter]
  simp only [hd, Bool.false_eq_true, if_false]
  cases hw : n.hasPendingWork with
  | true => simp
  | false =>
    set fed := (n.triggers.flatMap Port.flatten).filter fun p => connected.contains p.id with hfed
    cases fed with
    | nil => simp
    | cons p rest => cases n.behavior.policy <;> cases hp : p.hasData <;> simp [Function.comp_def, hp]

theorem gauge_prepare (n : Node) : n.prepare.2.gauge = n.gauge := by
  have hport : ∀ p : Port, p.read.2.flatten.map (fun q => (q.id, q.hasData)) =
      p.flatten.map fun q => (q.id, q.hasData) := by
    intro p
    rw [Port.flatten_eq, Port.flatten_eq p, List.map_cons, List.map_cons]
    rfl
  have htriggers : n.prepare.2.triggers = n.triggers.map fun p => p.read.2 := by
    simp [triggers, prepare]
  rw [gauge, gauge, htriggers, List.flatMap_map, List.map_flatMap, List.map_flatMap]
  exact List.flatMap_congr fun p _ => hport p

theorem gauge_clearInputs (n : Node) : ∀ e ∈ n.clearInputs.gauge, e.2 = false := by
  intro e he
  have htriggers : n.clearInputs.triggers = n.triggers.map Port.clear := by simp [triggers, clearInputs]
  rw [gauge, htriggers, List.flatMap_map] at he
  obtain ⟨q, hq, rfl⟩ := List.mem_map.1 he
  obtain ⟨p, -, hqp⟩ := List.mem_flatMap.1 hq
  rw [Port.flatten_clear] at hqp
  obtain ⟨r, -, rfl⟩ := List.mem_map.1 hqp
  exact Port.hasData_clear r

theorem gauge_ids_clearInputs (n : Node) : n.clearInputs.gauge.map Prod.fst = n.gauge.map Prod.fst := by
  have htriggers : n.clearInputs.triggers = n.triggers.map Port.clear := by simp [triggers, clearInputs]
  rw [← triggerIds_eq, ← triggerIds_eq, triggerIds, triggerIds, htriggers, List.flatMap_map]
  exact List.flatMap_congr fun p _ => p.ids_clear

/-- A node that readiness does not tell from another one. -/
structure Alike (n n' : Node) : Prop where
  id : n'.id = n.id
  behavior : n'.behavior = n.behavior
  config : n'.config = n.config
  gauge : n'.gauge = n.gauge

theorem Alike.refl (n : Node) : n.Alike n :=
  ⟨rfl, rfl, rfl, rfl⟩

/-- No node is fed by empty ports. -/
theorem isFed_eq_false {policy : ReadinessPolicy} {gauge : List (PortId × Bool)} {connected : PortId → Bool}
    (h : ∀ e ∈ gauge, e.2 = false) : isFed policy gauge connected = false := by
  unfold isFed
  have hfed : ∀ e ∈ gauge.filter fun e => connected e.1, e.2 = false := fun e he => h e (List.mem_filter.1 he).1
  cases hf : gauge.filter fun e => connected e.1 with
  | nil => rfl
  | cons e rest =>
    rw [hf] at hfed
    cases policy with
    | allConnected => simp [hfed e List.mem_cons_self]
    | anyConnected =>
      simp only [List.isEmpty_cons, Bool.not_false, Bool.true_and, List.any_eq_false]
      intro e he
      simp [hfed e he]

end Node

namespace Graph

/-- Whether a port has incoming edges. -/
def isTarget (g : Graph) (p : PortId) : Bool :=
  Table.contains p g.inEdges

/-- Whether a direct-through node is due: it is not switched off, and its connected inputs are filled. -/
def isDue (g : Graph) (id : NodeId) : Bool :=
  (g.node? id).any fun n =>
    n.isDirectThrough && !n.isDisabled && Node.isFed n.behavior.policy n.gauge g.isTarget

theorem connectedInputs_eq {g : Graph} {id : NodeId} {n : Node} (hn : g.node? id = some n) :
    g.connectedInputs id = (n.gauge.map Prod.fst).filter g.isTarget := by
  simp only [connectedInputs, hn, Node.triggerIds_eq]
  rfl

/-- Of the ports of a node, the connected ones are those with incoming edges. -/
theorem contains_connectedInputs {g : Graph} {id : NodeId} {n : Node} (hn : g.node? id = some n) :
    ∀ e ∈ n.gauge, (g.connectedInputs id).contains e.1 = g.isTarget e.1 := by
  intro e he
  rw [connectedInputs_eq hn, Bool.eq_iff_iff, List.contains_iff_mem, List.mem_filter]
  exact and_iff_right (List.mem_map_of_mem he)

theorem filter_connectedInputs {g : Graph} {id : NodeId} {n : Node} (hn : g.node? id = some n) :
    (n.gauge.filter fun e => (g.connectedInputs id).contains e.1) = n.gauge.filter fun e => g.isTarget e.1 :=
  List.filter_congr (contains_connectedInputs hn)

theorem isFed_connectedInputs {g : Graph} {id : NodeId} {n : Node} (hn : g.node? id = some n) :
    Node.isFed n.behavior.policy n.gauge (g.connectedInputs id).contains =
      Node.isFed n.behavior.policy n.gauge g.isTarget := by
  unfold Node.isFed
  rw [filter_connectedInputs hn]

theorem isReady_of_isDue {g : Graph} {id : NodeId} (h : g.isDue id = true) : g.isReady id = true := by
  obtain ⟨n, hn, hdue⟩ := (Option.any_eq_true _ _).1 h
  simp only [Bool.and_eq_true, Bool.not_eq_true'] at hdue
  obtain ⟨⟨-, hd⟩, hfed⟩ := hdue
  simp only [isReady, hn, decide_eq_true_eq]
  exact (Node.readiness_eq_ready hd).2 (Or.inr (Or.inr (by rw [isFed_connectedInputs hn]; exact hfed)))

theorem isDue_of_isReady {g : Graph} {id : NodeId} {n : Node} (hn : g.node? id = some n)
    (hdirect : n.isDirectThrough = true) (hconnected : g.connectedInputs id ≠ [])
    (hpending : n.hasPendingWork = false) (h : g.isReady id = true) : g.isDue id = true := by
  have hready : n.readiness (g.connectedInputs id) = .ready := by
    simpa only [isReady, hn, decide_eq_true_eq] using h
  have hd : n.isDisabled = false := by
    by_contra hd
    have : n.readiness (g.connectedInputs id) = .notReady := by
      rw [Node.readiness, if_pos (by simpa using hd)]
    rw [this] at hready
    cases hready
  refine (Option.any_eq_true _ _).2 ⟨n, hn, ?_⟩
  rcases (Node.readiness_eq_ready hd).1 hready with hp | hnone | hfed
  · rw [hpending] at hp; cases hp
  · rw [filter_connectedInputs hn] at hnone
    rw [connectedInputs_eq hn, List.filter_map] at hconnected
    exact absurd (by rw [Function.comp_def, hnone, List.map_nil]) hconnected
  · rw [isFed_connectedInputs hn] at hfed
    simp [hdirect, hd, hfed]

/-! ### What changes readiness -/

/-- A node is the same to readiness after an act, unless its inputs are cleared or something is delivered to it. -/
theorem enact_alike {g : Graph} (hg : g.Identified) (act : Act) {id : NodeId} {n' : Node}
    (hn' : (g.enact act).node? id = some n') :
    (act ≠ .clear id ∧ ∃ n, g.node? id = some n ∧ n.Alike n') ∨
      (act = .clear id ∧ ∃ n, g.node? id = some n ∧ n' = n.clearInputs) ∨
        ∃ o w g', act = .offer o ∧ g.answer? o = some (.ok (w, g')) ∧ g.ownerOf? o.edge.target = some id := by
  by_cases hc : g.concerned act = some id
  · have hmodify : ∀ f : Node → Node, (∀ n : Node, n.Evolves g.supply g.supply (f n) ∧ (f n).gauge = n.gauge) →
        (g.modifyNode id f).node? id = some n' → ∃ n, g.node? id = some n ∧ n.Alike n' := by
      intro f hf hn'
      cases hn : g.node? id with
      | none => rw [modifyNode_of_none hn, hn] at hn'; cases hn'
      | some n =>
        obtain ⟨he, hgauge⟩ := hf n
        rw [modifyNode_of_some hn, node?_evolve, he.id, if_pos (hg.named hn)] at hn'
        cases hn'
        exact ⟨n, rfl, he.id, he.behavior, he.config, hgauge⟩
    cases act with
    | prepare a =>
      cases hc
      exact Or.inl ⟨by simp, hmodify _ (fun n => ⟨n.evolves_prepare g.supply, n.gauge_prepare⟩) hn'⟩
    | remember m memory =>
      cases hc
      exact Or.inl ⟨by simp, hmodify _ (fun n => ⟨n.evolves_status g.supply n.status n.lastError memory, rfl⟩) hn'⟩
    | reset m =>
      cases hc
      exact Or.inl ⟨by simp, hmodify _ (fun n => ⟨n.evolves_status g.supply .idle none n.memory, rfl⟩) hn'⟩
    | settle m result =>
      cases hc
      refine Or.inl ⟨by simp, ?_⟩
      cases hn : g.node? id with
      | none => simp only [enact, settle, hn, reduceCtorEq] at hn'
      | some n =>
        have hevolves := n.evolves_complete result g.supply
        simp only [enact, settle, hn, node?_reindex, node?_evolve, hevolves.id, hg.named hn, if_true, Option.some.injEq] at hn'
        subst hn'
        exact ⟨n, rfl, hevolves.id, hevolves.behavior, hevolves.config, by rw [Node.gauge, Node.gauge, Node.triggers_complete]⟩
    | take m =>
      cases hc
      refine Or.inl ⟨by simp, ?_⟩
      cases hn : g.node? id with
      | none => simp only [enact, take, hn, reduceCtorEq] at hn'
      | some n =>
        have hm := marked_takeUnread (hg.ordered hn) (hg.distinct hn) (g.feedingPorts_subset n)
        have hevolves := hm.evolves g.supply
        simp only [enact, take, hn, node?_setNode, hevolves.id, hg.named hn, if_true, Option.some.injEq] at hn'
        subst hn'
        exact ⟨n, rfl, hevolves.id, hevolves.behavior, hevolves.config, by rw [Node.gauge, Node.gauge, hm.triggers]⟩
    | clear m =>
      cases hc
      refine Or.inr (Or.inl ⟨rfl, ?_⟩)
      cases hn : g.node? id with
      | none => rw [enact, modifyNode_of_none hn, node?_reindex, hn] at hn'; cases hn'
      | some n =>
        rw [enact, modifyNode_of_some hn, node?_reindex, node?_evolve,
          if_pos ((n.evolves_clearInputs g.supply).id.trans (hg.named hn))] at hn'
        cases hn'
        exact ⟨n, rfl, rfl⟩
    | offer o =>
      cases ha : g.answer? o with
      | none =>
        simp only [enact, ha] at hn'
        exact Or.inl ⟨by simp, n', hn', .refl n'⟩
      | some answer =>
        cases answer with
        | error e =>
          simp only [enact, ha] at hn'
          exact Or.inl ⟨by simp, n', hn', .refl n'⟩
        | ok result => exact Or.inr (Or.inr ⟨o, result.1, result.2, rfl, ha, hc⟩)
    | publish => cases hc
  · rw [node?_enact_other hg hc] at hn'
    exact Or.inl ⟨fun e => hc (by rw [e]; rfl), n', hn', .refl n'⟩

theorem isTarget_enact (g : Graph) (act : Act) : (g.enact act).isTarget = g.isTarget := by
  unfold isTarget
  rw [(edges_enact g act).2.2.2.2]

/-! ### What makes a relay due -/

/-- Only a delivery to a node makes it due, and it is not due after its inputs were cleared. -/
theorem isDue_enact {g : Graph} (hg : g.Identified) {act : Act} {id : NodeId} (h : (g.enact act).isDue id = true) :
    g.isDue id = true ∧ act ≠ .clear id ∨
      ∃ o w g', act = .offer o ∧ g.answer? o = some (.ok (w, g')) ∧ g.ownerOf? o.edge.target = some id := by
  obtain ⟨n', hn', hdue⟩ := (Option.any_eq_true _ _).1 h
  rw [isTarget_enact] at hdue
  rcases enact_alike hg act hn' with ⟨hne, n, hn, halike⟩ | ⟨-, n, -, rfl⟩ | hoffer
  · refine Or.inl ⟨?_, hne⟩
    simp only [isDue, hn, Option.any_some, Node.isDirectThrough, Node.isDisabled]
    simpa only [Node.isDirectThrough, Node.isDisabled, halike.behavior, halike.config, halike.gauge] using hdue
  · rw [Node.isFed_eq_false n.gauge_clearInputs, Bool.and_false] at hdue
    cases hdue
  · exact Or.inr hoffer

/-- Acts other than deliveries make no node due. -/
theorem isDue_replay {g : Graph} (hg : g.Identified) {acts : List Act} (hacts : ∀ act ∈ acts, ∀ o, act ≠ .offer o)
    {id : NodeId} (h : (g.replay acts).isDue id = true) : g.isDue id = true ∧ .clear id ∉ acts := by
  induction acts generalizing g with
  | nil => exact ⟨h, List.not_mem_nil⟩
  | cons act acts ih =>
    obtain ⟨hact, hrest⟩ := List.forall_mem_cons.1 hacts
    obtain ⟨h, hnot⟩ := ih (hg.enact act) hrest h
    rcases isDue_enact hg h with ⟨h, hne⟩ | ⟨o, _, _, heq, -⟩
    · exact ⟨h, fun hm => (List.mem_cons.1 hm).elim (fun e => hne e.symm) hnot⟩
    · exact absurd heq (hact o)

/-! ### Deliveries and relays -/

theorem subset_relays_deliver (offers : List Offer) (d : Delivery) : d.relays ⊆ (deliver offers d).relays := by
  induction offers generalizing d with
  | nil => exact List.Subset.refl _
  | cons o rest ih =>
    unfold deliver
    split_ifs
    · exact ih d
    · split
      · exact List.Subset.refl _
      · rename_i stored g' hw
        refine List.Subset.trans ?_ (ih _)
        dsimp only
        split
        · exact fun id hid => mem_insertNew.2 (Or.inr hid)
        · exact List.Subset.refl _

/-- If the owner of a port is due after a write to it, it is the relay that owns the port. -/
theorem relayAt?_write {g g' : Graph} (hg : g.Identified) {p : PortId} {v w : Value} {id : NodeId}
    (hw : g.write p v = .ok (w, g')) (howner : g.ownerOf? p = some id) (hdue : g'.isDue id = true) :
    g'.relayAt? p = some id := by
  obtain ⟨owner, n, n', s', howner', hn, hwrite, rfl⟩ := write_eq_ok hw
  obtain rfl : owner = id := Option.some.inj (howner'.symm.trans howner)
  have hid : n'.id = owner := (Node.evolves_write hwrite).id.trans (hg.named hn)
  have hn' : (g.evolve n' s').node? owner = some n' := by rw [node?_evolve, if_pos hid]
  have howns := ownerOf?_reindex hn' (mem_portIds_write (hg.ordered hn) hwrite)
  rw [← node?_reindex _ owner] at hn'
  have hdirect : n'.isDirectThrough = true := by
    simp only [isDue, hn', Option.any_some, Bool.and_eq_true] at hdue
    exact hdue.1.1
  simp only [relayAt?, Option.bind_eq_bind, howns, Option.bind_some, hn', hdirect, if_true]

/-- A relay that becomes due by a delivery is among those that the delivery reports. -/
theorem isDue_deliver {offers : List Offer} {d : Delivery} (hg : d.graph.Identified) {id : NodeId}
    (h : (deliver offers d).graph.isDue id = true) : d.graph.isDue id = true ∨ id ∈ (deliver offers d).relays := by
  induction offers generalizing d with
  | nil => exact Or.inl h
  | cons o rest ih =>
    unfold deliver at h ⊢
    by_cases hs : d.graph.skips o.edge = true
    · rw [if_pos hs] at h ⊢
      exact ih hg h
    · rw [if_neg hs] at h ⊢
      have hanswer : d.graph.answer? o = some (d.graph.write o.edge.target o.value) := by rw [answer?, if_neg hs]
      cases hw : d.graph.write o.edge.target o.value with
      | error e =>
        rw [hw] at h
        exact Or.inl h
      | ok result =>
        obtain ⟨stored, g'⟩ := result
        rw [hw] at h hanswer
        have henact : d.graph.enact (.offer o) = g' := by simp only [enact, hanswer]
        have hg' : g'.Identified := henact ▸ hg.enact (.offer o)
        rcases ih (d := ⟨g', _, _, _⟩) hg' h with hdue | hmem
        · rcases isDue_enact hg (henact.symm ▸ hdue : (d.graph.enact (.offer o)).isDue id = true) with
            ⟨hdue, -⟩ | ⟨o', w, g₁, heq, -, howner⟩
          · exact Or.inl hdue
          · cases heq
            refine Or.inr (subset_relays_deliver rest _ ?_)
            dsimp only
            rw [relayAt?_write hg hw howner hdue]
            exact mem_insertNew.2 (Or.inl rfl)
        · exact Or.inr hmem

theorem isDue_transferOutputs {g : Graph} (hg : g.Identified) {id relay : NodeId}
    (h : (g.transferOutputs id).graph.isDue relay = true) :
    g.isDue relay = true ∨ relay ∈ (g.transferOutputs id).relays := by
  rw [transferOutputs_eq] at h ⊢
  have hg' : (g.take id).Identified := hg.enact (.take id)
  rcases isDue_deliver hg' h with hdue | hmem
  · rcases isDue_enact hg (show (g.enact (.take id)).isDue relay = true from hdue) with ⟨hdue, -⟩ | ⟨_, _, _, heq, -⟩
    · exact Or.inl hdue
    · cases heq
  · exact Or.inr hmem

end Graph

namespace Run

/-! ### The invariant of a run -/

/-- Every relay that is due is cleared at the end of the iteration, or among the work that is left. -/
def Settles (r : Run) : Prop :=
  match r.phase with
  | .activating batch => ∀ id, r.graph.isDue id = true → id ∈ batch.ready
  | .propagating agenda => ∀ id, r.graph.isDue id = true → ∃ depth, .activate id depth ∈ agenda.work
  | .relaying relay _ agenda =>
    ∀ id, r.graph.isDue id = true → id = relay.task.node ∨ ∃ depth, .activate id depth ∈ agenda.work
  | _ => True

theorem settles_activating {r : Run} {batch : Batch} (hp : r.phase = .activating batch) :
    r.Settles ↔ ∀ id, r.graph.isDue id = true → id ∈ batch.ready := by
  unfold Settles
  rw [hp]

theorem settles_propagating {r : Run} {agenda : Agenda} (hp : r.phase = .propagating agenda) :
    r.Settles ↔ ∀ id, r.graph.isDue id = true → ∃ depth, .activate id depth ∈ agenda.work := by
  unfold Settles
  rw [hp]

theorem settles_relaying {r : Run} {relay : Sleeper} {depth : Nat} {agenda : Agenda}
    (hp : r.phase = .relaying relay depth agenda) :
    r.Settles ↔ ∀ id, r.graph.isDue id = true → id = relay.task.node ∨ ∃ depth, .activate id depth ∈ agenda.work := by
  unfold Settles
  rw [hp]

/-- Outside of iterations there is nothing to be settled. -/
theorem settles_of_idle {r : Run} (h : (r.phase.isIdle || r.phase.isOver) = true) : r.Settles := by
  unfold Settles
  cases hp : r.phase <;> first | trivial | (rw [hp] at h; cases h)

theorem mem_collectReady_of_isDue {g : Graph} {nodes : List Node} {fired : List NodeId} {n : Node} (hn : n ∈ nodes)
    (hnode : g.node? n.id = some n) (hdue : g.isDue n.id = true) : n.id ∈ (collectReady g nodes fired).1 := by
  have hready : n.readiness (g.connectedInputs n.id) = .ready := by
    have := Graph.isReady_of_isDue hdue
    simpa only [Graph.isReady, hnode, decide_eq_true_eq] using this
  have hconnected : (g.connectedInputs n.id).isEmpty = false := by
    simp only [Graph.isDue, hnode, Option.any_some, Bool.and_eq_true, Node.isFed, Bool.not_eq_true'] at hdue
    obtain ⟨-, hfed, -⟩ := hdue
    rw [Graph.connectedInputs_eq hnode, List.filter_map, List.isEmpty_map]
    exact hfed
  induction nodes generalizing fired with
  | nil => exact absurd hn List.not_mem_nil
  | cons m rest ih =>
    unfold collectReady
    rcases List.mem_cons.1 hn with rfl | hn
    · have hjoins : joins g fired n = true := by simp [joins, hready, hconnected]
      rw [if_pos hjoins]
      exact List.mem_cons_self
    · split_ifs
      · exact List.mem_cons_of_mem _ (ih hn)
      · exact List.mem_cons_of_mem _ (ih hn)
      · exact ih hn

/-- Every relay that is due joins the scan. -/
theorem mem_scan_of_isDue {g : Graph} (hg : g.Identified) (fired : List NodeId) {id : NodeId} (hdue : g.isDue id = true) :
    id ∈ (collectReady g g.nodeList fired).1 := by
  obtain ⟨n, hn, -⟩ := (Option.any_eq_true _ _).1 hdue
  obtain rfl := hg.named hn
  exact mem_collectReady_of_isDue ((Graph.mem_nodeList hg).2 hn) hn hdue

theorem isDue_carried {node : NodeId} {depth : Nat} {agenda : Agenda} {g : Graph} {acts : List Act} {p : Phase}
    (h : Carried node depth agenda g acts p) : ∀ act ∈ acts, ∀ o, act ≠ .offer o := by
  intro act hact o
  cases h with
  | asleep | broken =>
    obtain ⟨memory, -, rfl⟩ := List.mem_map.1 hact
    simp
  | failed | settled =>
    rcases List.mem_append.1 hact with hact | hact
    · obtain ⟨memory, -, rfl⟩ := List.mem_map.1 hact
      simp
    · simp only [List.mem_cons, List.not_mem_nil, or_false] at hact
      rcases hact with rfl | rfl <;> simp

/-- A relay that was activated is not due any more, or it sleeps. -/
theorem settles_carried {r' : Run} {node : NodeId} {depth : Nat} {agenda : Agenda} {g : Graph} {acts : List Act}
    (hg : g.Identified) (hgraph : r'.graph = g.replay acts) (h : Carried node depth agenda g acts r'.phase)
    (hdue : ∀ id, g.isDue id = true → id = node ∨ ∃ depth, .activate id depth ∈ agenda.work) : r'.Settles := by
  have hbefore : ∀ id, r'.graph.isDue id = true → g.isDue id = true ∧ .clear id ∉ acts := fun id hid =>
    Graph.isDue_replay hg (isDue_carried h) (hgraph ▸ hid)
  generalize hp : r'.phase = p at h
  cases h with
  | asleep hnode =>
    exact (settles_relaying hp).2 fun id hid => (hdue id (hbefore id hid).1).imp_left fun e => e.trans hnode.symm
  | broken | failed => exact settles_of_idle (by rw [hp]; rfl)
  | settled =>
    refine (settles_propagating hp).2 fun id hid => ?_
    obtain ⟨hid, hnot⟩ := hbefore id hid
    rcases hdue id hid with rfl | ⟨d, hd⟩
    · exact absurd (by simp) hnot
    · exact ⟨d, List.mem_cons_of_mem _ hd⟩

/-- When outputs are moved, the relays that they make due are put in front of the work. -/
theorem due_moved {g : Graph} (hg : g.Identified) {id : NodeId} {depth : Nat} {work : List Work}
    (hdue : ∀ relay, g.isDue relay = true → ∃ d, .activate relay d ∈ Work.propagate id depth :: work) {relay : NodeId}
    (h : (g.transferOutputs id).graph.isDue relay = true) :
    ∃ d, .activate relay d ∈ (((g.transferOutputs id).relays.filter (g.transferOutputs id).graph.isReady).map fun relay =>
      Work.activate relay (depth + 1)) ++ work := by
  rcases Graph.isDue_transferOutputs hg h with hold | hnew
  · obtain ⟨d, hd⟩ := hdue relay hold
    have hd' : Work.activate relay d ∈ work := by simpa using hd
    exact ⟨d, List.mem_append_right _ hd'⟩
  · refine ⟨depth + 1, List.mem_append_left _ (List.mem_map.2 ⟨relay, ?_, rfl⟩)⟩
    exact List.mem_filter.2 ⟨hnew, Graph.isReady_of_isDue h⟩

/-- A relay whose turn is to come has its turn now, or is among the work that is left. -/
theorem awaited_cons {id relay : NodeId} {depth : Nat} {work : List Work}
    (h : ∃ d, .activate relay d ∈ Work.activate id depth :: work) : relay = id ∨ ∃ d, .activate relay d ∈ work := by
  obtain ⟨d, hd⟩ := h
  rcases List.mem_cons.1 hd with heq | hd
  · cases heq
    exact Or.inl rfl
  · exact Or.inr ⟨d, hd⟩

theorem settles_step {r r' : Run} {s : Signal} (hg : r.graph.Identified) (h : r.step? s = some r')
    (hs : r.Settles) : r'.Settles := by
  have hm := step_moves hg.isNamed h
  have hgraph := graph_step hg.isNamed h
  generalize r.acts s = acts at hm hgraph
  have hdue : (∀ act ∈ acts, ∀ o, act ≠ .offer o) → ∀ id, r'.graph.isDue id = true →
      r.graph.isDue id = true ∧ .clear id ∉ acts := fun hacts id hid => Graph.isDue_replay hg hacts (hgraph ▸ hid)
  generalize hp' : r'.phase = p at hm
  cases hm with
  | wait =>
    unfold Settles at hs ⊢
    rw [hp', show r'.graph = r.graph from hgraph]
    exact hs
  | turn _ hq => exact settles_of_idle (hp' ▸ hq)
  | begin hp hready _ =>
    refine (settles_activating hp').2 fun id hid => ?_
    obtain ⟨hid, -⟩ := hdue (fun act hact o => by obtain ⟨a, rfl⟩ := mem_preparing hact; simp) id hid
    have hmem := mem_scan_of_isDue hg r.firedSources hid
    rwa [hready] at hmem
  | run hp hready _ _ _ =>
    refine (settles_activating hp').2 fun id hid => ?_
    obtain ⟨hid, -⟩ := hdue (fun act hact o => by obtain ⟨m, -, rfl⟩ := List.mem_map.1 hact; simp) id hid
    exact hready ▸ (settles_activating hp).1 hs id hid
  | settle hp _ _ =>
    exact (settles_activating hp').2 fun id hid => (settles_activating hp).1 hs id (hdue (by simp) id hid).1
  | pass hp _ _ =>
    refine (settles_propagating hp').2 fun id hid => ?_
    obtain ⟨hid, hnot⟩ := hdue (fun act hact o => by obtain ⟨m, -, rfl⟩ := List.mem_map.1 hact; simp) id hid
    exact absurd (List.mem_map_of_mem ((settles_activating hp).1 hs id hid)) hnot
  | move hp _ =>
    refine (settles_propagating hp').2 fun relay hid => due_moved hg ((settles_propagating hp).1 hs) ?_
    rwa [Graph.transferOutputs_graph, ← hgraph]
  | skip hp hready =>
    refine (settles_propagating hp').2 fun relay hid => ?_
    obtain ⟨hid, -⟩ := hdue (by simp) relay hid
    refine (awaited_cons ((settles_propagating hp).1 hs relay hid)).resolve_left fun heq => ?_
    rw [← heq, Graph.isReady_of_isDue hid] at hready
    cases hready
  | @relay n depth work origins acts p hp hn _ _ hcarry =>
    refine settles_carried (hg.enact _) hgraph (hp' ▸ hcarry) fun id hid => ?_
    rcases Graph.isDue_enact hg hid with ⟨hid, -⟩ | ⟨_, _, _, heq, -⟩
    · exact awaited_cons ((settles_propagating hp).1 hs id hid)
    · cases heq
  | resume hp hcarry => exact settles_carried hg hgraph (hp' ▸ hcarry) ((settles_relaying hp).1 hs)
  | next hp =>
    refine (settles_propagating hp').2 fun id hid => ?_
    obtain ⟨d, hd⟩ := (settles_propagating hp).1 hs id (hdue (by simp) id hid).1
    exact absurd hd List.not_mem_nil
  | finish _ hq => exact settles_of_idle (by rw [hp', hq, Bool.true_or])
  | report | giveUp => exact settles_of_idle (by rw [hp']; rfl)

theorem Leads.settles {r r' : Run} {acts : List Act} (hg : r.graph.Identified) (h : Leads r acts r')
    (hs : r.Settles) : r'.Settles := by
  induction h with
  | refl => exact hs
  | step hlead hstep ih => exact settles_step (hlead.identified hg) hstep ih

/-- All outputs of an iteration are moved. -/
def HasProgressed (r : Run) : Prop :=
  r.phase = .propagating ⟨[], []⟩

/-- **Relays settle within the iteration that fed them.** When all outputs of an iteration are moved, no
direct-through node with connected inputs is ready, unless what it remembers keeps it ready. -/
theorem relays_settle {x : Executor} {g : Graph} {context : Context} {mode : StartMode} {now : Nat} {r₀ r : Run}
    {acts : List Act} {n : Node} (hg : g.Identified) (hstart : start x g context mode now = .ok r₀)
    (hrun : Leads r₀ acts r) (hend : r.HasProgressed) (hn : r.graph.node? n.id = some n)
    (hdirect : n.isDirectThrough = true) (hconnected : r.graph.connectedInputs n.id ≠ [])
    (hpending : n.hasPendingWork = false) : r.graph.isReady n.id = false := by
  have hinit : r₀.Settles := settles_of_idle (by rw [(start_eq hstart).1]; rfl)
  have hsettles := hrun.settles (start_identified hg hstart) hinit
  by_contra hready
  have hdue := Graph.isDue_of_isReady hn hdirect hconnected hpending (by simpa using hready)
  obtain ⟨d, hd⟩ := (settles_propagating (show r.phase = .propagating ⟨[], []⟩ from hend)).1 hsettles n.id hdue
  exact absurd hd List.not_mem_nil

theorem relays_settle_signal : ∃ n, signalEnd.HasProgressed ∧ signalEnd.graph.node? n.id = some n ∧
    n.isDirectThrough = true ∧ signalEnd.graph.connectedInputs n.id ≠ [] ∧ n.hasPendingWork = false ∧
      signalEnd.graph.isReady n.id = false := by
  obtain ⟨n, hn, hid, hdirect, hpending⟩ : ∃ n, signalEnd.graph.node? n.id = some n ∧ n.id = ⟨2⟩ ∧
      n.isDirectThrough = true ∧ n.hasPendingWork = false :=
    ⟨(signalEnd.graph.node? ⟨2⟩).get rfl, rfl, rfl, rfl, rfl⟩
  have hconnected : signalEnd.graph.connectedInputs n.id ≠ [] := by rw [hid]; decide
  refine ⟨n, rfl, hn, hdirect, hconnected, hpending, ?_⟩
  exact relays_settle Graph.built_signalPair.regular.toIdentified start_signal leads_signal rfl hn hdirect hconnected
    hpending

end Run

end Dataflow
