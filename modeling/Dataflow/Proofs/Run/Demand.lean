import Dataflow.Proofs.Run.Feeding
import Dataflow.Proofs.Run.Iterations
import Dataflow.Proofs.Run.Relays

/-!
# How many iterations a run can have

A node that takes part in a late iteration got something in the iteration before it, from a node that was active then.
In a graph without cycles this leads to a chain of nodes, each upstream of the next one, so that late iterations take
long chains.

* `Graph.Levels` numbers the nodes upwards along the edges, and `Graph.Acyclic.exists_levels` says that this is possible
  without cycles;
* `Behavior.Passive` is a behavior that is activated for its inputs only, and `Graph.wants` says that a node would take
  part in the next scan;
* `Graph.wants_replay`: only a delivery makes a node with such a behavior want to take part, and clearing its inputs ends
  it;
* `Run.Demand` is the invariant of a run: the nodes that are active have a level that is not below the iteration, and
  the nodes that want to be in the next one have a higher level;
* `Run.Leads.demand`: a graph without cycles has at most as many iterations as nodes.
-/

namespace Dataflow

namespace Graph

variable {g : Graph}

/-! ### Graphs without cycles -/

/-- No edges lead from a node back to itself. -/
def Acyclic (g : Graph) : Prop :=
  ∀ id, ¬ Relation.TransGen g.Joined id id

/-- A numbering of the nodes that goes up along the edges. -/
structure Levels (g : Graph) (level : NodeId → Nat) : Prop where
  bounded : ∀ id ∈ g.order, level id < g.order.length
  ascends : ∀ {id id' : NodeId}, g.Joined id id' → level id < level id'

theorem Joined.mem_order (hg : g.Identified) {id id' : NodeId} (h : g.Joined id id') :
    id ∈ g.order ∧ id' ∈ g.order := by
  obtain ⟨n, n', e, hn, hn', -⟩ := h
  exact ⟨hg.listed.1 (by rw [hn]; rfl), hg.listed.1 (by rw [hn']; rfl)⟩

/-- Without cycles, the nodes can be numbered by how many nodes lead to them. -/
theorem Acyclic.exists_levels (hg : g.Identified) (h : g.Acyclic) : ∃ level, g.Levels level := by
  classical
  refine ⟨fun id => (g.order.toFinset.filter fun o => Relation.TransGen g.Joined o id).card, fun id hid => ?_,
    fun {a b} hab => ?_⟩
  · -- A node does not lead to itself, so that there is one less than there are nodes.
    refine lt_of_lt_of_le (Finset.card_lt_card (Finset.filter_ssubset.2 ⟨id, List.mem_toFinset.2 hid, h id⟩)) ?_
    exact List.toFinset_card_le _
  · -- What leads to a node leads to the next one, to which the node itself leads as well.
    have ha := List.mem_toFinset.2 (hab.mem_order hg).1
    refine Finset.card_lt_card (Finset.ssubset_iff_of_subset (fun o ho => ?_) |>.2 ⟨a, ?_, ?_⟩)
    · obtain ⟨ho, hpath⟩ := Finset.mem_filter.1 ho
      exact Finset.mem_filter.2 ⟨ho, hpath.tail hab⟩
    · exact Finset.mem_filter.2 ⟨ha, .single hab⟩
    · exact fun hmem => h a (Finset.mem_filter.1 hmem).2

/-! ### Behaviors in a run -/

/-- All behaviors of a graph have a property. -/
def Behaves (P : Behavior → Prop) (g : Graph) : Prop :=
  ∀ id n, g.node? id = some n → P n.behavior

section Behaves

variable {P : Behavior → Prop}

theorem Behaves.enact (hg : g.Identified) (h : g.Behaves P) (act : Act) : (g.enact act).Behaves P := by
  intro id n' hn'
  rcases enact_cases hg act with heq | ⟨n, m, s', -, hn, he, heq⟩
  · exact h id n' (heq ▸ hn')
  · have hnode : (g.enact act).node? id = if n.id = id then some m else g.node? id := by
      rcases heq with ⟨heq, -⟩ | heq
      · rw [heq, node?_evolve, he.id]
      · rw [heq, node?_reindex, node?_evolve, he.id]
    rw [hnode] at hn'
    split_ifs at hn'
    · obtain rfl := Option.some.inj hn'
      exact he.behavior ▸ h n.id n hn
    · exact h id n' hn'

/-- Runs keep the behaviors of their nodes. -/
theorem Behaves.replay (hg : g.Identified) (h : g.Behaves P) (acts : List Act) : (g.replay acts).Behaves P := by
  induction acts generalizing g with
  | nil => exact h
  | cons act acts ih => exact ih (hg.enact act) (h.enact hg act)

end Behaves

end Graph

/-- A behavior that is activated for its inputs only: it is not activated again without any, and nothing that it remembers
keeps it ready. -/
structure Behavior.Passive (b : Behavior) : Prop where
  refires : b.refires = false
  pending : ∀ memory, b.hasPendingWork memory = false

namespace Graph

variable {g : Graph} {fired fired' : List NodeId} {id : NodeId} {n : Node}

/-! ### Nodes that want to be activated -/

/-- Whether a node would take part in the next scan, when some sources have fired. -/
def wants (g : Graph) (fired : List NodeId) (id : NodeId) : Bool :=
  (g.node? id).any (Run.joins g fired)

theorem connectedInputs_eq_nil (hn : g.node? id = some n) :
    g.connectedInputs id = [] ↔ (n.gauge.filter fun e => g.isTarget e.1) = [] := by
  rw [connectedInputs_eq hn, List.filter_map, List.map_eq_nil_iff]
  rfl

/-- A node without connected inputs is not fed. -/
theorem connectedInputs_ne_nil (hn : g.node? id = some n) (h : Node.isFed n.behavior.policy n.gauge g.isTarget = true) :
    g.connectedInputs id ≠ [] := by
  intro hnil
  rw [connectedInputs_eq_nil hn] at hnil
  simp [Node.isFed, hnil] at h

/-- A node without connected inputs takes part once, and any other one if its inputs are filled as it asks. -/
theorem joins_iff (hn : g.node? n.id = some n) (hp : n.behavior.Passive) :
    Run.joins g fired n = true ↔ n.isDisabled = false ∧ (g.connectedInputs n.id = [] ∧ n.id ∉ fired ∨
      Node.isFed n.behavior.policy n.gauge g.isTarget = true) := by
  have hpending : n.hasPendingWork = false := hp.pending n.memory
  have hfed := connectedInputs_ne_nil hn
  unfold Run.joins
  simp only [hp.refires, hpending, Bool.or_false, Bool.and_eq_true, decide_eq_true_eq, Bool.or_eq_true,
    Bool.not_eq_true', ← Bool.not_eq_true, List.contains_iff_mem, List.isEmpty_iff]
  cases hd : n.isDisabled with
  | true => simp [Node.readiness, hd]
  | false =>
    rw [Node.readiness_eq_ready hd, filter_connectedInputs hn, isFed_connectedInputs hn, hpending,
      ← connectedInputs_eq_nil hn]
    simp only [Bool.false_eq_true, false_or, not_false_eq_true, true_and]
    tauto

/-- A node that wants to take part wanted it when less sources had fired. -/
theorem wants_mono (hg : g.Identified) (hb : g.Behaves Behavior.Passive) (hsub : fired ⊆ fired')
    (h : g.wants fired' id = true) : g.wants fired id = true := by
  obtain ⟨n, hn, hj⟩ := (Option.any_eq_true _ _).1 h
  obtain rfl := hg.named hn
  obtain ⟨hd, hj⟩ := (joins_iff hn (hb _ _ hn)).1 hj
  refine (Option.any_eq_true _ _).2 ⟨n, hn, (joins_iff hn (hb _ _ hn)).2 ⟨hd, ?_⟩⟩
  exact hj.imp_left fun ⟨hnil, hmem⟩ => ⟨hnil, fun hf => hmem (hsub hf)⟩

theorem connectedInputs_congr {g' : Graph} {n' : Node} (hn : g.node? id = some n) (hn' : g'.node? id = some n')
    (htarget : g'.isTarget = g.isTarget) (hgauge : n'.gauge.map Prod.fst = n.gauge.map Prod.fst) :
    g'.connectedInputs id = g.connectedInputs id := by
  rw [connectedInputs_eq hn, connectedInputs_eq hn', htarget, hgauge]

/-- Only a delivery to a node makes it want to take part. After its inputs were cleared, it does so only as a source. -/
theorem wants_enact (hg : g.Identified) (hb : g.Behaves Behavior.Passive) {act : Act}
    (h : (g.enact act).wants fired id = true) :
    g.wants fired id = true ∧ (g.enact act).connectedInputs id = g.connectedInputs id ∧
        (act = .clear id → g.connectedInputs id = []) ∨
      ∃ o, act = .offer o ∧ g.ownerOf? o.edge.target = some id := by
  obtain ⟨n', hn', hj⟩ := (Option.any_eq_true _ _).1 h
  have hid' := (hg.enact act).named hn'
  subst hid'
  obtain ⟨hd, hj⟩ := (joins_iff hn' (hb.enact hg act _ _ hn')).1 hj
  have htarget := isTarget_enact g act
  rcases enact_alike hg act hn' with ⟨hne, n, hn, halike⟩ | ⟨rfl, n, hn, rfl⟩ | ⟨o, w, g', rfl, -, howner⟩
  · have hid := halike.id
    have hconnected := connectedInputs_congr hn hn' htarget (by rw [halike.gauge])
    refine Or.inl ⟨(Option.any_eq_true _ _).2 ⟨n, hn, ?_⟩, hconnected, fun e => absurd e hne⟩
    rw [hid] at hn
    refine (joins_iff hn (hb _ _ hn)).2 ⟨?_, ?_⟩
    · rwa [Node.isDisabled, ← halike.config]
    · rwa [hconnected, htarget, halike.gauge, halike.behavior, hid] at hj
  · have hconnected := connectedInputs_congr hn hn' htarget n.gauge_ids_clearInputs
    obtain ⟨hnil, hmem⟩ := hj.resolve_right (by rw [Node.isFed_eq_false n.gauge_clearInputs]; decide)
    rw [hconnected] at hnil
    have hj' : Run.joins g fired n = true := (joins_iff hn (hb _ _ hn)).2 ⟨hd, Or.inl ⟨hnil, hmem⟩⟩
    exact Or.inl ⟨(Option.any_eq_true _ _).2 ⟨n, hn, hj'⟩, hconnected, fun _ => hnil⟩
  · exact Or.inr ⟨o, rfl, howner⟩

/-- **Only deliveries to a node make it want to take part**, and it does not any more after its inputs were cleared. -/
theorem wants_replay (hg : g.Identified) (hb : g.Behaves Behavior.Passive) {acts : List Act}
    (h : (g.replay acts).wants fired id = true) :
    g.wants fired id = true ∧ (g.replay acts).connectedInputs id = g.connectedInputs id ∧
        (.clear id ∈ acts → g.connectedInputs id = []) ∨
      ∃ before o after, acts = before ++ .offer o :: after ∧ (g.replay before).ownerOf? o.edge.target = some id := by
  induction acts generalizing g with
  | nil => exact Or.inl ⟨h, rfl, fun hmem => absurd hmem List.not_mem_nil⟩
  | cons act acts ih =>
    rcases ih (hg.enact act) (hb.enact hg act) h with ⟨hw, hconnected, hclear⟩ | ⟨before, o, after, rfl, howner⟩
    · rcases wants_enact hg hb hw with ⟨hw, hconnected', hclear'⟩ | ⟨o, rfl, howner⟩
      · refine Or.inl ⟨hw, hconnected.trans hconnected', fun hmem => ?_⟩
        exact (List.mem_cons.1 hmem).elim (fun e => hclear' e.symm) fun hmem => hconnected'.symm.trans (hclear hmem)
      · exact Or.inr ⟨[], o, acts, rfl, howner⟩
    · exact Or.inr ⟨act :: before, o, after, rfl, howner⟩

/-! ### Sources after a scan -/

theorem subset_scanned (nodes : List Node) (fired : List NodeId) : fired ⊆ (Run.collectReady g nodes fired).2 := by
  induction nodes generalizing fired with
  | nil => exact List.Subset.refl _
  | cons n rest ih =>
    have hinsert : fired ⊆ insertNew n.id fired := fun _ hid => mem_insertNew.2 (Or.inr hid)
    unfold Run.collectReady
    split_ifs
    · exact List.Subset.trans hinsert (ih _)
    · exact ih _
    · exact ih _

/-- A source does not take part again after a scan. -/
theorem joins_scanned {nodes : List Node} (hmem : n ∈ nodes) (hn : g.node? n.id = some n) (hp : n.behavior.Passive)
    (hnil : g.connectedInputs n.id = []) : Run.joins g (Run.collectReady g nodes fired).2 n = false := by
  induction nodes generalizing fired with
  | nil => exact absurd hmem List.not_mem_nil
  | cons m rest ih =>
    unfold Run.collectReady
    rcases List.mem_cons.1 hmem with rfl | hmem
    · by_contra hj
      obtain ⟨hd, hj⟩ := (joins_iff hn hp).1 (by simpa using hj)
      have hnew := (hj.resolve_right fun hfed => connectedInputs_ne_nil hn hfed hnil).2
      by_cases hfirst : Run.joins g fired n = true
      · -- It took part in this scan, so that it has fired since.
        simp only [hfirst, hnil, if_true] at hnew
        exact hnew (subset_scanned rest _ (mem_insertNew.2 (Or.inl rfl)))
      · simp only [hfirst] at hnew
        exact hfirst ((joins_iff hn hp).2 ⟨hd, Or.inl ⟨hnil, fun hf => hnew (subset_scanned rest _ hf)⟩⟩)
    · split_ifs
      · exact ih hmem
      · exact ih hmem
      · exact ih hmem

/-- After a scan, only nodes with connected inputs may want to take part again. -/
theorem connectedInputs_of_scanned (hg : g.Identified) (hb : g.Behaves Behavior.Passive)
    (h : g.wants (Run.collectReady g g.nodeList fired).2 id = true) : g.connectedInputs id ≠ [] := by
  obtain ⟨n, hn, hj⟩ := (Option.any_eq_true _ _).1 h
  obtain rfl := hg.named hn
  intro hnil
  rw [joins_scanned ((mem_nodeList hg).2 hn) hn (hb _ _ hn) hnil] at hj
  cases hj

/-- The nodes of a scan are those that want to take part in it. -/
theorem mem_scan (hg : g.Identified) : id ∈ (Run.collectReady g g.nodeList fired).1 ↔ g.wants fired id = true := by
  rw [Run.collectReady_eq (nodeList_ids hg ▸ hg.nodup), List.mem_map]
  constructor
  · rintro ⟨n, hn, rfl⟩
    obtain ⟨hmem, hj⟩ := List.mem_filter.1 hn
    exact (Option.any_eq_true _ _).2 ⟨n, (mem_nodeList hg).1 hmem, hj⟩
  · intro h
    obtain ⟨n, hn, hj⟩ := (Option.any_eq_true _ _).1 h
    obtain rfl := hg.named hn
    exact ⟨n, List.mem_filter.2 ⟨(mem_nodeList hg).2 hn, hj⟩, rfl⟩

/-- When outputs are moved, only nodes that are fed by them may want to take part anew. -/
theorem feeds_of_offered {id' : NodeId} {before after : List Act} {o : Offer}
    (hmoving : g.moving id = before ++ .offer o :: after)
    (howner : (g.replay before).ownerOf? o.edge.target = some id') :
    g.Feeds id id' := by
  obtain ⟨rest, htake, hrest⟩ := g.moving_eq id
  rw [htake] at hmoving
  rcases List.cons_eq_append_iff.1 hmoving with ⟨rfl, heq⟩ | ⟨first, rfl, rfl⟩
  · cases heq
  · rcases hrest (.offer o) (List.mem_append_right _ List.mem_cons_self) with ⟨o', ho', heq⟩ | ⟨_, heq⟩
    · cases heq
      exact ⟨o, ho', first, howner⟩
    · cases heq

/-! ### Levels in a run -/

/-- The nodes have levels below a bound, outputs are moved upwards only, and all behaviors are passive. -/
structure Graded (level : NodeId → Nat) (bound : Nat) (g : Graph) : Prop where
  identified : g.Identified
  behaves : g.Behaves Behavior.Passive
  bounded : ∀ id ∈ g.order, level id < bound
  ascends : ∀ {id id' : NodeId}, g.Feeds id id' → level id < level id'

/-- The levels of a graph stay levels when it is run. -/
theorem Levels.graded {level : NodeId → Nat} (h : g.Levels level) (hg : g.Identified) (ho : g.Owned)
    (hlinked : ∀ p q, q ∈ g.outgoing p → ⟨p, q⟩ ∈ g.edges) (hb : g.Behaves Behavior.Passive) (acts : List Act) :
    (g.replay acts).Graded level g.order.length where
  identified := hg.replay acts
  behaves := hb.replay hg acts
  bounded id hid := h.bounded id (order_replay g acts ▸ hid)
  ascends hfeeds := h.ascends (hfeeds.joined hg ho hlinked)

/-- A relay is nearer to the bound than the node whose outputs reach it. -/
theorem Graded.lower {level : NodeId → Nat} {bound : Nat} (h : g.Graded level bound) {relay : NodeId}
    (hrelay : relay ∈ (g.transferOutputs id).relays) : bound - level relay < bound - level id := by
  have hfeeds := feeds_relay h.identified hrelay
  have hlt := h.ascends hfeeds
  obtain ⟨o, hoffer, -⟩ := hfeeds
  obtain ⟨n, hn, -⟩ := mem_portIds_of_taken h.identified (mem_offers.1 hoffer).1
  have hbounded := h.bounded id (h.identified.listed.1 (Option.isSome_of_eq_some hn))
  omega

end Graph

/-! ### The invariant of a run -/

/-- The node that a piece of work is about. -/
def Work.node : Work → NodeId
  | .propagate id _ | .activate id _ => id

/-- The nodes of which the activations are under way, or the outputs are still to be moved. -/
def Phase.active : Phase → List NodeId
  | .activating batch => batch.ready
  | .propagating agenda => agenda.work.map Work.node ++ agenda.origins
  | .relaying relay _ agenda => relay.task.node :: (agenda.work.map Work.node ++ agenda.origins)
  | _ => []

namespace Run

variable {r r' : Run} {s : Signal} {acts : List Act} {p : Phase} {id : NodeId}

theorem active_of_isIdle (h : (p.isIdle || p.isOver) = true) : p.active = [] := by
  cases p <;> first | rfl | cases h

theorem active_carried {node : NodeId} {depth : Nat} {agenda : Agenda} {g : Graph}
    (h : Carried node depth agenda g acts p)
    (hid : id ∈ p.active) : id = node ∨ id ∈ agenda.work.map Work.node ++ agenda.origins := by
  cases h with
  | asleep hnode => exact (List.mem_cons.1 hid).imp_left fun e => e.trans hnode
  | broken => exact absurd hid List.not_mem_nil
  | failed => exact absurd hid List.not_mem_nil
  | settled => exact List.mem_cons.1 hid

/-- A node becomes active only by a scan, or as a relay that outputs reach. -/
theorem Moves.active (h : Moves r acts p) (hid : id ∈ p.active) :
    id ∈ r.phase.active ∨ r.phase = .boundary ∧ id ∈ (collectReady r.graph r.graph.nodeList r.firedSources).1 ∨
      ∃ id' depth work origins, r.phase = .propagating ⟨.propagate id' depth :: work, origins⟩ ∧
        id ∈ (r.graph.transferOutputs id').relays := by
  cases h with
  | wait => exact Or.inl hid
  | turn _ hp' => rw [active_of_isIdle hp'] at hid; exact absurd hid List.not_mem_nil
  | begin hp hready => exact Or.inr (Or.inl ⟨hp, by rw [hready]; exact hid⟩)
  | run hp hready =>
    rw [Phase.active, hready] at hid
    rw [hp]
    exact Or.inl hid
  | settle hp =>
    rw [hp]
    exact Or.inl hid
  | pass hp =>
    rw [hp]
    exact Or.inl hid
  | @move id' depth work origins hp =>
    rw [hp]
    rcases List.mem_append.1 hid with hid | hid
    · rw [List.map_append, List.map_map] at hid
      rcases List.mem_append.1 hid with hid | hid
      · obtain ⟨relay, hrelay, rfl⟩ := List.mem_map.1 hid
        exact Or.inr (Or.inr ⟨id', depth, work, origins, rfl, (List.mem_filter.1 hrelay).1⟩)
      · exact Or.inl (List.mem_append_left _ (List.mem_cons_of_mem _ hid))
    · exact Or.inl (List.mem_append_right _ hid)
  | skip hp =>
    rw [hp]
    exact Or.inl (List.mem_cons_of_mem _ hid)
  | relay hp _ _ _ hcarry =>
    rw [hp]
    exact Or.inl (List.mem_cons.2 (active_carried hcarry hid))
  | resume hp hcarry =>
    rw [hp]
    exact Or.inl (List.mem_cons.2 (active_carried hcarry hid))
  | next hp =>
    rw [hp]
    exact Or.inl hid
  | finish _ hp' => rw [active_of_isIdle (by rw [hp', Bool.true_or])] at hid; exact absurd hid List.not_mem_nil
  | report | giveUp => exact absurd hid List.not_mem_nil

/-- Activations under way stay under way, until the inputs of all of them are cleared or the run is given up. -/
theorem Moves.ready {batch : Batch} (h : Moves r acts p) (hp : r.phase = .activating batch) :
    (∃ batch', p = .activating batch' ∧ batch'.ready = batch.ready) ∨ acts = batch.ready.map .clear ∨
      p.isOver = true := by
  cases h with
  | wait => exact Or.inl ⟨batch, hp, rfl⟩
  | giveUp => exact Or.inr (Or.inr rfl)
  | report hover _ => rw [hp] at hover; cases hover
  | run hp' hready => rw [hp] at hp'; cases hp'; exact Or.inl ⟨_, rfl, hready⟩
  | settle hp' => rw [hp] at hp'; cases hp'; exact Or.inl ⟨_, rfl, rfl⟩
  | pass hp' => rw [hp] at hp'; cases hp'; exact Or.inr (Or.inl rfl)
  | turn hp' | begin hp' | move hp' | skip hp' | relay hp' | resume hp' | next hp' | finish hp' =>
    rw [hp] at hp'
    cases hp'

/-- In a step of a run, only a node that is fed by outputs that are moved may want to take part anew. -/
theorem wants_step {fired : List NodeId} (hg : r.graph.Identified) (hb : r.graph.Behaves Behavior.Passive)
    (hs : r.step? s = some r') (h : r'.graph.wants fired id = true) :
    r.graph.wants fired id = true ∧ r'.graph.connectedInputs id = r.graph.connectedInputs id ∧
        (.clear id ∈ r.acts s → r.graph.connectedInputs id = []) ∨
      ∃ id' depth work origins, r.phase = .propagating ⟨.propagate id' depth :: work, origins⟩ ∧
        r.graph.Feeds id' id := by
  rw [graph_step hg.isNamed hs] at h ⊢
  rcases Graph.wants_replay hg hb h with hold | ⟨before, o, after, hacts, howner⟩
  · exact Or.inl hold
  · rcases (step_moves hg.isNamed hs).moving with hnone | ⟨id', depth, work, origins, hmoving, hp, -⟩
    · have hmove := hnone (.offer o) (by rw [hacts]; exact List.mem_append_right _ List.mem_cons_self)
      cases hmove
    · exact Or.inr ⟨id', depth, work, origins, hp, Graph.feeds_of_offered (hmoving.symm.trans hacts) howner⟩

/-- The nodes that are active are on a level that the iteration has reached at most by one, and the nodes that want to be in
the next iteration are still above it, apart from those that will be cleared in this one. -/
structure Demand (level : NodeId → Nat) (bound : Nat) (r : Run) : Prop where
  count : r.iteration ≤ bound
  active : ∀ id ∈ r.phase.active, r.iteration ≤ level id + 1
  wanting : r.phase.isOver = false → ∀ id, r.graph.wants r.firedSources id = true → r.iteration ≤ level id ∨
    ∃ batch, r.phase = .activating batch ∧ id ∈ batch.ready ∧ r.graph.connectedInputs id ≠ []

section Demand

variable {level : NodeId → Nat} {bound : Nat}

/-- At a boundary, all nodes that want to be in the next iteration are above this one. -/
theorem Demand.boundary (h : r.Demand level bound) (hp : r.phase = .boundary)
    (hw : r.graph.wants r.firedSources id = true) :
    r.iteration ≤ level id := by
  rcases h.wanting (by rw [hp]; rfl) id hw with hle | ⟨_, hbatch, -⟩
  · exact hle
  · rw [hp] at hbatch
    cases hbatch

/-- An iteration begins with nodes that wanted to be in it. -/
theorem Demand.step_boundary (h : r.Demand level bound) (hg : r.graph.Graded level bound) (hp : r.phase = .boundary)
    (hs : r.step? s = some r') : r'.Demand level bound := by
  obtain ⟨hid, hb, hbounded, -⟩ := hg
  have hold : ∀ {fired id}, r'.graph.wants fired id = true →
      r.graph.wants fired id = true ∧ r'.graph.connectedInputs id = r.graph.connectedInputs id := by
    intro fired id hw
    rcases wants_step hid hb hs hw with ⟨hw, hconnected, -⟩ | ⟨_, _, _, _, hprop, -⟩
    · exact ⟨hw, hconnected⟩
    · rw [hp] at hprop
      cases hprop
  rcases boundary_step hp hs with ⟨hsteady, hidle⟩ | ⟨hsame, hover⟩ | ⟨batch, hp', hready, hsome, hnext, hfired⟩
  · refine ⟨hsteady.iteration ▸ h.count, fun id hmem => ?_, fun _ id hw => Or.inl ?_⟩
    · rw [active_of_isIdle (by rw [hidle, Bool.true_or])] at hmem
      exact absurd hmem List.not_mem_nil
    · rw [hsteady.fired] at hw
      rw [hsteady.iteration]
      exact h.boundary hp (hold hw).1
  · refine ⟨hsame ▸ h.count, fun id hmem => ?_, fun hnot => ?_⟩
    · rw [active_of_isIdle (by rw [hover, Bool.or_true])] at hmem
      exact absurd hmem List.not_mem_nil
    · rw [hover] at hnot
      cases hnot
  · have hwanting : ∀ id ∈ batch.ready, r.iteration ≤ level id := by
      intro id hmem
      rw [hready, Graph.mem_scan hid] at hmem
      exact h.boundary hp hmem
    refine ⟨?_, fun id hmem => ?_, fun _ id hw => Or.inr ⟨batch, hp', ?_, ?_⟩⟩
    · obtain ⟨id, hmem⟩ := List.exists_mem_of_ne_nil _ hsome
      obtain ⟨n, hn, rfl⟩ := mem_collectReady (hready ▸ hmem)
      have horder := hid.listed.1 (Option.isSome_of_eq_some ((Graph.mem_nodeList hid).1 hn))
      rw [hnext]
      exact Nat.lt_of_le_of_lt (hwanting _ hmem) (hbounded _ horder)
    · rw [hp'] at hmem
      rw [hnext]
      exact Nat.succ_le_succ (hwanting id hmem)
    · rw [hfired] at hw
      rw [hready, Graph.mem_scan hid]
      exact Graph.wants_mono hid hb (Graph.subset_scanned _ _) (hold hw).1
    · rw [hfired] at hw
      rw [(hold hw).2]
      exact Graph.connectedInputs_of_scanned hid hb (hold hw).1

/-- **Every step keeps the demand within bounds.** -/
theorem Demand.step (h : r.Demand level bound) (hg : r.graph.Graded level bound) (hs : r.step? s = some r') :
    r'.Demand level bound := by
  by_cases hp : r.phase = .boundary
  · exact h.step_boundary hg hp hs
  obtain ⟨hgraph, hb, -, hfeeds⟩ := hg
  have hm := step_moves hgraph.isNamed hs
  have hsteady := steady_step hp hs
  have hfed : ∀ {id id' depth work origins}, r.phase = .propagating ⟨.propagate id depth :: work, origins⟩ →
      r.graph.Feeds id id' → r'.iteration ≤ level id' := by
    intro id id' depth work origins hprop hfeed
    have hactive := h.active id (by rw [hprop]; exact List.mem_cons_self)
    rw [hsteady.iteration]
    exact hactive.trans (hfeeds hfeed)
  refine ⟨hsteady.iteration ▸ h.count, ?_, ?_⟩
  · intro id hid
    rcases hm.active hid with hold | ⟨hboundary, -⟩ | ⟨id', depth, work, origins, hprop, hrelay⟩
    · rw [hsteady.iteration]
      exact h.active id hold
    · exact absurd hboundary hp
    · exact (hfed hprop (Graph.feeds_relay hgraph hrelay)).trans (Nat.le_succ _)
  · intro hover id hw
    rw [hsteady.fired] at hw
    rcases wants_step hgraph hb hs hw with ⟨hw, hconnected, hclear⟩ | ⟨id', depth, work, origins, hprop, hfeed⟩
    · have hover' : r.phase.isOver = false := by
        by_contra hnot
        rw [hm.isOver (by simpa using hnot)] at hover
        cases hover
      rcases h.wanting hover' id hw with hle | ⟨batch, hbatch, hid, hne⟩
      · rw [hsteady.iteration]
        exact Or.inl hle
      · rcases hm.ready hbatch with ⟨batch', hbatch', hready⟩ | hacts | hend
        · exact Or.inr ⟨batch', hbatch', hready ▸ hid, hconnected ▸ hne⟩
        · -- Its inputs are cleared in this step.
          exact absurd (hclear (by rw [hacts]; exact List.mem_map_of_mem hid)) hne
        · rw [hend] at hover
          cases hover
    · exact Or.inl (hfed hprop hfeed)

/-- **In a graph whose nodes have levels, there are at most as many iterations as nodes.** -/
theorem Leads.demand {r₀ : Run} (hg : ∀ acts, (r₀.graph.replay acts).Graded level bound) (hp : r₀.phase = .boundary)
    (hzero : r₀.iteration = 0) (h : Leads r₀ acts r) : r.Demand level bound := by
  have hid := (hg []).identified
  induction h with
  | refl =>
    refine ⟨by rw [hzero]; exact Nat.zero_le _, fun id hmem => ?_, fun _ id _ => Or.inl ?_⟩
    · rw [hp] at hmem
      exact absurd hmem List.not_mem_nil
    · rw [hzero]
      exact Nat.zero_le _
  | step hlead hs ih => exact ih.step (hlead.graph hid ▸ hg _) hs

end Demand

end Run

end Dataflow
