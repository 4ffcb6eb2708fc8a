import Dataflow.Graph
import Dataflow.Proofs.Node

/-!
# Well-formed graphs

* `Graph.Identified` says that the nodes of a graph are listed once, and that the identifiers of their ports
  are distinct and were handed out by the supply;
* `Graph.WellFormed` says moreover that all ports are sound;
* `Graph.Directed` says that no edge leads to the output side of a node;
* `Graph.Identified.evolve`, `Graph.WellFormed.evolve`: this stays when a node evolves;
* `Graph.write_eq_ok`: a write lets the node evolve that owns the port.
-/

namespace Dataflow.Graph

/-! ### Nodes in their places -/

theorem node?_setNode (g : Graph) (n : Node) (id : NodeId) :
    (g.setNode n).node? id = if n.id = id then some n else g.node? id :=
  Table.find?_set ..

section Reindex

variable (g : Graph) (id : NodeId)

@[simp] theorem reindex_order : (g.reindex id).order = g.order := by unfold reindex; split <;> rfl

@[simp] theorem reindex_nodes : (g.reindex id).nodes = g.nodes := by unfold reindex; split <;> rfl

@[simp] theorem reindex_edges : (g.reindex id).edges = g.edges := by unfold reindex; split <;> rfl

@[simp] theorem reindex_edgeSet : (g.reindex id).edgeSet = g.edgeSet := by unfold reindex; split <;> rfl

@[simp] theorem reindex_outEdges : (g.reindex id).outEdges = g.outEdges := by unfold reindex; split <;> rfl

@[simp] theorem reindex_inEdges : (g.reindex id).inEdges = g.inEdges := by unfold reindex; split <;> rfl

@[simp] theorem reindex_flagged : (g.reindex id).flagged = g.flagged := by unfold reindex; split <;> rfl

@[simp] theorem reindex_supply : (g.reindex id).supply = g.supply := by unfold reindex; split <;> rfl

@[simp] theorem node?_reindex (other : NodeId) : (g.reindex id).node? other = g.node? other := by
  rw [node?, reindex_nodes, node?]

@[simp] theorem outgoing_reindex (p : PortId) : (g.reindex id).outgoing p = g.outgoing p := by
  rw [outgoing, reindex_outEdges, outgoing]

end Reindex

theorem find?_own (id : NodeId) (owners : Table PortId NodeId) (ports : List PortId) (p : PortId) :
    Table.find? p (own id owners ports) = if p ∈ ports then some id else Table.find? p owners := by
  induction ports generalizing owners with
  | nil => simp [own]
  | cons q rest ih =>
    rw [own, List.foldl_cons, ← own, ih, Table.find?_set]
    by_cases hrest : p ∈ rest
    · simp [hrest]
    · by_cases hq : q = p
      · simp [hq]
      · simp [hrest, hq, Ne.symm hq]

/-- After its ports are entered again, a node owns them. -/
theorem ownerOf?_reindex {g : Graph} {id : NodeId} {n : Node} {p : PortId} (hn : g.node? id = some n)
    (hp : p ∈ n.portIds) : (g.reindex id).ownerOf? p = some id := by
  simp only [ownerOf?, reindex, hn, find?_own, if_pos hp]

/-! ### Well-formed graphs -/

/-- Nodes are listed once, under their own identifiers, with their groups in order; the identifiers of
their ports are distinct and used, and so are those at the ends of edges. -/
structure Identified (g : Graph) : Prop where
  nodup : g.order.Nodup
  listed : ∀ {id : NodeId}, (g.node? id).isSome ↔ id ∈ g.order
  named : ∀ {id : NodeId} {n : Node}, g.node? id = some n → n.id = id
  ordered : ∀ {id : NodeId} {n : Node}, g.node? id = some n → n.Ordered
  distinct : ∀ {id : NodeId} {n : Node}, g.node? id = some n → n.portIds.Nodup
  apart : ∀ {id id' : NodeId} {n n' : Node}, g.node? id = some n → g.node? id' = some n' → id ≠ id' →
    n.portIds.Disjoint n'.portIds
  used : ∀ {id : NodeId} {n : Node}, g.node? id = some n → ∀ p ∈ n.portIds, g.supply.Used p
  ends : ∀ {p q : PortId}, q ∈ g.outgoing p → g.supply.Used p ∧ g.supply.Used q

/-- Moreover the nodes are sound. -/
structure WellFormed (g : Graph) : Prop extends Identified g where
  sound : ∀ {id : NodeId} {n : Node}, g.node? id = some n → n.Sound

/-- No edge leads to the output side of a node. -/
def Directed (g : Graph) : Prop :=
  ∀ p q id n, q ∈ g.outgoing p → g.node? id = some n → q ∉ n.outputIds

theorem mem_nodeList {g : Graph} (hg : g.Identified) {n : Node} : n ∈ g.nodeList ↔ g.node? n.id = some n := by
  rw [nodeList, List.mem_filterMap]
  constructor
  · rintro ⟨id, -, hn⟩
    rwa [hg.named hn]
  · exact fun hn => ⟨n.id, hg.listed.1 (by rw [hn]; rfl), hn⟩

theorem nodeList_ids {g : Graph} (hg : g.Identified) : g.nodeList.map Node.id = g.order := by
  have hids : ∀ ids : List NodeId, (∀ id ∈ ids, id ∈ g.order) → (ids.filterMap g.node?).map Node.id = ids := by
    intro ids h
    induction ids with
    | nil => rfl
    | cons id rest ih =>
      obtain ⟨hid, hrest⟩ := List.forall_mem_cons.1 h
      obtain ⟨n, hn⟩ := Option.isSome_iff_exists.1 (hg.listed.2 hid)
      rw [List.filterMap_cons_some hn, List.map_cons, ih hrest, hg.named hn]
  exact hids g.order fun _ h => h

/-- The listed nodes have identifiers and ports of their own. -/
theorem Identified.pairwise_nodeList {g : Graph} (hg : g.Identified) :
    g.nodeList.Pairwise fun n n' => n.id ≠ n'.id ∧ n.portIds.Disjoint n'.portIds := by
  have hids : g.nodeList.Pairwise fun n n' => n.id ≠ n'.id := by
    rw [← List.pairwise_map (f := Node.id), nodeList_ids hg]
    exact hg.nodup
  refine hids.imp_of_mem fun {n n'} hn hn' hne => ⟨hne, ?_⟩
  exact hg.apart ((mem_nodeList hg).1 hn) ((mem_nodeList hg).1 hn') hne

/-- Identifiers drawn for something else do no harm. -/
theorem Identified.draw {g : Graph} (hg : g.Identified) {s : Supply} (hs : g.supply.next ≤ s.next) :
    ({ g with supply := s } : Graph).Identified where
  nodup := hg.nodup
  listed := hg.listed
  named := hg.named
  ordered := hg.ordered
  distinct := hg.distinct
  apart := hg.apart
  used h p hp := (hg.used h p hp).mono hs
  ends h := ⟨(hg.ends h).1.mono hs, (hg.ends h).2.mono hs⟩

section Replace

variable {g : Graph} {n n' : Node} {s' : Supply}

/-- A node takes the place of another one, and identifiers are drawn for it. -/
def evolve (g : Graph) (n : Node) (supply : Supply) : Graph :=
  { g.setNode n with supply }

theorem node?_evolve (g : Graph) (n : Node) (s : Supply) (id : NodeId) :
    (g.evolve n s).node? id = if n.id = id then some n else g.node? id :=
  node?_setNode g n id

theorem Identified.evolve (hg : g.Identified) (hn : g.node? n.id = some n) (h : n.Renews g.supply s' n') :
    (g.evolve n' s').Identified := by
  have hr := h.renews (hg.ordered hn)
  have hnode : ∀ id, (g.evolve n' s').node? id = if n.id = id then some n' else g.node? id := fun id => by
    rw [← h.id]; exact node?_evolve g n' s' id
  have hold : ∀ {id m}, g.node? id = some m → n.id ≠ id → n'.portIds.Disjoint m.portIds := by
    intro id m hm hne i hi hi'
    rcases hr.mem i hi with hi | hi
    · exact hg.apart hn hm hne hi hi'
    · exact absurd (hg.used hm i hi') (not_lt.2 hi.1)
  refine ⟨hg.nodup, fun {id} => ?_, fun {id m} hm => ?_, fun {id m} hm => ?_, fun {id m} hm => ?_,
    fun {id id' m m'} hm hm' hne => ?_, fun {id m} hm p hp => ?_, fun {p q} hq => ?_⟩
  · rw [hnode]
    split_ifs with he
    · subst he
      exact ⟨fun _ => hg.listed.1 (by rw [hn]; rfl), fun _ => rfl⟩
    · exact hg.listed
  · rw [hnode] at hm
    split_ifs at hm with he
    · cases hm; exact h.id.trans he
    · exact hg.named hm
  · rw [hnode] at hm
    split_ifs at hm with he
    · cases hm; exact h.ordered (hg.ordered hn)
    · exact hg.ordered hm
  · rw [hnode] at hm
    split_ifs at hm with he
    · cases hm; exact hr.nodup (hg.distinct hn) (hg.used hn)
    · exact hg.distinct hm
  · rw [hnode] at hm hm'
    split_ifs at hm with he <;> split_ifs at hm' with he'
    · exact absurd (he.symm.trans he') hne
    · cases hm; exact hold hm' he'
    · cases hm'; exact (hold hm he).symm
    · exact hg.apart hm hm' hne
  · rw [hnode] at hm
    split_ifs at hm with he
    · cases hm; exact hr.used (hg.used hn) p hp
    · exact (hg.used hm p hp).mono hr.le
  · exact ⟨(hg.ends hq).1.mono hr.le, (hg.ends hq).2.mono hr.le⟩

theorem WellFormed.evolve (hg : g.WellFormed) (hn : g.node? n.id = some n) (h : n.Evolves g.supply s' n') :
    (g.evolve n' s').WellFormed := by
  refine ⟨hg.toIdentified.evolve hn h.toRenews, fun {id m} hm => ?_⟩
  rw [node?_evolve, h.id] at hm
  split_ifs at hm
  · cases hm; exact h.sound (hg.sound hn)
  · exact hg.sound hm

theorem Identified.reindex (hg : g.Identified) (id : NodeId) : (g.reindex id).Identified where
  nodup := by rw [reindex_order]; exact hg.nodup
  listed {id'} := by rw [node?_reindex, reindex_order]; exact hg.listed
  named h := hg.named (by rwa [node?_reindex] at h)
  ordered h := hg.ordered (by rwa [node?_reindex] at h)
  distinct h := hg.distinct (by rwa [node?_reindex] at h)
  apart h h' hne := by
    rw [node?_reindex] at h h'
    exact hg.apart h h' hne
  used h := by rw [node?_reindex] at h; rw [reindex_supply]; exact hg.used h
  ends h := by rw [outgoing_reindex] at h; rw [reindex_supply]; exact hg.ends h

theorem WellFormed.reindex (hg : g.WellFormed) (id : NodeId) : (g.reindex id).WellFormed where
  toIdentified := hg.toIdentified.reindex id
  sound h := hg.sound (by rwa [node?_reindex] at h)

end Replace

/-! ### Writing -/

theorem mem_portIds_write {n n' : Node} {id : PortId} {v w : Value} {s s' : Supply} (hn : n.Ordered)
    (h : n.write id v s = some (.ok (w, n', s'))) : id ∈ n'.portIds := by
  obtain ⟨slot, top, top', -, hw, rfl⟩ := Node.write_eq_ok h
  refine (Node.mem_portIds hn.setPort).2 ⟨slot, top', by rw [Node.portAt?_setPort, if_pos rfl], ?_⟩
  exact (Port.edit_of_writeAt hw).mem_ids_after Port.fold_elements fun c c' hc =>
    Port.write_id hc

/-- What a successful write does: the owner of the port evolves, and its ports are entered again. -/
theorem write_eq_ok {g g' : Graph} {p : PortId} {v w : Value} (h : g.write p v = .ok (w, g')) :
    ∃ owner n n' s', g.ownerOf? p = some owner ∧ g.node? owner = some n ∧
      n.write p v g.supply = some (.ok (w, n', s')) ∧ g' = (g.evolve n' s').reindex owner := by
  unfold write at h
  simp only [Option.bind_eq_bind, Option.pure_def] at h
  split at h
  · cases h
  · cases h
  · rename_i _ _ n₁ s₁ hw
    simp only [Option.bind_eq_some_iff, Option.some.injEq] at hw
    obtain ⟨owner, howner, n, hn, result, hresult, heq⟩ := hw
    cases heq
    cases h
    exact ⟨_, n, n₁, s₁, howner, hn, hresult, rfl⟩

end Dataflow.Graph
