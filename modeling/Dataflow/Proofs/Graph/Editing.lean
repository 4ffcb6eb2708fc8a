import Dataflow.Proofs.Graph
import Dataflow.Proofs.Node.Making

/-!
# Graphs and the operations that build them

* `Graph.Regular` is what every graph keeps to that was built by operations on graphs: beside
  `Graph.Identified`, the index of owners and the indexes of edges agree with the nodes and with the list of
  edges, and edges run from the output side of a node to the input side of one;
* `Graph.Built` lists the operations; `Graph.Built.regular` says that the graphs they build are regular.
-/

namespace Dataflow.Graph

/-- What every graph keeps to that was built by operations on graphs. An end of an edge may be missing, since
element ports come and go. -/
structure Regular (g : Graph) : Prop extends Identified g where
  legal : ∀ {id : NodeId} {n : Node}, g.node? id = some n → n.Legal
  declared : ∀ {id : NodeId} {n : Node}, g.node? id = some n → n.Declared
  proper : Table.Proper g.owners
  owned : ∀ {p : PortId} {id : NodeId}, g.ownerOf? p = some id ↔ ∃ n, g.node? id = some n ∧ p ∈ n.portIds
  simple : g.edges.Nodup
  inSet : ∀ {e : Edge}, e ∈ g.edgeSet ↔ e ∈ g.edges
  linked : ∀ {p q : PortId}, q ∈ g.outgoing p ↔ ⟨p, q⟩ ∈ g.edges
  sides : ∀ {e : Edge} {id : NodeId} {n : Node}, e ∈ g.edges → g.node? id = some n →
    (e.source ∈ n.portIds → e.source ∈ n.outputIds) ∧ e.target ∉ n.outputIds

theorem Regular.directed {g : Graph} (hg : g.Regular) : g.Directed :=
  fun _ _ _ _ hq hn => (hg.sides (hg.linked.1 hq) hn).2

theorem Regular.usedEnds {g : Graph} (hg : g.Regular) {e : Edge} (he : e ∈ g.edges) :
    g.supply.Used e.source ∧ g.supply.Used e.target :=
  hg.ends (hg.linked.2 he)

theorem regular_empty (s : Supply) : (empty s).Regular where
  nodup := List.nodup_nil
  listed {id} := by simp [empty, node?]
  named h := by cases h
  ordered h := by cases h
  distinct h := by cases h
  apart h := by cases h
  used h := by cases h
  ends h := by cases h
  legal h := by cases h
  declared h := by cases h
  proper := List.nodup_nil
  owned {_ _} := ⟨fun h => (by cases h), fun ⟨_, h, _⟩ => (by cases h)⟩
  simple := List.nodup_nil
  inSet := Iff.rfl
  linked {_ _} := ⟨fun h => (by cases h), fun h => (by cases h)⟩
  sides h := by cases h

theorem Regular.draw {g : Graph} (hg : g.Regular) {s : Supply} (hs : g.supply.next ≤ s.next) :
    ({ g with supply := s } : Graph).Regular where
  toIdentified := hg.toIdentified.draw hs
  legal := hg.legal
  declared := hg.declared
  proper := hg.proper
  owned := hg.owned
  simple := hg.simple
  inSet := hg.inSet
  linked := hg.linked
  sides := hg.sides

/-- Other edges and flags take the place of those of a graph. -/
theorem Regular.rewire {g : Graph} (hg : g.Regular) {edges edgeSet flagged : List Edge}
    {outEdges inEdges : Table PortId (List PortId)} (hsimple : edges.Nodup)
    (hset : ∀ e, e ∈ edgeSet ↔ e ∈ edges)
    (hlinked : ∀ p q, q ∈ (Table.find? p outEdges).getD [] ↔ ⟨p, q⟩ ∈ edges)
    (hends : ∀ e ∈ edges, g.supply.Used e.source ∧ g.supply.Used e.target)
    (hsides : ∀ e ∈ edges, ∀ id n, g.node? id = some n →
      (e.source ∈ n.portIds → e.source ∈ n.outputIds) ∧ e.target ∉ n.outputIds) :
    ({ g with edges, edgeSet, flagged, outEdges, inEdges } : Graph).Regular where
  nodup := hg.nodup
  listed := hg.listed
  named := hg.named
  ordered := hg.ordered
  distinct := hg.distinct
  apart := hg.apart
  used := hg.used
  ends hq := hends _ ((hlinked _ _).1 hq)
  legal := hg.legal
  declared := hg.declared
  proper := hg.proper
  owned := hg.owned
  simple := hsimple
  inSet := hset _
  linked := hlinked _ _
  sides he hn := hsides _ he _ _ hn

/-! ### Owners -/

theorem proper_own {owners : Table PortId NodeId} (h : Table.Proper owners) (id : NodeId) (ports : List PortId) :
    Table.Proper (own id owners ports) := by
  induction ports generalizing owners with
  | nil => exact h
  | cons p rest ih => exact ih h.set

theorem find?_disown {owners : Table PortId NodeId} (h : Table.Proper owners) (id : NodeId) (p : PortId) :
    Table.find? p (disown id owners) = (Table.find? p owners).filter (· ≠ id) :=
  h.find?_filter (fun owner => decide (owner ≠ id)) p

/-- The index of owners has one entry for each port, and answers like a scan of the nodes. -/
structure Owned (g : Graph) : Prop where
  proper : Table.Proper g.owners
  owned : ∀ {p : PortId} {id : NodeId}, g.ownerOf? p = some id ↔ ∃ n, g.node? id = some n ∧ p ∈ n.portIds

theorem Regular.isOwned {g : Graph} (hg : g.Regular) : g.Owned :=
  ⟨hg.proper, hg.owned⟩

/-- A node that changes and keeps its ports still owns them. -/
theorem Owned.retain {g : Graph} (ho : g.Owned) {n n' : Node} (hn : g.node? n.id = some n) (hid : n'.id = n.id)
    (hids : n'.portIds = n.portIds) (s' : Supply) : (g.evolve n' s').Owned := by
  refine ⟨ho.proper, fun {p id} => ?_⟩
  rw [show (g.evolve n' s').ownerOf? p = g.ownerOf? p from rfl, ho.owned, node?_evolve, hid]
  split_ifs with heq
  · subst heq
    rw [hn]
    constructor
    · rintro ⟨m, hm, hp⟩
      cases hm
      exact ⟨n', rfl, by rw [hids]; exact hp⟩
    · rintro ⟨m, hm, hp⟩
      cases hm
      exact ⟨n, rfl, by rw [← hids]; exact hp⟩
  · exact Iff.rfl

/-- A node that changes is entered again as the owner of its ports. -/
theorem reindex_evolve {g : Graph} {n n' : Node} {s' : Supply} (hid : n'.id = n.id) :
    (g.evolve n' s').reindex n.id =
      { g.evolve n' s' with owners := own n.id (disown n.id g.owners) n'.portIds } := by
  have hself : (g.evolve n' s').node? n.id = some n' := by rw [node?_evolve, if_pos hid]
  simp only [reindex, hself]
  rfl

theorem Owned.renew {g : Graph} (ho : g.Owned) (hg : g.Identified) {n n' : Node} {s' : Supply}
    (hn : g.node? n.id = some n) (h : n.Renews g.supply s' n') : ((g.evolve n' s').reindex n.id).Owned := by
  have hid := hg.evolve hn h
  have hself : (g.evolve n' s').node? n.id = some n' := by rw [node?_evolve, if_pos h.id]
  rw [reindex_evolve h.id]
  refine ⟨proper_own (ho.proper.filter _) .., fun {p id} => ?_⟩
  change Table.find? p (own n.id (disown n.id g.owners) n'.portIds) = some id ↔
    ∃ m, (g.evolve n' s').node? id = some m ∧ p ∈ m.portIds
  rw [find?_own, find?_disown ho.proper]
  split_ifs with hp
  · constructor
    · intro heq
      cases heq
      exact ⟨n', hself, hp⟩
    · rintro ⟨m, hm, hpm⟩
      by_contra hne
      exact hid.apart hself hm (fun e => hne (congrArg some e)) hp hpm
  · rw [Option.filter_eq_some_iff, node?_evolve, h.id]
    split_ifs with heq
    · subst heq
      constructor
      · intro h
        simp at h
      · rintro ⟨m, hm, hpm⟩
        cases hm
        exact absurd hpm hp
    · rw [show Table.find? p g.owners = g.ownerOf? p from rfl, ho.owned]
      exact ⟨fun h => h.1, fun h => ⟨h, by simpa using Ne.symm heq⟩⟩

theorem port?_eq_some {g : Graph} {p : PortId} {a : Port} (h : g.port? p = some a) :
    ∃ id n, g.ownerOf? p = some id ∧ g.node? id = some n ∧ n.port? p = some a := by
  simp only [port?, Option.bind_eq_bind, Option.bind_eq_some_iff] at h
  obtain ⟨id, hid, n, hn, hp⟩ := h
  exact ⟨id, n, hid, hn, hp⟩

/-- A port is there if it is one of the ports of a node. -/
theorem Regular.port?_isSome {g : Graph} (hg : g.Regular) {p : PortId} :
    (g.port? p).isSome ↔ ∃ id n, g.node? id = some n ∧ p ∈ n.portIds := by
  constructor
  · intro h
    obtain ⟨a, ha⟩ := Option.isSome_iff_exists.1 h
    obtain ⟨id, n, -, hn, hp⟩ := port?_eq_some ha
    exact ⟨id, n, hn, Node.port?_isSome.1 (by rw [hp]; rfl)⟩
  · rintro ⟨id, n, hn, hp⟩
    obtain ⟨a, ha⟩ := Option.isSome_iff_exists.1 (Node.port?_isSome.2 hp)
    have howner := hg.owned.2 ⟨n, hn, hp⟩
    simp [port?, howner, hn, ha]

/-- The direction of a port tells the side of its node that it is on. -/
theorem Regular.mem_outputIds {g : Graph} (hg : g.Regular) {p : PortId} {a : Port} (h : g.port? p = some a)
    {id : NodeId} {n : Node} (hn : g.node? id = some n) (hp : p ∈ n.portIds) :
    p ∈ n.outputIds ↔ a.direction = .output := by
  obtain ⟨id', n', -, hn', ha⟩ := port?_eq_some h
  have hp' : p ∈ n'.portIds := Node.port?_isSome.1 (by rw [ha]; rfl)
  obtain rfl : id = id' := by
    by_contra hne
    exact hg.apart hn hn' hne hp hp'
  obtain rfl : n = n' := Option.some.inj (hn.symm.trans hn')
  have ho := hg.ordered hn
  obtain ⟨slot, top, htop, hfind⟩ := Node.port?_eq_some ho ha
  obtain ⟨hmem, rfl⟩ := Port.find?_some_mem hfind
  have hin : a.id ∈ top.ids := Port.mem_ids_iff.2 ⟨a, hmem, rfl⟩
  rw [Node.mem_outputIds_iff_isOutput ho (hg.distinct hn) htop hin, (hg.legal hn slot top htop a hmem).direction,
    Slot.side_eq_output]

/-! ### Nodes -/

/-- What a node has to keep to when it is added to a graph: its ports are apart from all others, and from the
ends of all edges. -/
structure Admits (g : Graph) (n : Node) : Prop where
  ordered : n.Ordered
  legal : n.Legal
  declared : n.Declared
  distinct : n.portIds.Nodup
  used : ∀ p ∈ n.portIds, g.supply.Used p
  apart : ∀ {id : NodeId} {m : Node}, g.node? id = some m → n.portIds.Disjoint m.portIds
  loose : ∀ e ∈ g.edges, e.source ∉ n.portIds ∧ e.target ∉ n.portIds

theorem admits_of_fresh {g : Graph} (hg : g.Regular) {n : Node} {s : Supply} (h : n.Fresh g.supply s) :
    ({ g with supply := s } : Graph).Admits n := by
  have hnew : ∀ p ∈ n.portIds, ¬ g.supply.Used p := fun p hp hu =>
    absurd hu (not_lt.2 ((h.drawn.mem p hp).resolve_left List.not_mem_nil).1)
  exact {
    ordered := h.sound.ordered
    legal := h.legal
    declared := h.declared
    distinct := h.drawn.nodup List.nodup_nil (by simp)
    used := h.drawn.used (by simp)
    apart := fun hm p hp hp' => hnew p hp (hg.used hm p hp')
    loose := fun e he => ⟨fun hp => hnew _ hp (hg.usedEnds he).1, fun hp => hnew _ hp (hg.usedEnds he).2⟩ }

theorem addNode_eq_ok {g g' : Graph} {n : Node} (h : g.addNode n = .ok g') :
    g.node? n.id = none ∧ g' = { g with
      owners := own n.id g.owners n.portIds
      order := g.order ++ [n.id]
      nodes := Table.set n.id n g.nodes } := by
  unfold addNode at h
  split_ifs at h with hc
  cases h
  refine ⟨?_, rfl⟩
  rw [Table.contains] at hc
  simpa [node?] using hc

theorem node?_addNode {g g' : Graph} {n : Node} (h : g.addNode n = .ok g') (id : NodeId) :
    g'.node? id = if n.id = id then some n else g.node? id := by
  obtain ⟨-, rfl⟩ := addNode_eq_ok h
  exact Table.find?_set ..

theorem ownerOf?_addNode {g g' : Graph} {n : Node} (h : g.addNode n = .ok g') (p : PortId) :
    g'.ownerOf? p = if p ∈ n.portIds then some n.id else g.ownerOf? p := by
  obtain ⟨-, rfl⟩ := addNode_eq_ok h
  exact find?_own ..

theorem Regular.addNode {g g' : Graph} {n : Node} (hg : g.Regular) (hn : g.Admits n) (h : g.addNode n = .ok g') :
    g'.Regular := by
  have hnode := node?_addNode h
  -- What is true of the new node and of the others is true of all.
  have hall : ∀ {P : Node → Prop}, P n → (∀ {id m}, g.node? id = some m → P m) → ∀ {id m}, g'.node? id = some m → P m := by
    intro P hnew hold id m hm
    rw [hnode] at hm
    split_ifs at hm
    · cases hm; exact hnew
    · exact hold hm
  obtain ⟨hnone, rfl⟩ := addNode_eq_ok h
  refine {
    nodup := ?_, listed := fun {id} => ?_, named := fun {id m} hm => ?_, ordered := hall hn.ordered hg.ordered,
    distinct := hall hn.distinct hg.distinct, apart := fun {id id' m m'} hm hm' hne => ?_, used := hall hn.used hg.used,
    ends := hg.ends, legal := hall hn.legal hg.legal, declared := hall hn.declared hg.declared, proper := ?_,
    owned := fun {p id} => ?_, simple := hg.simple, inSet := hg.inSet, linked := hg.linked,
    sides := fun {e id m} he hm => ?_ }
  · refine List.nodup_append.2 ⟨hg.nodup, List.nodup_singleton _, fun id hid id' hid' heq => ?_⟩
    rw [List.mem_singleton.1 hid'] at heq
    have := hg.listed.2 (heq ▸ hid)
    rw [hnone] at this
    cases this
  · rw [hnode, List.mem_append, List.mem_singleton]
    split_ifs with heq
    · exact ⟨fun _ => Or.inr heq.symm, fun _ => rfl⟩
    · rw [hg.listed]
      exact ⟨Or.inl, fun h => h.resolve_right (Ne.symm heq)⟩
  · rw [hnode] at hm
    split_ifs at hm with heq
    · cases hm; exact heq
    · exact hg.named hm
  · rw [hnode] at hm hm'
    split_ifs at hm with heq <;> split_ifs at hm' with heq'
    · exact absurd (heq.symm.trans heq') hne
    · cases hm; exact hn.apart hm'
    · cases hm'; exact (hn.apart hm).symm
    · exact hg.apart hm hm' hne
  · exact proper_own hg.proper ..
  · rw [ownerOf?, find?_own, hnode]
    split_ifs with hp heq heq
    · exact ⟨fun _ => ⟨n, rfl, hp⟩, fun _ => congrArg some heq⟩
    · constructor
      · intro h
        exact absurd (Option.some.inj h) heq
      · rintro ⟨m, hm, hpm⟩
        exact absurd hpm (hn.apart hm hp)
    · constructor
      · intro h
        obtain ⟨m, hm, -⟩ := hg.owned.1 h
        rw [← heq, hnone] at hm
        cases hm
      · rintro ⟨m, hm, hpm⟩
        cases hm
        exact absurd hpm hp
    · exact hg.owned
  · rw [hnode] at hm
    split_ifs at hm
    · cases hm
      refine ⟨fun hs => absurd hs (hn.loose e he).1, fun ht => (hn.loose e he).2 ?_⟩
      exact Node.portIds_of_outputIds hn.ordered ht
    · exact hg.sides he hm

/-- A node changes, and other owners are entered that fit its ports. -/
theorem Regular.evolve {g : Graph} (hg : g.Regular) {n n' : Node} {s' : Supply} (hn : g.node? n.id = some n)
    (h : n.Renews g.supply s' n') (hlegal : n'.Legal) {owners : Table PortId NodeId} (hproper : Table.Proper owners)
    (howned : ∀ p id, Table.find? p owners = some id ↔ ∃ m, (g.evolve n' s').node? id = some m ∧ p ∈ m.portIds) :
    ({ g.evolve n' s' with owners } : Graph).Regular := by
  have hid := hg.toIdentified.evolve hn h
  have hnode : ∀ id, (g.evolve n' s').node? id = if n.id = id then some n' else g.node? id := by
    intro id
    rw [node?_evolve, h.id]
  refine {
    nodup := hid.nodup, listed := hid.listed, named := hid.named, ordered := hid.ordered, distinct := hid.distinct,
    apart := hid.apart, used := hid.used, ends := hid.ends, legal := fun {id m} hm => ?_,
    declared := fun {id m} hm => ?_, proper := hproper, owned := howned _ _, simple := hg.simple, inSet := hg.inSet,
    linked := hg.linked, sides := fun {e id m} he hm => ?_ }
  · replace hm := (hnode id).symm.trans hm
    split_ifs at hm
    · cases hm; exact hlegal
    · exact hg.legal hm
  · replace hm := (hnode id).symm.trans hm
    split_ifs at hm
    · cases hm; exact h.declared (hg.declared hn)
    · exact hg.declared hm
  · replace he : e ∈ g.edges := he
    replace hm := (hnode id).symm.trans hm
    split_ifs at hm with heq
    · cases hm
      have hused := hg.usedEnds he
      have ho := hg.ordered hn
      refine ⟨fun hs => ?_, fun ht => ?_⟩
      · -- An end of an edge is no new port, so that it stays in its place.
        obtain ⟨slot, p', hp', hin⟩ := (Node.mem_portIds (h.ordered ho)).1 hs
        obtain ⟨p, hp, hids⟩ := h.places hp'
        have hold : e.source ∈ p.ids := (hids _ hin).resolve_right fun hle => absurd hused.1 (not_lt.2 hle)
        obtain ⟨slot', q, hout, hq, hin'⟩ :=
          (Node.mem_outputIds ho).1 ((hg.sides he hn).1 ((Node.mem_portIds ho).2 ⟨slot, p, hp, hold⟩))
        obtain rfl := Node.slot_unique ho (hg.distinct hn) hp hq hold hin'
        exact (Node.mem_outputIds (h.ordered ho)).2 ⟨slot, p', hout, hp', hin⟩
      · rcases h.outputs ho _ ht with hold | hle
        · exact (hg.sides he hn).2 hold
        · exact absurd hused.2 (not_lt.2 hle)
    · exact hg.sides he hm

/-- A node changes and keeps its ports. -/
theorem Regular.retain {g : Graph} (hg : g.Regular) {n n' : Node} {s' : Supply} (hn : g.node? n.id = some n)
    (h : n.Renews g.supply s' n') (hlegal : n'.Legal) (hids : n'.portIds = n.portIds) :
    (g.evolve n' s').Regular :=
  have howned := hg.isOwned.retain hn h.id hids s'
  hg.evolve hn h hlegal howned.proper fun _ _ => howned.owned

/-- A node changes and is entered again as the owner of its ports. -/
theorem Regular.renew {g : Graph} (hg : g.Regular) {n n' : Node} {s' : Supply} (hn : g.node? n.id = some n)
    (h : n.Renews g.supply s' n') (hlegal : n'.Legal) : ((g.evolve n' s').reindex n.id).Regular := by
  have howned := hg.isOwned.renew hg.toIdentified hn h
  rw [reindex_evolve h.id] at howned ⊢
  exact hg.evolve hn h hlegal howned.proper fun _ _ => howned.owned

/-- A node is taken out. -/
theorem Regular.drop {g : Graph} (hg : g.Regular) (id : NodeId) :
    ({ g with
      owners := disown id g.owners
      order := g.order.filter (· ≠ id)
      nodes := Table.erase id g.nodes } : Graph).Regular := by
  have hnode : ∀ {id' : NodeId} {n : Node}, Table.find? id' (Table.erase id g.nodes) = some n →
      id ≠ id' ∧ g.node? id' = some n := by
    intro id' n hn
    rw [Table.find?_erase] at hn
    split_ifs at hn with heq
    exact ⟨heq, hn⟩
  exact {
    nodup := hg.nodup.filter _
    listed := fun {id'} => by
      rw [node?, Table.find?_erase, List.mem_filter]
      split_ifs with heq
      · simp [heq]
      · rw [show Table.find? id' g.nodes = g.node? id' from rfl, hg.listed]
        simp [Ne.symm heq]
    named := fun hn => hg.named (hnode hn).2
    ordered := fun hn => hg.ordered (hnode hn).2
    distinct := fun hn => hg.distinct (hnode hn).2
    apart := fun hn hn' hne => hg.apart (hnode hn).2 (hnode hn').2 hne
    used := fun hn => hg.used (hnode hn).2
    ends := hg.ends
    legal := fun hn => hg.legal (hnode hn).2
    declared := fun hn => hg.declared (hnode hn).2
    proper := hg.proper.filter _
    owned := fun {p id'} => by
      rw [ownerOf?, find?_disown hg.proper, Option.filter_eq_some_iff, node?, Table.find?_erase,
        show Table.find? p g.owners = g.ownerOf? p from rfl, hg.owned]
      split_ifs with heq
      · simp [heq]
      · exact ⟨fun h => h.1, fun h => ⟨h, by simpa using Ne.symm heq⟩⟩
    simple := hg.simple
    inSet := hg.inSet
    linked := hg.linked
    sides := fun he hn => hg.sides he (hnode hn).2 }

/-! ### Edges -/

theorem find?_enter (p q r : PortId) (index : Table PortId (List PortId)) :
    (Table.find? r (enter p q index)).getD [] =
      (Table.find? r index).getD [] ++ if p = r then [q] else [] := by
  rw [enter, Table.find?_set]
  split_ifs with h
  · subst h; rfl
  · rw [List.append_nil]

theorem find?_remove (p q r : PortId) (index : Table PortId (List PortId)) :
    (Table.find? r (remove p q index)).getD [] =
      if p = r then ((Table.find? r index).getD []).filter (· ≠ q) else (Table.find? r index).getD [] := by
  unfold remove
  cases hp : Table.find? p index with
  | none =>
    dsimp only
    split_ifs with h
    · subst h; simp [hp]
    · rfl
  | some neighbours =>
    dsimp only
    split_ifs with hempty h h
    · subst h
      rw [Table.find?_erase_self, hp]
      exact (List.isEmpty_iff.1 hempty).symm
    · rw [Table.find?_erase_of_ne h]
    · subst h
      rw [Table.find?_set_self, hp]
      rfl
    · rw [Table.find?_set_of_ne h]

theorem Regular.link {g : Graph} (hg : g.Regular) {e : Edge} (hnew : e ∉ g.edges)
    (hused : g.supply.Used e.source ∧ g.supply.Used e.target)
    (hsides : ∀ id n, g.node? id = some n →
      (e.source ∈ n.portIds → e.source ∈ n.outputIds) ∧ e.target ∉ n.outputIds) : (g.link e).Regular := by
  have hmem : ∀ {e'}, e' ∈ g.edges ++ [e] → e' ∈ g.edges ∨ e' = e := fun h => by
    rwa [List.mem_append, List.mem_singleton] at h
  refine hg.rewire ?_ (fun e' => ?_) (fun p q => ?_) (fun e' he' => ?_) (fun e' he' => ?_)
  · refine List.nodup_append.2 ⟨hg.simple, List.nodup_singleton _, fun e₁ h₁ e₂ h₂ heq => hnew ?_⟩
    rw [← List.mem_singleton.1 h₂, ← heq]
    exact h₁
  · rw [mem_insertNew, hg.inSet, List.mem_append, List.mem_singleton, or_comm]
  · rw [find?_enter, List.mem_append, List.mem_append, List.mem_singleton,
      show (Table.find? p g.outEdges).getD [] = g.outgoing p from rfl, hg.linked]
    refine or_congr_right ?_
    obtain ⟨a, b⟩ := e
    by_cases h : a = p
    · simp [h]
    · simp [h, Ne.symm h]
  · rcases hmem he' with he' | rfl
    · exact hg.usedEnds he'
    · exact hused
  · rcases hmem he' with he' | rfl
    · exact fun _ _ hn => hg.sides he' hn
    · exact hsides

theorem Regular.unlink {g : Graph} (hg : g.Regular) (e : Edge) : (g.unlink e).Regular := by
  refine hg.rewire (hg.simple.filter _) (fun e' => ?_) (fun p q => ?_)
    (fun e' he' => hg.usedEnds (List.mem_filter.1 he').1) (fun e' he' _ _ hn => hg.sides (List.mem_filter.1 he').1 hn)
  · rw [List.mem_filter, List.mem_filter, hg.inSet]
  · rw [find?_remove, show (Table.find? p g.outEdges).getD [] = g.outgoing p from rfl, List.mem_filter, ← hg.linked]
    obtain ⟨a, b⟩ := e
    by_cases h : a = p
    · subst h; simp [List.mem_filter]
    · simp [h, Ne.symm h]

theorem Regular.unlinkAll {g : Graph} (hg : g.Regular) (es : List Edge) : (es.foldl Graph.unlink g).Regular := by
  induction es generalizing g with
  | nil => exact hg
  | cons e rest ih => exact ih (hg.unlink e)

theorem nodes_unlinkAll (g : Graph) (es : List Edge) : (es.foldl unlink g).nodes = g.nodes := by
  induction es generalizing g with
  | nil => rfl
  | cons e rest ih => exact ih (g.unlink e)

theorem addEdge_eq_ok {g g' : Graph} {p q : PortId} (h : g.addEdge p q = .ok g') :
    ∃ a b, g.port? p = some a ∧ g.port? q = some b ∧ a.direction = .output ∧ b.direction = .input ∧
      a.canConnect b = true ∧ ⟨p, q⟩ ∉ g.edgeSet ∧ g' = g.link ⟨p, q⟩ := by
  unfold addEdge at h
  cases ha : g.port? p with
  | none => simp [ha] at h
  | some a =>
    cases hb : g.port? q with
    | none => simp [ha, hb] at h
    | some b =>
      simp only [ha, hb] at h
      by_cases hdir : a.direction ≠ .output ∨ b.direction ≠ .input
      · rw [if_pos hdir] at h; cases h
      · rw [if_neg hdir] at h
        push Not at hdir
        cases hc : a.canConnect b with
        | false => simp only [hc] at h; cases h
        | true =>
          simp only [hc] at h
          by_cases hm : g.edgeSet.contains ⟨p, q⟩ = true
          · simp only [hm] at h; cases h
          · simp only [hm] at h
            cases h
            exact ⟨a, b, rfl, rfl, hdir.1, hdir.2, hc, by simpa using hm, rfl⟩

theorem Regular.addEdge {g g' : Graph} {p q : PortId} (hg : g.Regular) (h : g.addEdge p q = .ok g') : g'.Regular := by
  obtain ⟨a, b, ha, hb, hout, hin, -, hnew, rfl⟩ := addEdge_eq_ok h
  obtain ⟨id, n, hn, hp⟩ := hg.port?_isSome.1 (by rw [ha]; rfl)
  obtain ⟨id', n', hn', hq⟩ := hg.port?_isSome.1 (by rw [hb]; rfl)
  refine hg.link (fun he => hnew (hg.inSet.2 he)) ⟨hg.used hn p hp, hg.used hn' q hq⟩ fun id'' m hm => ⟨?_, ?_⟩
  · exact fun hpm => (hg.mem_outputIds ha hm hpm).2 hout
  · intro hqm
    have hdir := (hg.mem_outputIds hb hm (Node.portIds_of_outputIds (hg.ordered hm) hqm)).1 hqm
    rw [hin] at hdir
    cases hdir

theorem Regular.flag {g : Graph} (hg : g.Regular) (flagged : List Edge) : ({ g with flagged } : Graph).Regular :=
  hg.rewire hg.simple (fun _ => hg.inSet) (fun _ _ => hg.linked) (fun _ he => hg.usedEnds he)
    fun _ he _ _ hn => hg.sides he hn

/-! ### The other operations -/

theorem removeNode_eq_ok {g g' : Graph} {id : NodeId} {n : Node} (h : g.removeNode id = .ok (n, g')) :
    ∃ es : List Edge, g.node? id = some n ∧ g' =
      { es.foldl unlink g with
        owners := disown id (es.foldl unlink g).owners
        order := (es.foldl unlink g).order.filter (· ≠ id)
        nodes := Table.erase id (es.foldl unlink g).nodes } := by
  unfold removeNode at h
  cases hn : g.node? id with
  | none => rw [hn] at h; cases h
  | some m =>
    rw [hn] at h
    cases h
    exact ⟨_, rfl, rfl⟩

theorem Regular.removeNode {g g' : Graph} {id : NodeId} {n : Node} (hg : g.Regular)
    (h : g.removeNode id = .ok (n, g')) : g'.Regular := by
  obtain ⟨es, -, rfl⟩ := removeNode_eq_ok h
  exact (hg.unlinkAll es).drop id

theorem Regular.removeEdge {g : Graph} (hg : g.Regular) (p q : PortId) : (g.removeEdge p q).2.Regular := by
  unfold Graph.removeEdge
  dsimp only
  split_ifs
  · exact hg.unlink _
  · exact hg

theorem Regular.write {g g' : Graph} {p : PortId} {v w : Value} (hg : g.Regular) (h : g.write p v = .ok (w, g')) :
    g'.Regular := by
  obtain ⟨owner, n, n', s', -, hn, hw, rfl⟩ := write_eq_ok h
  obtain rfl := hg.named hn
  have hevolves := Node.evolves_write hw
  exact hg.renew hn hevolves.toRenews (hevolves.legal (hg.legal hn))

theorem checkEdges_eq_ok {g g' : Graph} {id : NodeId} {es : List Edge} (h : g.checkEdges id = .ok (es, g')) :
    ∃ n, g.node? id = some n ∧ g' = { g with flagged := g.markEdges (g.edgesToCheck n) } := by
  unfold checkEdges at h
  cases hn : g.node? id with
  | none => rw [hn] at h; cases h
  | some n =>
    rw [hn] at h
    cases h
    exact ⟨n, rfl, rfl⟩

theorem setPortType_eq_ok {g g' : Graph} {p : PortId} {t : DataType} {es : List Edge}
    (h : g.setPortType p t = .ok (es, g')) :
    ∃ owner n n' s', g.ownerOf? p = some owner ∧ g.node? owner = some n ∧
      n.setPortType p t g.supply = some (n', s') ∧
      ((g.evolve n' s').reindex owner).checkEdges owner = .ok (es, g') := by
  unfold setPortType at h
  simp only [Option.bind_eq_bind, Option.pure_def] at h
  split at h
  · cases h
  · rename_i hchanged
    simp only [Option.bind_eq_some_iff, Option.some.injEq] at hchanged
    obtain ⟨owner, howner, n, hn, result, hresult, heq⟩ := hchanged
    cases heq
    exact ⟨_, n, result.1, result.2, howner, hn, hresult, h⟩

theorem Regular.setPortType {g g' : Graph} {p : PortId} {t : DataType} {es : List Edge} (hg : g.Regular)
    (h : g.setPortType p t = .ok (es, g')) : g'.Regular := by
  obtain ⟨owner, n, n', s', -, hn, hset, hcheck⟩ := setPortType_eq_ok h
  obtain rfl := hg.named hn
  have ho := hg.ordered hn
  have hd := hg.distinct hn
  obtain ⟨-, -, rfl⟩ := checkEdges_eq_ok hcheck
  exact (hg.renew hn (Node.renews_setPortType ho hd hset) (Node.legal_setPortType ho hd hset (hg.legal hn))).flag _

/-! ### The graphs that are built -/

/-- The graphs that operations build from the empty one. A node that is added has ports of its own, which may
have been drawn and written before. -/
inductive Built : Graph → Prop
  | empty (s : Supply) : Built (.empty s)
  | addNode {g g' : Graph} {n : Node} {s : Supply} (hg : Built g) (hs : g.supply.next ≤ s.next)
      (hn : ({ g with supply := s } : Graph).Admits n) (h : ({ g with supply := s } : Graph).addNode n = .ok g') :
      Built g'
  | removeNode {g g' : Graph} {id : NodeId} {n : Node} (hg : Built g) (h : g.removeNode id = .ok (n, g')) : Built g'
  | addEdge {g g' : Graph} {p q : PortId} (hg : Built g) (h : g.addEdge p q = .ok g') : Built g'
  | removeEdge {g : Graph} (hg : Built g) (p q : PortId) : Built (g.removeEdge p q).2
  | write {g g' : Graph} {p : PortId} {v w : Value} (hg : Built g) (h : g.write p v = .ok (w, g')) : Built g'
  | setPortType {g g' : Graph} {p : PortId} {t : DataType} {es : List Edge} (hg : Built g)
      (h : g.setPortType p t = .ok (es, g')) : Built g'
  | checkEdges {g g' : Graph} {id : NodeId} {es : List Edge} (hg : Built g) (h : g.checkEdges id = .ok (es, g')) :
      Built g'

/-- **Every graph that is built is regular.** -/
theorem Built.regular {g : Graph} (hg : g.Built) : g.Regular := by
  induction hg with
  | empty s => exact regular_empty s
  | addNode _ hs hn h ih => exact (ih.draw hs).addNode hn h
  | removeNode _ h ih => exact ih.removeNode h
  | addEdge _ h ih => exact ih.addEdge h
  | removeEdge _ p q ih => exact ih.removeEdge p q
  | write _ h ih => exact ih.write h
  | setPortType _ h ih => exact ih.setPortType h
  | checkEdges _ h ih =>
    obtain ⟨-, -, rfl⟩ := checkEdges_eq_ok h
    exact ih.flag _

/-- A new node may be added to a graph that was built. -/
theorem Built.create {g g' : Graph} (hg : g.Built) {id : NodeId} {label : String} {b : Behavior} {config : Config}
    (h : ({ g with supply := (Node.create id label b config g.supply).2 } : Graph).addNode
      (Node.create id label b config g.supply).1 = .ok g') : g'.Built := by
  have hfresh := Node.fresh_create id label b config g.supply
  exact .addNode hg hfresh.drawn.le (admits_of_fresh hg.regular hfresh) h

/-! ### A source that triggers a relay -/

/-- A behavior without data that ends at once. -/
def signal (isDirectThrough : Bool) : Behavior :=
  { typeId := "signal", ports := [], activate := fun _ _ => .done .empty, isDirectThrough }

/-- The source of a signal. -/
def signalSource : Node × Supply :=
  Node.create ⟨1⟩ "source" (signal false) [] ⟨3⟩

/-- The relay of a signal. -/
def signalRelay : Node × Supply :=
  Node.create ⟨2⟩ "relay" (signal true) [] signalSource.2

/-- A source with a relay, connected by their triggers. -/
def signalPair? : Except GraphError Graph := do
  let g ← ({ empty ⟨3⟩ with supply := signalSource.2 } : Graph).addNode signalSource.1
  let g ← ({ g with supply := signalRelay.2 } : Graph).addNode signalRelay.1
  g.addEdge ⟨4⟩ ⟨5⟩

/-- The graph that they make up. -/
def signalPair : Graph :=
  signalPair?.toOption.getD (empty ⟨0⟩)

theorem built_signalPair : signalPair.Built := by
  have h : signalPair? = .ok signalPair := rfl
  obtain ⟨g, hg, h⟩ := Except.bind_eq_ok.1 h
  obtain ⟨g', hg', h⟩ := Except.bind_eq_ok.1 h
  have hsource : g.Built := .create (.empty ⟨3⟩) hg
  have hsupply : g.supply = signalSource.2 := by rw [(addNode_eq_ok hg).2]
  exact .addEdge (Built.create hsource (by rw [hsupply]; exact hg')) h

theorem node?_signalPair (id : NodeId) : signalPair.node? id = if (⟨2⟩ : NodeId) = id then some signalRelay.1 else
    if (⟨1⟩ : NodeId) = id then some signalSource.1 else none := by
  rw [show signalPair.node? id = Table.find? id (Table.set ⟨2⟩ signalRelay.1 (Table.set ⟨1⟩ signalSource.1 []))
    from rfl, Table.find?_set, Table.find?_set]
  rfl

theorem wellFormed_signalPair : signalPair.WellFormed := by
  refine ⟨built_signalPair.regular.toIdentified, fun {id n} hn => ?_⟩
  rw [node?_signalPair] at hn
  split_ifs at hn <;> cases hn
  · exact (Node.fresh_create ..).sound
  · exact (Node.fresh_create ..).sound

end Dataflow.Graph
