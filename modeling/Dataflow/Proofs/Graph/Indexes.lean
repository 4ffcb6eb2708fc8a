import Dataflow.Proofs.Graph.Editing

/-!
# The indexes of a graph

A graph keeps, beside the list of its edges, who feeds whom for every port. A plain scan of the list gives the same
answers.

* `Edge.targetsOf`, `Edge.sourcesOf` are the answers of a scan: the other ends of the edges at a port, in the order
  of the list;
* `Graph.Indexed` says that the indexes of edges give these answers, and that only edges of the graph are flagged;
  `Graph.Indexed.link`, `Graph.Indexed.unlink` and `Graph.Indexed.checkEdges` preserve it;
* `Graph.Agrees` says what all indexes of a graph have to do with its edges and its nodes, for each question about
  connections;
* `Graph.Regular.agrees_of_indexed`: a regular graph with such indexes answers all of them like a scan.
-/

namespace Dataflow

/-! ### Scanning the edges -/

namespace Edge

/-- The ends `there` of the edges whose end `here` is a port, in the order of the edges. -/
def scan (here there : Edge → PortId) (p : PortId) (edges : List Edge) : List PortId :=
  (edges.filter fun e => here e = p).map there

/-- The ports that a port feeds, by a scan of the edges. -/
def targetsOf : PortId → List Edge → List PortId :=
  scan source target

/-- The ports that feed a port, by a scan of the edges. -/
def sourcesOf : PortId → List Edge → List PortId :=
  scan target source

theorem mem_targetsOf {p q : PortId} {edges : List Edge} : q ∈ targetsOf p edges ↔ ⟨p, q⟩ ∈ edges := by
  simp only [targetsOf, scan, List.mem_map, List.mem_filter, decide_eq_true_eq]
  constructor
  · rintro ⟨⟨a, b⟩, ⟨he, rfl⟩, rfl⟩
    exact he
  · exact fun he => ⟨⟨p, q⟩, ⟨he, rfl⟩, rfl⟩

theorem mem_sourcesOf {p q : PortId} {edges : List Edge} : p ∈ sourcesOf q edges ↔ ⟨p, q⟩ ∈ edges := by
  simp only [sourcesOf, scan, List.mem_map, List.mem_filter, decide_eq_true_eq]
  constructor
  · rintro ⟨⟨a, b⟩, ⟨he, rfl⟩, rfl⟩
    exact he
  · exact fun he => ⟨⟨p, q⟩, ⟨he, rfl⟩, rfl⟩

section Scan

variable {here there : Edge → PortId} (p : PortId) (edges : List Edge) (e : Edge)

theorem scan_append :
    scan here there p (edges ++ [e]) = scan here there p edges ++ if here e = p then [there e] else [] := by
  by_cases h : here e = p <;> simp [scan, h]

/-- Taking out an edge takes one port out of the answer, if the two ends tell edges apart. -/
theorem scan_filter (hends : ∀ e e', here e = here e' → there e = there e' → e = e') :
    scan here there p (edges.filter (· ≠ e)) =
      if here e = p then (scan here there p edges).filter (· ≠ there e) else scan here there p edges := by
  have hne : ∀ e', here e' = p → (e' ≠ e ↔ here e ≠ p ∨ there e' ≠ there e) := by
    intro e' he'
    constructor
    · intro h
      by_contra hcon
      push Not at hcon
      exact h (hends e' e (he'.trans hcon.1.symm) hcon.2)
    · rintro h rfl
      exact h.elim (fun h => h he') fun h => h rfl
  unfold scan
  rw [List.filter_filter, List.filter_map, List.filter_filter]
  split_ifs with h
  · refine congrArg _ (List.filter_congr fun e' _ => ?_)
    by_cases he' : here e' = p
    · simp [he', hne e' he', h]
    · simp [he']
  · refine congrArg _ (List.filter_congr fun e' _ => ?_)
    by_cases he' : here e' = p
    · simp [he', hne e' he', h]
    · simp [he']

end Scan

theorem eq_of_ends (e e' : Edge) (hs : e.source = e'.source) (ht : e.target = e'.target) : e = e' := by
  obtain ⟨a, b⟩ := e
  obtain ⟨a', b'⟩ := e'
  cases hs
  cases ht
  rfl

end Edge

namespace Graph

/-! ### The indexes of edges -/

/-- The indexes of edges answer like a scan, and only edges of the graph are flagged. -/
structure Indexed (g : Graph) : Prop where
  out : ∀ p, g.outgoing p = Edge.targetsOf p g.edges
  into : ∀ p, g.incoming p = Edge.sourcesOf p g.edges
  flags : ∀ e ∈ g.flagged, e ∈ g.edges

theorem indexed_empty (s : Supply) : (empty s).Indexed :=
  ⟨fun _ => rfl, fun _ => rfl, fun _ he => absurd he List.not_mem_nil⟩

/-- What does not touch the edges leaves their indexes as they are. -/
theorem Indexed.of_eq {g g' : Graph} (hg : g.Indexed) (hedges : g'.edges = g.edges)
    (hflagged : g'.flagged = g.flagged) (hout : g'.outEdges = g.outEdges) (hin : g'.inEdges = g.inEdges) : g'.Indexed where
  out p := by rw [outgoing, hout, hedges]; exact hg.out p
  into p := by rw [incoming, hin, hedges]; exact hg.into p
  flags := by rw [hflagged, hedges]; exact hg.flags

theorem Indexed.link {g : Graph} (hg : g.Indexed) (e : Edge) : (g.link e).Indexed where
  out p := by
    rw [outgoing, show (g.link e).outEdges = enter e.source e.target g.outEdges from rfl, find?_enter,
      show (g.link e).edges = g.edges ++ [e] from rfl, Edge.targetsOf, Edge.scan_append, ← Edge.targetsOf, ← hg.out p, outgoing]
  into p := by
    rw [incoming, show (g.link e).inEdges = enter e.target e.source g.inEdges from rfl, find?_enter,
      show (g.link e).edges = g.edges ++ [e] from rfl, Edge.sourcesOf, Edge.scan_append, ← Edge.sourcesOf, ← hg.into p, incoming]
  flags f hf := List.mem_append_left _ (hg.flags f hf)

theorem Indexed.unlink {g : Graph} (hg : g.Indexed) (e : Edge) : (g.unlink e).Indexed where
  out p := by
    rw [outgoing, show (g.unlink e).outEdges = remove e.source e.target g.outEdges from rfl, find?_remove,
      show (g.unlink e).edges = g.edges.filter (· ≠ e) from rfl, Edge.targetsOf,
      Edge.scan_filter _ _ _ Edge.eq_of_ends, ← Edge.targetsOf, ← hg.out p, outgoing]
  into p := by
    rw [incoming, show (g.unlink e).inEdges = remove e.target e.source g.inEdges from rfl, find?_remove,
      show (g.unlink e).edges = g.edges.filter (· ≠ e) from rfl, Edge.sourcesOf,
      Edge.scan_filter _ _ _ fun e e' ht hs => Edge.eq_of_ends e e' hs ht, ← Edge.sourcesOf, ← hg.into p, incoming]
  flags f hf := by
    obtain ⟨hf, hne⟩ := List.mem_filter.1 hf
    exact List.mem_filter.2 ⟨hg.flags f hf, hne⟩

theorem Indexed.unlinkAll {g : Graph} (hg : g.Indexed) (es : List Edge) : (es.foldl Graph.unlink g).Indexed := by
  induction es generalizing g with
  | nil => exact hg
  | cons e rest ih => exact ih (hg.unlink e)

/-- The edges that are looked at again are edges of the graph. -/
theorem Indexed.edgesToCheck {g : Graph} (hg : g.Indexed) {n : Node} {e : Edge} (he : e ∈ g.edgesToCheck n) :
    e ∈ g.edges := by
  rcases List.mem_append.1 he with he | he
  · obtain ⟨p, -, he⟩ := List.mem_flatMap.1 he
    rcases List.mem_append.1 he with he | he
    · obtain ⟨q, hq, rfl⟩ := List.mem_map.1 he
      exact Edge.mem_targetsOf.1 (hg.out p ▸ hq)
    · obtain ⟨q, hq, rfl⟩ := List.mem_map.1 he
      exact Edge.mem_sourcesOf.1 (hg.into p ▸ hq)
  · exact (List.mem_filter.1 he).1

theorem mem_markEdges {g : Graph} {es : List Edge} {e : Edge} (he : e ∈ g.markEdges es) : e ∈ g.flagged ∨ e ∈ es := by
  unfold markEdges at he
  -- The flags change edge by edge, while the graph in which the edges are looked at stays.
  generalize g.flagged = flagged at he ⊢
  induction es generalizing flagged with
  | nil => exact Or.inl he
  | cons first rest ih =>
    rcases ih _ he with he | he
    · dsimp only at he
      split_ifs at he
      · exact Or.inl (List.mem_filter.1 he).1
      · exact (mem_insertNew.1 he).elim (fun h => Or.inr (h ▸ List.mem_cons_self)) Or.inl
    · exact Or.inr (List.mem_cons_of_mem _ he)

theorem Indexed.checkEdges {g g' : Graph} {id : NodeId} {es : List Edge} (hg : g.Indexed)
    (h : g.checkEdges id = .ok (es, g')) : g'.Indexed := by
  obtain ⟨n, -, rfl⟩ := checkEdges_eq_ok h
  refine ⟨hg.out, hg.into, fun e he => ?_⟩
  exact (mem_markEdges he).elim (hg.flags e) hg.edgesToCheck

theorem Indexed.addNode {g g' : Graph} {n : Node} (hg : g.Indexed) (h : g.addNode n = .ok g') : g'.Indexed := by
  obtain ⟨-, rfl⟩ := addNode_eq_ok h
  exact hg.of_eq rfl rfl rfl rfl

theorem Indexed.removeNode {g g' : Graph} {id : NodeId} {n : Node} (hg : g.Indexed)
    (h : g.removeNode id = .ok (n, g')) : g'.Indexed := by
  obtain ⟨es, -, rfl⟩ := removeNode_eq_ok h
  exact (hg.unlinkAll es).of_eq rfl rfl rfl rfl

theorem Indexed.addEdge {g g' : Graph} {p q : PortId} (hg : g.Indexed) (h : g.addEdge p q = .ok g') : g'.Indexed := by
  obtain ⟨-, -, -, -, -, -, -, -, rfl⟩ := addEdge_eq_ok h
  exact hg.link _

theorem Indexed.removeEdge {g : Graph} (hg : g.Indexed) (p q : PortId) : (g.removeEdge p q).2.Indexed := by
  unfold Graph.removeEdge
  dsimp only
  split_ifs
  · exact hg.unlink _
  · exact hg

/-- A node changes and is entered again as the owner of its ports. -/
theorem Indexed.renew {g : Graph} (hg : g.Indexed) (n : Node) (s : Supply) (id : NodeId) :
    ((g.evolve n s).reindex id).Indexed :=
  hg.of_eq (by rw [reindex_edges]; rfl) (by rw [reindex_flagged]; rfl) (by rw [reindex_outEdges]; rfl)
    (by rw [reindex_inEdges]; rfl)

theorem Indexed.write {g g' : Graph} {p : PortId} {v w : Value} (hg : g.Indexed) (h : g.write p v = .ok (w, g')) :
    g'.Indexed := by
  obtain ⟨owner, -, n', s', -, -, -, rfl⟩ := write_eq_ok h
  exact hg.renew n' s' owner

theorem Indexed.setPortType {g g' : Graph} {p : PortId} {t : DataType} {es : List Edge} (hg : g.Indexed)
    (h : g.setPortType p t = .ok (es, g')) : g'.Indexed := by
  obtain ⟨owner, -, n', s', -, -, -, hcheck⟩ := setPortType_eq_ok h
  exact (hg.renew n' s' owner).checkEdges hcheck

/-! ### Neighbours -/

/-- Some edge leads from a port of one node to a port of another. -/
def Joined (g : Graph) (id id' : NodeId) : Prop :=
  ∃ n n' e, g.node? id = some n ∧ g.node? id' = some n' ∧ e ∈ g.edges ∧ e.source ∈ n.portIds ∧ e.target ∈ n'.portIds

theorem foldl_insertNew {α : Type} [DecidableEq α] (list found : List α) (hf : found.Nodup) :
    (list.foldl (fun found a => insertNew a found) found).Nodup ∧
      ∀ a, a ∈ list.foldl (fun found a => insertNew a found) found ↔ a ∈ found ∨ a ∈ list := by
  induction list generalizing found with
  | nil => exact ⟨hf, fun a => by simp⟩
  | cons b rest ih =>
    obtain ⟨hnodup, hmem⟩ := ih (insertNew b found) (nodup_insertNew hf)
    refine ⟨hnodup, fun a => ?_⟩
    rw [List.foldl_cons, hmem, mem_insertNew, List.mem_cons]
    tauto

theorem nodup_neighbours (g : Graph) (ports : List PortId) (adjacent : PortId → List PortId) :
    (g.neighbours ports adjacent).Nodup :=
  (foldl_insertNew _ [] List.nodup_nil).1

theorem mem_neighbours {g : Graph} {ports : List PortId} {adjacent : PortId → List PortId} {id : NodeId} :
    id ∈ g.neighbours ports adjacent ↔ ∃ p ∈ ports, ∃ q ∈ adjacent p, g.ownerOf? q = some id := by
  rw [neighbours, (foldl_insertNew _ [] List.nodup_nil).2]
  simp only [List.not_mem_nil, false_or, List.mem_filterMap, List.mem_flatMap]
  constructor
  · rintro ⟨q, ⟨p, hp, hq⟩, howner⟩
    exact ⟨p, hp, q, hq, howner⟩
  · rintro ⟨p, hp, q, hq, howner⟩
    exact ⟨q, ⟨p, hp, hq⟩, howner⟩

theorem nodup_successors (g : Graph) (id : NodeId) : (g.successors id).Nodup := by
  unfold successors
  split
  · exact List.nodup_nil
  · exact g.nodup_neighbours _ _

theorem nodup_predecessors (g : Graph) (id : NodeId) : (g.predecessors id).Nodup := by
  unfold predecessors
  split
  · exact List.nodup_nil
  · exact g.nodup_neighbours _ _

section Regular

variable {g : Graph} (hr : g.Regular) (hi : g.Indexed) {id id' : NodeId}

include hr hi

theorem Regular.mem_successors : id' ∈ g.successors id ↔ g.Joined id id' := by
  unfold successors Joined
  cases hn : g.node? id with
  | none => simp
  | some n =>
    dsimp only
    rw [mem_neighbours]
    constructor
    · rintro ⟨p, hp, q, hq, howner⟩
      obtain ⟨n', hn', hq'⟩ := hr.owned.1 howner
      rw [hi.out] at hq
      exact ⟨n, n', ⟨p, q⟩, rfl, hn', Edge.mem_targetsOf.1 hq, hp, hq'⟩
    · rintro ⟨m, n', ⟨p, q⟩, hm, hn', he, hp, hq⟩
      cases hm
      refine ⟨p, hp, q, ?_, hr.owned.2 ⟨n', hn', hq⟩⟩
      rw [hi.out]
      exact Edge.mem_targetsOf.2 he

theorem Regular.mem_predecessors : id ∈ g.predecessors id' ↔ g.Joined id id' := by
  unfold predecessors Joined
  cases hn' : g.node? id' with
  | none => simp
  | some n' =>
    dsimp only
    rw [mem_neighbours]
    constructor
    · rintro ⟨q, hq, p, hp, howner⟩
      obtain ⟨n, hn, hp'⟩ := hr.owned.1 howner
      rw [hi.into] at hp
      exact ⟨n, n', ⟨p, q⟩, hn, rfl, Edge.mem_sourcesOf.1 hp, hp', hq⟩
    · rintro ⟨n, m, ⟨p, q⟩, hn, hm, he, hp, hq⟩
      cases hm
      refine ⟨q, hq, p, ?_, hr.owned.2 ⟨n, hn, hp⟩⟩
      rw [hi.into]
      exact Edge.mem_sourcesOf.2 he

end Regular

/-! ### All indexes together -/

/-- All that a graph keeps about connections agrees with its edges and with its nodes as they are now. -/
structure Agrees (g : Graph) : Prop where
  edges : g.edges.Nodup
  edgeSet : ∀ e, e ∈ g.edgeSet ↔ e ∈ g.edges
  outgoing : ∀ p, g.outgoing p = Edge.targetsOf p g.edges
  incoming : ∀ p, g.incoming p = Edge.sourcesOf p g.edges
  flagged : ∀ e ∈ g.flagged, e ∈ g.edgeSet
  order : g.order.Nodup
  listed : ∀ id, id ∈ g.order ↔ (g.node? id).isSome
  owner : ∀ p id, g.ownerOf? p = some id ↔ ∃ n, g.node? id = some n ∧ p ∈ n.portIds
  successors : ∀ id id', id' ∈ g.successors id ↔ g.Joined id id'
  predecessors : ∀ id id', id ∈ g.predecessors id' ↔ g.Joined id id'
  once : ∀ id, (g.successors id).Nodup ∧ (g.predecessors id).Nodup

theorem Regular.agrees_of_indexed {g : Graph} (hr : g.Regular) (hi : g.Indexed) : g.Agrees where
  edges := hr.simple
  edgeSet _ := hr.inSet
  outgoing := hi.out
  incoming := hi.into
  flagged e he := hr.inSet.2 (hi.flags e he)
  order := hr.nodup
  listed _ := hr.listed.symm
  owner _ _ := hr.owned
  successors _ _ := hr.mem_successors hi
  predecessors _ _ := hr.mem_predecessors hi
  once id := ⟨g.nodup_successors id, g.nodup_predecessors id⟩

end Graph

end Dataflow
