import Dataflow.Proofs.Graph.Indexes
import Dataflow.Proofs.Run.Moves

/-!
# Graphs that are changed and run

* `Graph.Reached` are the graphs that operations and runs make of an empty graph, in any order;
* `Graph.edges_unchanged`: no act of a run touches the edges, their flags or their indexes;
* `Graph.Reached.regular`, `Graph.Reached.indexed`: such a graph keeps to what a graph keeps to that was only built;
* `Graph.Reached.indexes_agree`: its indexes agree with its edges and nodes;
* `Graph.Consistent` says this of a graph together with its identifiers, and `Graph.Reached.consistent` that it holds.
-/

namespace Dataflow.Graph

open Run

/-- The graphs that are reached from an empty one by operations and by runs. A run may go on to its end, or stop at
any step. -/
inductive Reached : Graph → Prop
  | empty (s : Supply) : Reached (.empty s)
  | addNode {g g' : Graph} {n : Node} {s : Supply} (hg : Reached g) (hs : g.supply.next ≤ s.next)
      (hn : ({ g with supply := s } : Graph).Admits n) (h : ({ g with supply := s } : Graph).addNode n = .ok g') :
      Reached g'
  | removeNode {g g' : Graph} {id : NodeId} {n : Node} (hg : Reached g) (h : g.removeNode id = .ok (n, g')) :
      Reached g'
  | addEdge {g g' : Graph} {p q : PortId} (hg : Reached g) (h : g.addEdge p q = .ok g') : Reached g'
  | removeEdge {g : Graph} (hg : Reached g) (p q : PortId) : Reached (g.removeEdge p q).2
  | write {g g' : Graph} {p : PortId} {v w : Value} (hg : Reached g) (h : g.write p v = .ok (w, g')) : Reached g'
  | setPortType {g g' : Graph} {p : PortId} {t : DataType} {es : List Edge} (hg : Reached g)
      (h : g.setPortType p t = .ok (es, g')) : Reached g'
  | checkEdges {g g' : Graph} {id : NodeId} {es : List Edge} (hg : Reached g) (h : g.checkEdges id = .ok (es, g')) :
      Reached g'
  | run {g : Graph} {x : Executor} {context : Context} {mode : StartMode} {now : Nat} {r r' : Run} {acts : List Act}
      (hg : Reached g) (h : start x g context mode now = .ok r) (hr : Leads r acts r') : Reached r'.graph

theorem Built.reached {g : Graph} (hg : g.Built) : g.Reached := by
  induction hg with
  | empty s => exact .empty s
  | addNode _ hs hn h ih => exact .addNode ih hs hn h
  | removeNode _ h ih => exact .removeNode ih h
  | addEdge _ h ih => exact .addEdge ih h
  | removeEdge _ p q ih => exact .removeEdge ih p q
  | write _ h ih => exact .write ih h
  | setPortType _ h ih => exact .setPortType ih h
  | checkEdges _ h ih => exact .checkEdges ih h

/-- Whatever is done to a graph, and however it is run, it stays regular. -/
theorem Reached.regular {g : Graph} (hg : g.Reached) : g.Regular := by
  induction hg with
  | empty s => exact regular_empty s
  | addNode _ hs hn h ih => exact (ih.draw hs).addNode hn h
  | removeNode _ h ih => exact ih.removeNode h
  | addEdge _ h ih => exact ih.addEdge h
  | removeEdge _ p q ih => exact ih.removeEdge p q
  | write _ h ih => exact ih.write h
  | setPortType _ h ih => exact ih.setPortType h
  | checkEdges _ h ih =>
    obtain ⟨-, -, rfl⟩ := checkEdges_eq_ok h
    exact ih.flag _
  | run _ h hr ih => exact hr.regular (start_regular ih h)

/-- No act of a run adds or removes an edge. -/
theorem edges_unchanged {g : Graph} (hg : g.Identified) (act : Act) : (g.enact act).edges = g.edges := by
  rcases enact_cases hg act with he | ⟨n, n', s', -, -, -, ⟨he, -⟩ | he⟩ <;> rw [he]
  · rfl
  · rw [reindex_edges]
    rfl

/-- The edges and their indexes are the same after any acts. -/
theorem frame_replay {g : Graph} (hg : g.Identified) (acts : List Act) :
    (g.replay acts).edges = g.edges ∧ (g.replay acts).edgeSet = g.edgeSet ∧ (g.replay acts).flagged = g.flagged ∧
      (g.replay acts).outEdges = g.outEdges ∧ (g.replay acts).inEdges = g.inEdges := by
  induction acts generalizing g with
  | nil => exact ⟨rfl, rfl, rfl, rfl, rfl⟩
  | cons act rest ih =>
    obtain ⟨hedges, hset, hflagged, hout, hin⟩ := ih (hg.enact act)
    obtain ⟨-, hset₁, hflagged₁, hout₁, hin₁⟩ := edges_enact g act
    exact ⟨hedges.trans (edges_unchanged hg act), hset.trans hset₁, hflagged.trans hflagged₁, hout.trans hout₁,
      hin.trans hin₁⟩

theorem Indexed.replay {g : Graph} (hi : g.Indexed) (hg : g.Identified) (acts : List Act) : (g.replay acts).Indexed := by
  obtain ⟨hedges, -, hflagged, hout, hin⟩ := frame_replay hg acts
  exact hi.of_eq hedges hflagged hout hin

theorem Indexed.run {g : Graph} (hi : g.Indexed) (hg : g.Identified) {x : Executor} {context : Context}
    {mode : StartMode} {now : Nat} {r r' : Run} {acts : List Act} (h : start x g context mode now = .ok r)
    (hr : Leads r acts r') : r'.graph.Indexed := by
  have hdrawn : ({ g with supply := g.supply.draw.2 } : Graph).Indexed := hi.of_eq rfl rfl rfl rfl
  have hstart : r.graph.Indexed := by
    rw [(start_eq h).2]
    exact hdrawn.replay (hg.draw (Nat.le_succ _)) _
  have hid := start_identified hg h
  rw [hr.graph hid]
  exact hstart.replay hid acts

/-- Whatever is done to a graph, and however it is run, its indexes answer like a scan of its edges. -/
theorem Reached.indexed {g : Graph} (hg : g.Reached) : g.Indexed := by
  induction hg with
  | empty s => exact indexed_empty s
  | @addNode g _ _ s _ _ _ h ih => exact Indexed.addNode (g := { g with supply := s }) (ih.of_eq rfl rfl rfl rfl) h
  | removeNode _ h ih => exact ih.removeNode h
  | addEdge _ h ih => exact ih.addEdge h
  | removeEdge _ p q ih => exact ih.removeEdge p q
  | write _ h ih => exact ih.write h
  | setPortType _ h ih => exact ih.setPortType h
  | checkEdges _ h ih => exact ih.checkEdges h
  | run hg h hr ih => exact ih.run hg.regular.toIdentified h hr

/-- **The indexes of a graph agree with its edges and its nodes, whatever was done to it and however it was run.** -/
theorem Reached.indexes_agree {g : Graph} (hg : g.Reached) : g.Agrees :=
  hg.regular.agrees_of_indexed hg.indexed

/-- A source and its relay, after a run of one iteration. -/
theorem indexes_agree_signal : signalEnd.graph.Reached ∧ signalEnd.graph.Agrees := by
  have hreached : signalEnd.graph.Reached := .run built_signalPair.reached start_signal leads_signal
  exact ⟨hreached, Reached.indexes_agree hreached⟩

/-! ### Consistent graphs -/

/-- No port is entered that has no neighbours. -/
def Filled (index : Table PortId (List PortId)) : Prop :=
  ∀ p, Table.find? p index ≠ some []

theorem Filled.enter {index : Table PortId (List PortId)} (h : Filled index) (p q : PortId) : Filled (enter p q index) := by
  intro r
  rw [Graph.enter, Table.find?_set]
  split_ifs
  · simp
  · exact h r

theorem Filled.remove {index : Table PortId (List PortId)} (h : Filled index) (p q : PortId) :
    Filled (remove p q index) := by
  intro r
  unfold Graph.remove
  cases hp : Table.find? p index with
  | none => exact h r
  | some neighbours =>
    dsimp only
    split_ifs with hempty
    · by_cases hr : p = r
      · rw [hr, Table.find?_erase_self]
        simp
      · rw [Table.find?_erase_of_ne hr]
        exact h r
    · rw [Table.find?_set]
      split_ifs
      · simpa using hempty
      · exact h r

theorem filled_unlinkAll {g : Graph} (h : Filled g.inEdges ∧ Filled g.outEdges) (es : List Edge) :
    Filled (es.foldl Graph.unlink g).inEdges ∧ Filled (es.foldl Graph.unlink g).outEdges := by
  induction es generalizing g with
  | nil => exact h
  | cons e rest ih => exact ih (g := g.unlink e) ⟨h.1.remove _ _, h.2.remove _ _⟩

/-- A graph whose identifiers are distinct and were handed out, and whose indexes agree with its edges and its nodes. -/
structure Consistent (g : Graph) : Prop extends Identified g where
  agrees : g.Agrees
  /-- A port has one entry among the owners. -/
  proper : Table.Proper g.owners
  filled : Filled g.inEdges

theorem Reached.filled {g : Graph} (hg : g.Reached) : Filled g.inEdges ∧ Filled g.outEdges := by
  induction hg with
  | empty s => exact ⟨fun p => by simp [Graph.empty], fun p => by simp [Graph.empty]⟩
  | addNode _ _ _ h ih =>
    obtain ⟨-, rfl⟩ := addNode_eq_ok h
    exact ih
  | removeNode _ h ih =>
    obtain ⟨es, -, rfl⟩ := removeNode_eq_ok h
    exact filled_unlinkAll ih es
  | addEdge _ h ih =>
    obtain ⟨-, -, -, -, -, -, -, -, rfl⟩ := addEdge_eq_ok h
    exact ⟨ih.1.enter _ _, ih.2.enter _ _⟩
  | removeEdge _ p q ih =>
    unfold Graph.removeEdge
    dsimp only
    split_ifs
    · exact ⟨ih.1.remove _ _, ih.2.remove _ _⟩
    · exact ih
  | write _ h ih =>
    obtain ⟨owner, -, n', s', -, -, -, rfl⟩ := write_eq_ok h
    rw [reindex_inEdges, reindex_outEdges]
    exact ih
  | setPortType _ h ih =>
    obtain ⟨owner, -, n', s', -, -, -, hcheck⟩ := setPortType_eq_ok h
    obtain ⟨n, -, rfl⟩ := checkEdges_eq_ok hcheck
    change Filled (reindex _ owner).inEdges ∧ Filled (reindex _ owner).outEdges
    rw [reindex_inEdges, reindex_outEdges]
    exact ih
  | checkEdges _ h ih =>
    obtain ⟨n, -, rfl⟩ := checkEdges_eq_ok h
    exact ih
  | @run g x context mode now r r' acts hg h hr ih =>
    have hid := hg.regular.toIdentified
    have hstart : r.graph.inEdges = g.inEdges ∧ r.graph.outEdges = g.outEdges := by
      obtain ⟨-, -, -, hout, hin⟩ :=
        frame_replay (g := { g with supply := g.supply.draw.2 }) (hid.draw (Nat.le_succ _)) (g.order.map .reset)
      rw [(start_eq h).2]
      exact ⟨hin, hout⟩
    obtain ⟨-, -, -, hout, hin⟩ := frame_replay (start_identified hid h) acts
    rw [hr.graph (start_identified hid h), hin, hout, hstart.1, hstart.2]
    exact ih

/-- Whatever is done to a graph, and however it is run, it is consistent. -/
theorem Reached.consistent {g : Graph} (hg : g.Reached) : g.Consistent :=
  { hg.regular.toIdentified with
    agrees := hg.regular.agrees_of_indexed hg.indexed
    proper := hg.regular.proper
    filled := hg.filled.1 }

end Dataflow.Graph
