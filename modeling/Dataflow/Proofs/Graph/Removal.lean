import Dataflow.Proofs.Document.Loading
import Dataflow.Proofs.Run.Reached

/-!
# Removing nodes

A node is removed with the edges at the ports that it has. An element port that a write or a change of type takes away
leaves its edges behind, and they stay behind when the node is removed.

* `Graph.Edit` is one change of a graph, and `Graph.History` tells what a graph was before;
* `Graph.HeldBy` says that a port belonged to a node at some time; `Graph.History.holder_unique`: to one node only;
* `Graph.Mentions` says that a port occurs among the edges, in their indexes or among the flags;
* `Graph.removeNode_of_node?`: which edges and flags are left;
* `Graph.History.removal`: the edges at former ports of a node are left if and only if no end is one of its ports.
-/

namespace Dataflow

/-- A port is an end of an edge. -/
def Edge.HasEnd (e : Edge) (p : PortId) : Prop :=
  e.source = p ∨ e.target = p

/-- An end of an edge is a port of a node. -/
def Node.Touches (n : Node) (e : Edge) : Prop :=
  e.source ∈ n.portIds ∨ e.target ∈ n.portIds

instance (n : Node) : DecidablePred n.Touches :=
  fun _ => inferInstanceAs (Decidable (_ ∨ _))

namespace Graph

/-! ### What a graph was before -/

/-- One change of a graph. The ports of a node that is added were not handed out before. -/
inductive Edit (g : Graph) : Graph → Prop
  | addNode {g' : Graph} {n : Node} {s : Supply} (hs : g.supply.next ≤ s.next)
      (hn : ({ g with supply := s } : Graph).Admits n) (hnew : ∀ p ∈ n.portIds, ¬ g.supply.Used p)
      (h : ({ g with supply := s } : Graph).addNode n = .ok g') : Edit g g'
  | removeNode {g' : Graph} {id : NodeId} {n : Node} (h : g.removeNode id = .ok (n, g')) : Edit g g'
  | addEdge {g' : Graph} {p q : PortId} (h : g.addEdge p q = .ok g') : Edit g g'
  | removeEdge (p q : PortId) : Edit g (g.removeEdge p q).2
  | write {g' : Graph} {p : PortId} {v w : Value} (h : g.write p v = .ok (w, g')) : Edit g g'
  | setPortType {g' : Graph} {p : PortId} {t : DataType} {es : List Edge} (h : g.setPortType p t = .ok (es, g')) :
      Edit g g'

/-- The graphs that a graph was before, from the empty one on, the last one first. -/
inductive History : List Graph → Graph → Prop
  | start (s : Supply) : History [] (.empty s)
  | edit {past : List Graph} {g g' : Graph} (h : History past g) (hedit : g.Edit g') : History (g :: past) g'

/-- A port belongs to a node in one of several graphs. -/
def HeldBy (graphs : List Graph) (id : NodeId) (p : PortId) : Prop :=
  ∃ g ∈ graphs, ∃ n, g.node? id = some n ∧ p ∈ n.portIds

section Edit

variable {g g' : Graph}

theorem Edit.reached (hg : g.Reached) (h : g.Edit g') : g'.Reached := by
  cases h with
  | addNode hs hn _ h => exact .addNode hg hs hn h
  | removeNode h => exact .removeNode hg h
  | addEdge h => exact .addEdge hg h
  | removeEdge p q => exact .removeEdge hg p q
  | write h => exact .write hg h
  | setPortType h => exact .setPortType hg h

/-- The ports of a graph that is changed are ports that it had, each at its node, or they are new. -/
def Inherits (g g' : Graph) : Prop :=
  g.supply.next ≤ g'.supply.next ∧ ∀ {id : NodeId} {n' : Node} {p : PortId}, g'.node? id = some n' → p ∈ n'.portIds →
    (∃ n, g.node? id = some n ∧ p ∈ n.portIds) ∨ ¬ g.supply.Used p

theorem Inherits.of_node? (hs : g'.supply = g.supply)
    (hnode : ∀ {id : NodeId} {n : Node}, g'.node? id = some n → g.node? id = some n) : g.Inherits g' :=
  ⟨hs ▸ le_rfl, fun hn hp => Or.inl ⟨_, hnode hn, hp⟩⟩

/-- A node that changes inherits its own ports. -/
theorem inherits_evolve (hg : g.Identified) {n n' : Node} {s' : Supply} (hn : g.node? n.id = some n)
    (h : n.Renews g.supply s' n') : g.Inherits (g.evolve n' s') := by
  refine ⟨h.le, fun {id m p} hm hp => ?_⟩
  rw [node?_evolve, h.id] at hm
  split_ifs at hm with heq
  · cases hm
    refine ((h.renews (hg.ordered hn)).mem p hp).imp (fun hold => ⟨n, heq ▸ hn, hold⟩) fun hnew hused => ?_
    exact absurd hused (not_lt.2 hnew.1)
  · exact Or.inl ⟨m, hm, hp⟩

theorem supply_unlinkAll (g : Graph) (es : List Edge) : (es.foldl unlink g).supply = g.supply := by
  induction es generalizing g with
  | nil => rfl
  | cons e rest ih => exact ih (g.unlink e)

/-- No change passes a port on from a node to another one. -/
theorem Edit.inherits (hg : g.Regular) (h : g.Edit g') : g.Inherits g' := by
  cases h with
  | @addNode _ n s hs hn hnew h =>
    have hnode := node?_addNode h
    obtain ⟨-, rfl⟩ := addNode_eq_ok h
    refine ⟨hs, fun {id m p} hm hp => ?_⟩
    rw [hnode] at hm
    split_ifs at hm
    · cases hm
      exact Or.inr (hnew p hp)
    · exact Or.inl ⟨m, hm, hp⟩
  | @removeNode _ id _ h =>
    obtain ⟨es, -, rfl⟩ := removeNode_eq_ok h
    refine .of_node? (supply_unlinkAll g es) fun {id' m} hm => ?_
    rw [node?, nodes_unlinkAll, Table.find?_erase] at hm
    split_ifs at hm
    exact hm
  | addEdge h =>
    obtain ⟨-, -, -, -, -, -, -, -, rfl⟩ := addEdge_eq_ok h
    exact .of_node? rfl fun hm => hm
  | removeEdge p q =>
    unfold Graph.removeEdge
    dsimp only
    split_ifs
    · exact .of_node? rfl fun hm => hm
    · exact .of_node? rfl fun hm => hm
  | write h =>
    obtain ⟨owner, n, n', s', -, hn, hw, rfl⟩ := write_eq_ok h
    obtain rfl := hg.named hn
    have hi := inherits_evolve hg.toIdentified hn (Node.evolves_write hw).toRenews
    exact ⟨by rw [reindex_supply]; exact hi.1, fun hm => hi.2 (by rwa [node?_reindex] at hm)⟩
  | setPortType h =>
    obtain ⟨owner, n, n', s', -, hn, hset, hcheck⟩ := setPortType_eq_ok h
    obtain rfl := hg.named hn
    obtain ⟨-, -, rfl⟩ := checkEdges_eq_ok hcheck
    have hi := inherits_evolve hg.toIdentified hn (Node.renews_setPortType (hg.ordered hn) (hg.distinct hn) hset)
    refine ⟨by dsimp only; rw [reindex_supply]; exact hi.1, fun {id m p} hm => hi.2 ?_⟩
    change ((g.evolve n' s').reindex n.id).node? id = some m at hm
    rwa [node?_reindex] at hm

end Edit

section History

variable {past : List Graph} {g : Graph} {id id' : NodeId} {p : PortId}

theorem heldBy_cons {g : Graph} {graphs : List Graph} : HeldBy (g :: graphs) id p ↔
    (∃ n, g.node? id = some n ∧ p ∈ n.portIds) ∨ HeldBy graphs id p := by
  simp only [HeldBy, List.exists_mem_cons_iff]

theorem History.reached (h : History past g) : g.Reached := by
  induction h with
  | start s => exact .empty s
  | edit _ hedit ih => exact hedit.reached ih

/-- A port that a node had was handed out. -/
theorem History.used (h : History past g) (hp : HeldBy (g :: past) id p) : g.supply.Used p := by
  induction h with
  | start s =>
    obtain ⟨n, hn, -⟩ | ⟨_, hmem, -⟩ := heldBy_cons.1 hp
    · cases hn
    · cases hmem
  | edit h hedit ih =>
    have hreg := h.reached.regular
    obtain ⟨n, hn, hp⟩ | hp := heldBy_cons.1 hp
    · exact (hedit.reached h.reached).regular.used hn p hp
    · exact (ih hp).mono (hedit.inherits hreg).1

/-- **A port belongs to one node for all time.** -/
theorem History.holder_unique (h : History past g) (hp : HeldBy (g :: past) id p) (hp' : HeldBy (g :: past) id' p) :
    id = id' := by
  induction h with
  | start s =>
    obtain ⟨n, hn, -⟩ | ⟨_, hmem, -⟩ := heldBy_cons.1 hp
    · cases hn
    · cases hmem
  | @edit past g g' h hedit ih =>
    -- a port of the changed graph that belonged to a node before still belongs to that node
    have hold : ∀ {i : NodeId}, (∃ n, g'.node? i = some n ∧ p ∈ n.portIds) → g.supply.Used p → HeldBy (g :: past) i p := by
      rintro i ⟨n, hn, hp⟩ hused
      exact heldBy_cons.2 (((hedit.inherits h.reached.regular).2 hn hp).imp_right fun hnew => absurd hused hnew)
    rcases heldBy_cons.1 hp with hnow | hp <;> rcases heldBy_cons.1 hp' with hnow' | hp'
    · obtain ⟨n, hn, hp⟩ := hnow
      obtain ⟨n', hn', hp'⟩ := hnow'
      by_contra hne
      exact (hedit.reached h.reached).regular.apart hn hn' hne hp hp'
    · exact ih (hold hnow (h.used hp')) hp'
    · exact ih hp (hold hnow' (h.used hp))
    · exact ih hp hp'

end History

/-! ### The edges that are left -/

/-- A port occurs among the edges, in an index of edges or among the flags. -/
def Mentions (g : Graph) (p : PortId) : Prop :=
  (∃ e ∈ g.edges ++ g.edgeSet ++ g.flagged, e.HasEnd p) ∨ Table.contains p g.outEdges = true ∨
    Table.contains p g.inEdges = true ∨ ∃ q, p ∈ g.outgoing q ∨ p ∈ g.incoming q

/-- An index that agrees with the edges has no entry for any other port. -/
theorem exists_of_contains {index : Table PortId (List PortId)} (hfilled : Filled index) {p : PortId}
    (h : Table.contains p index = true) : ∃ q, q ∈ (Table.find? p index).getD [] := by
  obtain ⟨qs, hqs⟩ := Option.isSome_iff_exists.1 h
  obtain ⟨q, hq⟩ := List.exists_mem_of_ne_nil qs fun hnil => hfilled p (hnil ▸ hqs)
  exact ⟨q, by rwa [hqs]⟩

/-- What an index or a flag mentions is an end of an edge. -/
theorem mentions_iff {g : Graph} (hg : g.Reached) {p : PortId} : g.Mentions p ↔ ∃ e ∈ g.edges, e.HasEnd p := by
  have hagrees := hg.indexes_agree
  have hout : ∀ {p q : PortId}, q ∈ g.outgoing p → ⟨p, q⟩ ∈ g.edges := fun h =>
    Edge.mem_targetsOf.1 (hagrees.outgoing _ ▸ h)
  have hin : ∀ {p q : PortId}, p ∈ g.incoming q → ⟨p, q⟩ ∈ g.edges := fun h =>
    Edge.mem_sourcesOf.1 (hagrees.incoming _ ▸ h)
  constructor
  · rintro (⟨e, he, hp⟩ | hp | hp | ⟨q, hp | hp⟩)
    · refine ⟨e, ?_, hp⟩
      rcases List.mem_append.1 he with he | he
      · exact (List.mem_append.1 he).elim id (hagrees.edgeSet e).1
      · exact (hagrees.edgeSet e).1 (hagrees.flagged e he)
    · obtain ⟨q, hq⟩ := exists_of_contains hg.filled.2 hp
      exact ⟨_, hout hq, Or.inl rfl⟩
    · obtain ⟨q, hq⟩ := exists_of_contains hg.filled.1 hp
      exact ⟨_, hin hq, Or.inr rfl⟩
    · exact ⟨_, hout hp, Or.inr rfl⟩
    · exact ⟨_, hin hp, Or.inl rfl⟩
  · rintro ⟨e, he, hp⟩
    exact Or.inl ⟨e, List.mem_append_left _ (List.mem_append_left _ he), hp⟩

theorem edges_unlinkAll (g : Graph) (es : List Edge) :
    (es.foldl unlink g).edges = g.edges.filter (· ∉ es) ∧ (es.foldl unlink g).flagged = g.flagged.filter (· ∉ es) := by
  induction es generalizing g with
  | nil => simp
  | cons e rest ih =>
    obtain ⟨hedges, hflagged⟩ := ih (g.unlink e)
    rw [List.foldl_cons, hedges, hflagged, unlink, List.filter_filter, List.filter_filter]
    exact ⟨List.filter_congr fun e' _ => by simp [Bool.and_comm], List.filter_congr fun e' _ => by simp [Bool.and_comm]⟩

/-- A node that is there is removed with the edges at its ports, and the other edges and flags keep their order. -/
theorem removeNode_of_node? {g : Graph} (hflags : ∀ e ∈ g.flagged, e ∈ g.edges) {id : NodeId} {n : Node}
    (hn : g.node? id = some n) : ∃ g', g.removeNode id = .ok (n, g') ∧
      g'.edges = g.edges.filter (¬ n.Touches ·) ∧ g'.flagged = g.flagged.filter (¬ n.Touches ·) := by
  have hremove : ∃ g', g.removeNode id = .ok (n, g') ∧
      g'.edges = ((g.edges.filter (n.Touches ·)).foldl unlink g).edges ∧
      g'.flagged = ((g.edges.filter (n.Touches ·)).foldl unlink g).flagged := by
    have htouching : (g.edges.filter fun e => n.portIds.contains e.source || n.portIds.contains e.target) =
        g.edges.filter (n.Touches ·) :=
      List.filter_congr fun e _ => by rw [Bool.eq_iff_iff, decide_eq_true_iff]; simp [Node.Touches]
    simp only [Graph.removeNode, hn, htouching]
    exact ⟨_, rfl, rfl, rfl⟩
  obtain ⟨g', hok, hedges, hflagged⟩ := hremove
  obtain ⟨hleft, hflags'⟩ := edges_unlinkAll g (g.edges.filter (n.Touches ·))
  refine ⟨g', hok, ?_, ?_⟩
  · rw [hedges, hleft]
    exact List.filter_congr fun e he => by simp [List.mem_filter, he]
  · rw [hflagged, hflags']
    exact List.filter_congr fun e he => by simp [List.mem_filter, hflags e he]

/-- An edge at a former port of a node has a missing end, unless it is an edge at a port of the node. -/
theorem History.stranded {past : List Graph} {g : Graph} (h : History past g) {id : NodeId} {n : Node}
    (hn : g.node? id = some n) {e : Edge} {p : PortId} (hend : e.HasEnd p) (hp : HeldBy (g :: past) id p)
    (htouches : ¬ n.Touches e) : g.isStranded e = true := by
  have hmissing : p ∉ n.portIds → g.port? p = none := by
    intro hnot
    by_contra hsome
    obtain ⟨id', n', hn', hp'⟩ := h.reached.regular.port?_isSome.1 (Option.isSome_iff_ne_none.2 hsome)
    obtain rfl := h.holder_unique hp (heldBy_cons.2 (Or.inl ⟨n', hn', hp'⟩))
    obtain rfl : n = n' := Option.some.inj (hn.symm.trans hn')
    exact hnot hp'
  obtain ⟨hsource, htarget⟩ := not_or.1 htouches
  rcases hend with rfl | rfl
  · simp [isStranded, hmissing hsource]
  · simp [isStranded, hmissing htarget]

/-- **A node is removed with every edge at the ports that it has.** The other edges and the flags keep their order, and
nothing else is mentioned. An edge at a former port of the node stays if and only if no end is a port of the node; then
an end of the edge was missing before. Edges at ports that never belonged to the node stay as they are. -/
theorem History.removal {past : List Graph} {g : Graph} (h : History past g) {id : NodeId} {n : Node}
    (hn : g.node? id = some n) :
    ∃ g', g.removeNode id = .ok (n, g') ∧
      g'.edges = g.edges.filter (¬ n.Touches ·) ∧ g'.flagged = g.flagged.filter (¬ n.Touches ·) ∧
      (∀ p, g'.Mentions p ↔ ∃ e ∈ g'.edges, e.HasEnd p) ∧
      ((∀ p, HeldBy (g :: past) id p → ¬ g'.Mentions p) ↔
        ∀ e ∈ g.edges, ∀ p, e.HasEnd p → HeldBy (g :: past) id p → n.Touches e) ∧
      (∀ e ∈ g'.edges, ∀ p, e.HasEnd p → HeldBy (g :: past) id p → g.isStranded e = true) ∧
      ∀ e ∈ g.edges, (∀ p, e.HasEnd p → ¬ HeldBy (g :: past) id p) →
        e ∈ g'.edges ∧ (e ∈ g'.flagged ↔ e ∈ g.flagged) := by
  obtain ⟨g', hok, hedges, hflagged⟩ := removeNode_of_node? h.reached.indexed.flags hn
  have hleft : ∀ {e : Edge}, e ∈ g'.edges ↔ e ∈ g.edges ∧ ¬ n.Touches e := by
    intro e
    rw [hedges, List.mem_filter, decide_eq_true_eq]
  have hmentions : ∀ p, g'.Mentions p ↔ ∃ e ∈ g'.edges, e.HasEnd p := fun p =>
    mentions_iff (.removeNode h.reached hok)
  have hnow : ∀ {p : PortId}, p ∈ n.portIds → HeldBy (g :: past) id p := fun hp => heldBy_cons.2 (Or.inl ⟨n, hn, hp⟩)
  refine ⟨g', hok, hedges, hflagged, hmentions, ⟨fun hgone e he p hp hheld => ?_, fun hall p hheld hp => ?_⟩,
    fun e he p hp hheld => h.stranded hn hp hheld (hleft.1 he).2, fun e he hnever => ?_⟩
  · by_contra hnot
    exact hgone p hheld ((hmentions p).2 ⟨e, hleft.2 ⟨he, hnot⟩, hp⟩)
  · obtain ⟨e, he, hend⟩ := (hmentions p).1 hp
    exact (hleft.1 he).2 (hall e (hleft.1 he).1 p hend hheld)
  · have hnot : ¬ n.Touches e := by
      rintro (hp | hp)
      · exact hnever _ (Or.inl rfl) (hnow hp)
      · exact hnever _ (Or.inr rfl) (hnow hp)
    refine ⟨hleft.2 ⟨he, hnot⟩, ?_⟩
    rw [hflagged, List.mem_filter, decide_eq_true_eq, and_iff_left hnot]

/-! ### An edge that is left behind -/

/-- Another node with a list and with a place for an item. -/
def pickingTwin : Node × Supply :=
  Node.create ⟨2⟩ "twin" picking [] pickingNode.2

/-- The second item of the list of the first node goes to the second node. -/
def picked? : Except GraphError Graph := do
  let g ← ({ empty ⟨2⟩ with supply := pickingNode.2 } : Graph).addNode pickingNode.1
  let g ← ({ g with supply := pickingTwin.2 } : Graph).addNode pickingTwin.1
  let (_, g) ← g.write ⟨4⟩ (.array [.integer 1, .integer 2])
  g.addEdge ⟨11⟩ ⟨9⟩

/-- The two nodes with their edge. -/
def picked : Graph :=
  picked?.toOption.getD (empty ⟨0⟩)

/-- The list of the first node gets shorter, and the edge is left behind. -/
def dropped : Graph :=
  ((picked.write ⟨4⟩ (.array [.integer 1])).toOption.map Prod.snd).getD (empty ⟨0⟩)

/-- A new node may be added at any time. -/
theorem History.create {past : List Graph} {g g' : Graph} (hg : History past g) {id : NodeId} {label : String}
    {b : Behavior} {config : Config} (h : ({ g with supply := (Node.create id label b config g.supply).2 } :
      Graph).addNode (Node.create id label b config g.supply).1 = .ok g') : History (g :: past) g' := by
  have hfresh := Node.fresh_create id label b config g.supply
  refine .edit hg (.addNode hfresh.drawn.le (admits_of_fresh hg.reached.regular hfresh) (fun p hp hused => ?_) h)
  exact absurd hused (not_lt.2 ((hfresh.drawn.mem p hp).resolve_left List.not_mem_nil).1)

theorem history_dropped : ∃ past, History (picked :: past) dropped := by
  have h : picked? = .ok picked := rfl
  obtain ⟨g, hg, h⟩ := Except.bind_eq_ok.1 h
  obtain ⟨g', hg', h⟩ := Except.bind_eq_ok.1 h
  obtain ⟨⟨v, g''⟩, hg'', h⟩ := Except.bind_eq_ok.1 h
  have hfirst : History [empty ⟨2⟩] g := .create (.start ⟨2⟩) hg
  have hsupply : g.supply = pickingNode.2 := by rw [(addNode_eq_ok hg).2]
  have hboth : History [g, empty ⟨2⟩] g' := .create hfirst (by rw [hsupply]; exact hg')
  have hwrite : picked.write ⟨4⟩ (.array [.integer 1]) = .ok (.array [.integer 1], dropped) := rfl
  exact ⟨_, .edit (.edit (.edit hboth (.write hg'')) (.addEdge h)) (.write hwrite)⟩

/-- The port at the edge belonged to the first node, and the edge outlives it. -/
theorem removeNode_dropped : ∃ past n g', History past dropped ∧ HeldBy (dropped :: past) ⟨1⟩ ⟨11⟩ ∧
    dropped.removeNode ⟨1⟩ = .ok (n, g') ∧ g'.edges = [⟨⟨11⟩, ⟨9⟩⟩] ∧ g'.Mentions ⟨11⟩ := by
  obtain ⟨past, h⟩ := history_dropped
  have hfirst : (dropped.node? ⟨1⟩).map (fun n => dropped.edges.filter (¬ n.Touches ·)) = some [⟨⟨11⟩, ⟨9⟩⟩] := by
    decide +kernel
  obtain ⟨n, hn, hedges⟩ := Option.map_eq_some_iff.1 hfirst
  have hbefore : (picked.node? ⟨1⟩).any (fun n => n.portIds.contains ⟨11⟩) = true := by decide +kernel
  obtain ⟨m, hm, hport⟩ := (Option.any_eq_true _ _).1 hbefore
  have hheld : HeldBy (dropped :: picked :: past) ⟨1⟩ ⟨11⟩ :=
    heldBy_cons.2 (Or.inr (heldBy_cons.2 (Or.inl ⟨m, hm, List.contains_iff_mem.1 hport⟩)))
  obtain ⟨g', hok, hleft, -, hmentions, -⟩ := h.removal hn
  rw [hedges] at hleft
  exact ⟨_, n, g', h, hheld, hok, hleft,
    (hmentions _).2 ⟨_, by rw [hleft]; exact List.mem_singleton.2 rfl, Or.inl rfl⟩⟩

end Graph

end Dataflow
