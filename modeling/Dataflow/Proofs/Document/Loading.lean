import Dataflow.Registry
import Dataflow.Proofs.Document.Ports
import Dataflow.Proofs.Graph.Editing

/-!
# Loading a saved graph

* `Resolver.Rebuilds resolver n` says that a resolver makes a node for the document of `n` that has the same port
  declarations; `Registry.rebuilds` says when a registry does;
* `GraphDocument.addNodes_ofNode`: the nodes of a saved graph are loaded, with the ports that they had;
* `GraphDocument.addEdges_cases`: so are edges, up to the first one with a missing end;
* `Graph.Built.restore_ofGraph`: a saved graph is loaded if and only if no edge has a missing end.

An element port that a write takes away leaves its edges behind. Such an edge is saved with the graph, but loading
accepts only edges whose ends are there.
-/

namespace Dataflow

/-! ### Nodes that are made again -/

/-- The node `m` has the identifier and the port declarations of `n`, and as every node the places that it declares,
with ports on their sides. -/
structure Node.Remakes (n m : Node) : Prop where
  id : m.id = n.id
  ordered : m.Ordered
  side : ∀ {slot : Slot} {p : Port}, m.portAt? slot = some p → p.direction = slot.side
  declared : m.Declared
  ports : m.behavior.ports = n.behavior.ports

/-- A resolver makes a node for a document, whatever identifiers are left. -/
def Resolver.Rebuilds (resolver : Resolver) (n : Node) : Prop :=
  ∀ s, ∃ m s', resolver n.typeId n.id n.label n.config s = .ok (m, s') ∧ n.Remakes m

/-- A registry that finds the same port declarations in the settings of a node makes it again. -/
theorem Registry.rebuilds {registry : Registry} {n : Node} {b : Behavior}
    (hb : registry.behavior n.typeId n.config = .ok b) (hports : b.ports = n.behavior.ports) :
    Resolver.Rebuilds registry.construct n := by
  intro s
  obtain ⟨hid, -, -, hbehavior⟩ := Node.create_fixed n.id n.label b n.config s
  have hfresh := Node.fresh_create n.id n.label b n.config s
  refine ⟨_, _, by rw [construct, hb]; rfl, hid, hfresh.sound.ordered, fun {slot p} hp => ?_, hfresh.declared, ?_⟩
  · exact (hfresh.legal slot p hp).self.direction
  · rw [hbehavior, hports]

theorem Node.Remakes.occupied {n m : Node} (h : n.Remakes m) (hn : n.Declared) (slot : Slot) :
    (m.portAt? slot).isSome ↔ (n.portAt? slot).isSome := by
  rw [h.declared slot, hn slot, declaredSlots, declaredSlots, h.ports]

/-- The ports of a saved node are loaded into a node that was made again. -/
theorem Node.Remakes.resumed {n m : Node} (h : n.Remakes m) (hn : n.Ordered) (hdecl : n.Declared)
    (hstore : ∀ {slot : Slot} {top : Port}, n.portAt? slot = some top → Port.Every Port.Storable top) :
    ∃ m', NodeDocument.applyPorts (NodeDocument.ofNode n).slots m = .ok m' ∧ n.Resumed m' := by
  obtain ⟨m', happly, hid, -, hord, hat⟩ :=
    NodeDocument.applyPorts_ofNode hn hstore h.ordered (h.occupied hdecl)
  refine ⟨m', happly, hid.trans h.id, hord, fun slot => ?_, fun {slot top} htop => ?_⟩
  · rw [hat]
    have hplace := h.occupied hdecl slot
    cases hp : n.portAt? slot with
    | none => rfl
    | some p =>
      obtain ⟨q, hq⟩ := Option.isSome_iff_exists.1 (hplace.2 (by rw [hp]; rfl))
      simp [hq]
  · rw [hat] at htop
    obtain ⟨p, -, htop⟩ := Option.bind_eq_some_iff.1 htop
    obtain ⟨q, hq, rfl⟩ := Option.map_eq_some_iff.1 htop
    rw [← h.side hq]
    exact Port.side_resume q q.name p

namespace Graph

/-! ### Nodes -/

/-- What a graph holds into which nodes were loaded: these nodes, and no edges. -/
structure Loads (ns : List Node) (g : Graph) : Prop where
  loaded : ∀ n ∈ ns, ∃ m, g.node? n.id = some m ∧ n.Resumed m
  known : ∀ {id : NodeId}, (g.node? id).isSome → ∃ n ∈ ns, n.id = id
  owned : ∀ {p : PortId} {id : NodeId}, g.ownerOf? p = some id ↔ ∃ n ∈ ns, n.id = id ∧ p ∈ n.portIds
  edgeless : g.edgeSet = []

theorem loads_empty (s : Supply) : (empty s).Loads [] where
  loaded _ hn := absurd hn List.not_mem_nil
  known h := by cases h
  owned {_ _} := ⟨fun h => (by cases h), fun ⟨_, hn, _⟩ => absurd hn List.not_mem_nil⟩
  edgeless := rfl

/-- One more node is loaded. -/
theorem Loads.addNode {ns : List Node} {g : Graph} (hg : g.Loads ns) {n m : Node} (hm : n.Resumed m) (hn : n.Ordered)
    (hnew : ∀ n' ∈ ns, n'.id ≠ n.id ∧ n'.portIds.Disjoint n.portIds) (s : Supply) :
    ∃ g', ({ g with supply := s } : Graph).addNode m = .ok g' ∧ g'.Loads (ns ++ [n]) := by
  have hnone : g.node? n.id = none := by
    by_contra hsome
    obtain ⟨n', hn', hid⟩ := hg.known (Option.isSome_iff_ne_none.2 hsome)
    exact (hnew n' hn').1 hid
  have hadd : ∃ g', ({ g with supply := s } : Graph).addNode m = .ok g' := by
    refine ⟨_, if_neg ?_⟩
    rw [hm.id, Table.contains, show Table.find? n.id g.nodes = none from hnone]
    exact Bool.false_ne_true
  obtain ⟨g', h⟩ := hadd
  have hnode : ∀ id, g'.node? id = if n.id = id then some m else g.node? id := fun id => by
    rw [node?_addNode h, hm.id]
    rfl
  have hedgeless : g'.edgeSet = [] := by
    rw [(addNode_eq_ok h).2]
    exact hg.edgeless
  refine ⟨g', h, fun n' hn' => ?_, fun {id} hid => ?_, fun {p id} => ?_, hedgeless⟩
  · rcases List.mem_append.1 hn' with hn' | hn'
    · rw [hnode, if_neg (Ne.symm (hnew n' hn').1)]
      exact hg.loaded n' hn'
    · obtain rfl := List.mem_singleton.1 hn'
      exact ⟨m, by rw [hnode, if_pos rfl], hm⟩
  · rw [hnode] at hid
    split_ifs at hid with heq
    · exact ⟨n, List.mem_append_right _ List.mem_cons_self, heq⟩
    · obtain ⟨n', hn', hid'⟩ := hg.known hid
      exact ⟨n', List.mem_append_left _ hn', hid'⟩
  · rw [ownerOf?_addNode h, hm.id]
    simp only [hm.mem_portIds hn, List.mem_append, List.mem_singleton, or_and_right, exists_or, exists_eq_left]
    split_ifs with hp
    · -- the ports of the nodes that are there are apart from it
      constructor
      · intro heq
        exact Or.inr ⟨Option.some.inj heq, hp⟩
      · rintro (⟨n', hn', -, hp'⟩ | ⟨heq, -⟩)
        · exact absurd hp ((hnew n' hn').2 hp')
        · exact congrArg some heq
    · rw [show ({ g with supply := s } : Graph).ownerOf? p = g.ownerOf? p from rfl, hg.owned]
      exact ⟨Or.inl, fun h => h.resolve_right fun hself => hp hself.2⟩

end Graph

/-! ### The nodes of a document -/

namespace GraphDocument

/-- Saved nodes are loaded, one after the other. -/
theorem addNodes_ofNode {resolver : Resolver} {done rest : List Node} {g : Graph} (hg : g.Loads done)
    (hrest : ∀ n ∈ rest, n.Ordered ∧ n.Declared ∧ resolver.Rebuilds n ∧
      ∀ {slot : Slot} {top : Port}, n.portAt? slot = some top → Port.Every Port.Storable top)
    (hapart : (done ++ rest).Pairwise fun n n' => n.id ≠ n'.id ∧ n.portIds.Disjoint n'.portIds) :
    ∃ g', addNodes resolver (rest.map .ofNode) g = .ok g' ∧ g'.Loads (done ++ rest) := by
  induction rest generalizing done g with
  | nil => exact ⟨g, rfl, by rwa [List.append_nil]⟩
  | cons n rest ih =>
    obtain ⟨⟨hord, hdecl, hrebuild, hstore⟩, hrest⟩ := List.forall_mem_cons.1 hrest
    obtain ⟨m, s', hmade, hremakes⟩ := hrebuild g.supply
    obtain ⟨m', happly, hresumed⟩ := hremakes.resumed hord hdecl hstore
    have hnew : ∀ n' ∈ done, n'.id ≠ n.id ∧ n'.portIds.Disjoint n.portIds := fun n' hn' =>
      (List.pairwise_append.1 hapart).2.2 n' hn' n List.mem_cons_self
    obtain ⟨g₁, hadd, hg₁⟩ := hg.addNode hresumed hord hnew s'
    obtain ⟨g', hnodes, hg'⟩ := ih hg₁ hrest (by rwa [List.append_assoc])
    refine ⟨g', ?_, by rwa [List.append_assoc] at hg'⟩
    rw [List.map_cons, addNodes]
    change (resolver n.typeId n.id n.label n.config g.supply >>= _) = _
    rw [hmade]
    change (NodeDocument.applyPorts (NodeDocument.ofNode n).slots m >>= _) = _
    rw [happly]
    change (({ g with supply := s' } : Graph).addNode m' >>= _) = _
    rw [hadd]
    exact hnodes

end GraphDocument

/-! ### The ports of the loaded nodes -/

namespace Graph

section Loaded

variable {g g' : Graph} {p : PortId} {a : Port}

theorem Loads.port?_isSome (hg : g.Regular) (hl : g'.Loads g.nodeList) :
    (g'.port? p).isSome ↔ (g.port? p).isSome := by
  rw [hg.port?_isSome]
  constructor
  · intro h
    obtain ⟨b, hb⟩ := Option.isSome_iff_exists.1 h
    obtain ⟨id, m, howner, -, -⟩ := port?_eq_some hb
    obtain ⟨n, hn, -, hp⟩ := hl.owned.1 howner
    exact ⟨n.id, n, (mem_nodeList hg.toIdentified).1 hn, hp⟩
  · rintro ⟨id, n, hn, hp⟩
    obtain rfl := hg.named hn
    have hlisted := (mem_nodeList hg.toIdentified).2 hn
    obtain ⟨m, hm, hresumed⟩ := hl.loaded n hlisted
    have howner := hl.owned.2 ⟨n, hlisted, rfl, hp⟩
    obtain ⟨b, hb⟩ := Option.isSome_iff_exists.1
      (Node.port?_isSome.2 ((hresumed.mem_portIds (hg.ordered hn)).2 hp))
    simp [port?, howner, hm, hb]

/-- A loaded port is on the side that the port was on. -/
theorem Loads.direction (hg : g.Regular) (hl : g'.Loads g.nodeList) (ha : g'.port? p = some a) :
    ∃ n, g.node? n.id = some n ∧ p ∈ n.portIds ∧ (p ∈ n.outputIds ↔ a.direction = .output) := by
  obtain ⟨id, m, howner, hm, hfound⟩ := port?_eq_some ha
  obtain ⟨n, hlisted, rfl, hp⟩ := hl.owned.1 howner
  obtain ⟨m', hm', hresumed⟩ := hl.loaded n hlisted
  obtain rfl : m = m' := Option.some.inj (hm.symm.trans hm')
  have hn := (mem_nodeList hg.toIdentified).1 hlisted
  obtain ⟨slot, top, htop, hfind⟩ := Node.port?_eq_some hresumed.ordered hfound
  obtain ⟨hmem, rfl⟩ := Port.find?_some_mem hfind
  -- the saved port was below the same place
  have hids := hresumed.ids slot
  rw [htop, Option.map_some] at hids
  obtain ⟨top', htop', hsame⟩ := Option.map_eq_some_iff.1 hids.symm
  have hin : a.id ∈ top'.ids := by
    rw [hsame]
    exact Port.mem_ids_iff.2 ⟨a, hmem, rfl⟩
  refine ⟨n, hn, hp, ?_⟩
  rw [Node.mem_outputIds_iff_isOutput (hg.ordered hn) (hg.distinct hn) htop' hin, hresumed.side htop a hmem,
    Slot.side_eq_output]

/-- A loaded edge runs from the output side of a node to the input side of one. -/
theorem Loads.directions (hg : g.Regular) (hl : g'.Loads g.nodeList) {e : Edge} (he : e ∈ g.edges) {b : Port}
    (ha : g'.port? e.source = some a) (hb : g'.port? e.target = some b) :
    a.direction = .output ∧ b.direction = .input := by
  obtain ⟨n, hn, hp, hdir⟩ := hl.direction hg ha
  obtain ⟨n', hn', -, hdir'⟩ := hl.direction hg hb
  refine ⟨hdir.1 ((hg.sides he hn).1 hp), ?_⟩
  have hin : b.direction ≠ .output := fun hout => (hg.sides he hn').2 (hdir'.2 hout)
  cases hcase : b.direction with
  | input => rfl
  | output => exact absurd hcase hin

end Loaded

/-! ### Edges -/

/-- Edges that a graph takes as long as their ends are there: each is new, and leads from an output to an input. -/
structure Joinable (g : Graph) (es : List Edge) : Prop where
  simple : es.Nodup
  new : ∀ e ∈ es, e ∉ g.edgeSet
  directions : ∀ e ∈ es, ∀ {a b : Port}, g.port? e.source = some a → g.port? e.target = some b →
    a.direction = .output ∧ b.direction = .input

/-- The graph that has taken the first edge takes the others. -/
theorem Joinable.tail {g g' : Graph} {e : Edge} {es : List Edge} (h : g.Joinable (e :: es))
    (hset : g'.edgeSet = insertNew e g.edgeSet) (hports : ∀ p, g'.port? p = g.port? p) : g'.Joinable es := by
  obtain ⟨hne, hsimple⟩ := List.nodup_cons.1 h.simple
  refine ⟨hsimple, fun e' he' hmem => ?_, fun e' he' {a b} ha hb => ?_⟩
  · rw [hset] at hmem
    rcases mem_insertNew.1 hmem with rfl | hmem
    · exact hne he'
    · exact h.new e' (List.mem_cons_of_mem _ he') hmem
  · rw [hports] at ha hb
    exact h.directions e' (List.mem_cons_of_mem _ he') ha hb

/-- An edge whose ends are there is added, or refused for its types alone. -/
theorem Joinable.addEdge_cases {g : Graph} {e : Edge} {es : List Edge} (h : g.Joinable (e :: es))
    (hends : g.isStranded e = false) :
    g.addEdge e.source e.target = .ok (g.link e) ∨
      ∃ t t', g.addEdge e.source e.target = .error (.incompatibleEdge e t t') := by
  simp only [isStranded, Bool.or_eq_false_iff, Option.isNone_eq_false_iff] at hends
  obtain ⟨a, ha⟩ := Option.isSome_iff_exists.1 hends.1
  obtain ⟨b, hb⟩ := Option.isSome_iff_exists.1 hends.2
  obtain ⟨hout, hin⟩ := h.directions e List.mem_cons_self ha hb
  have hdir : ¬ (a.direction ≠ .output ∨ b.direction ≠ .input) := by simp [hout, hin]
  have hnew : g.edgeSet.contains e = false := by simpa using h.new e List.mem_cons_self
  unfold addEdge
  simp only [ha, hb, if_neg hdir, hnew]
  cases a.canConnect b with
  | false => exact Or.inr ⟨a.dataType, b.dataType, rfl⟩
  | true => exact Or.inl rfl

/-- An edge with a missing end is refused for that end. -/
theorem addEdge_stranded {g : Graph} {e : Edge} (h : g.isStranded e = true) :
    ∃ p, (p = e.source ∨ p = e.target) ∧ g.port? p = none ∧
      g.addEdge e.source e.target = .error (.portNotFound p) := by
  unfold addEdge
  cases ha : g.port? e.source with
  | none => exact ⟨e.source, Or.inl rfl, ha, rfl⟩
  | some a =>
    cases hb : g.port? e.target with
    | none => exact ⟨e.target, Or.inr rfl, hb, rfl⟩
    | some b => simp [isStranded, ha, hb] at h

end Graph

namespace GraphDocument

/-- Edges are added up to the first one with a missing end. -/
theorem addEdges_cases {es : List Edge} {g : Graph} (h : g.Joinable es) :
    ((∃ g', addEdges es g = .ok g') ∧ ∀ e ∈ es, g.isStranded e = false) ∨
      ∃ e ∈ es, ∃ p, (p = e.source ∨ p = e.target) ∧ g.port? p = none ∧
        addEdges es g = .error (.invalidDocument ("edge rejected: " ++ (GraphError.portNotFound p).message)) := by
  induction es generalizing g with
  | nil => exact Or.inl ⟨⟨g, rfl⟩, fun e he => absurd he List.not_mem_nil⟩
  | cons e rest ih =>
    -- what is left to do once the edge is there, flagged or not
    have hnext : ∀ g₁ : Graph, g₁.edgeSet = insertNew e g.edgeSet → (∀ p, g₁.port? p = g.port? p) →
        g.isStranded e = false → addEdges (e :: rest) g = addEdges rest g₁ →
        ((∃ g', addEdges (e :: rest) g = .ok g') ∧ ∀ e' ∈ e :: rest, g.isStranded e' = false) ∨
          ∃ e' ∈ e :: rest, ∃ p, (p = e'.source ∨ p = e'.target) ∧ g.port? p = none ∧ addEdges (e :: rest) g =
            .error (.invalidDocument ("edge rejected: " ++ (GraphError.portNotFound p).message)) := by
      intro g₁ hset hports hends heq
      rw [heq]
      rcases ih (h.tail hset hports) with ⟨hok, hall⟩ | ⟨e', he', p, hp, hmissing, herror⟩
      · refine Or.inl ⟨hok, List.forall_mem_cons.2 ⟨hends, fun e' he' => ?_⟩⟩
        have := hall e' he'
        rwa [Graph.isStranded, hports, hports] at this
      · rw [hports] at hmissing
        exact Or.inr ⟨e', List.mem_cons_of_mem _ he', p, hp, hmissing, herror⟩
    by_cases hends : g.isStranded e = true
    · obtain ⟨p, hp, hmissing, hadd⟩ := Graph.addEdge_stranded hends
      exact Or.inr ⟨e, List.mem_cons_self, p, hp, hmissing, by simp only [addEdges, hadd]⟩
    · replace hends := Bool.eq_false_iff.2 hends
      rcases h.addEdge_cases hends with hadd | ⟨t, t', hadd⟩
      · exact hnext (g.link e) rfl (fun _ => rfl) hends (by simp only [addEdges, hadd])
      · exact hnext (g.linkFlagged e) rfl (fun _ => rfl) hends (by simp only [addEdges, hadd])

end GraphDocument

/-! ### Saved graphs -/

namespace Graph

/-- The values that are stored in a graph, those of element ports included. -/
def stored (g : Graph) : List Value :=
  g.nodeList.flatMap fun n => n.ports.flatMap fun top => top.flatten.map Port.data

/-- No number that is stored in a graph is infinite or `nan`. -/
def Finite (g : Graph) : Prop :=
  ∀ v ∈ g.stored, v.AllFinite

theorem Finite.storable {g : Graph} (h : g.Finite) (hg : g.Regular) {n : Node} (hn : n ∈ g.nodeList) {slot : Slot}
    {top : Port} (htop : n.portAt? slot = some top) : Port.Every Port.Storable top := by
  have hnode := (mem_nodeList hg.toIdentified).1 hn
  have hport : top ∈ n.ports := by
    rw [Node.ports_eq]
    exact List.mem_map.2 ⟨_, (Node.mem_entries (hg.ordered hnode)).2 htop, rfl⟩
  intro p hp
  refine ⟨(hg.legal hnode slot top htop p hp).typed, h _ (List.mem_flatMap.2 ⟨n, hn, ?_⟩)⟩
  exact List.mem_flatMap.2 ⟨top, hport, List.mem_map.2 ⟨p, hp, rfl⟩⟩

/-- **A saved graph is loaded if and only if no edge has a missing end.** Of a graph that was built, whose numbers are
finite, every node and every other edge is accepted, also an edge that is flagged, by every resolver that makes the
nodes again. If the document is refused, it is for the missing end of an edge. -/
theorem Built.restore_ofGraph {g : Graph} (hg : g.Built) (hfinite : g.Finite) {resolver : Resolver}
    (hresolver : ∀ n ∈ g.nodeList, resolver.Rebuilds n) (s : Supply) :
    ((∃ g', (GraphDocument.ofGraph g).restore resolver s = .ok g') ↔ ∀ e ∈ g.edges, g.isStranded e = false) ∧
      ∀ error, (GraphDocument.ofGraph g).restore resolver s = .error error →
        ∃ e ∈ g.edges, ∃ p, (p = e.source ∨ p = e.target) ∧ g.port? p = none ∧
          error = .invalidDocument ("edge rejected: " ++ (GraphError.portNotFound p).message) := by
  have hreg := hg.regular
  have hid := hreg.toIdentified
  have hlisted : ∀ n ∈ g.nodeList, n.Ordered ∧ n.Declared ∧ resolver.Rebuilds n ∧
      ∀ {slot : Slot} {top : Port}, n.portAt? slot = some top → Port.Every Port.Storable top := by
    intro n hn
    have hnode := (mem_nodeList hid).1 hn
    exact ⟨hreg.ordered hnode, hreg.declared hnode, hresolver n hn, hfinite.storable hreg hn⟩
  obtain ⟨g₁, hnodes, hloads⟩ := GraphDocument.addNodes_ofNode (loads_empty s) hlisted hid.pairwise_nodeList
  rw [List.nil_append] at hloads
  have hrestore : (GraphDocument.ofGraph g).restore resolver s = GraphDocument.addEdges g.edges g₁ := by
    change (GraphDocument.addNodes resolver (g.nodeList.map .ofNode) (Graph.empty s) >>= _) = _
    rw [hnodes]
    rfl
  have hmissing : ∀ p, g₁.port? p = none ↔ g.port? p = none := fun p => by
    rw [← Option.not_isSome_iff_eq_none, ← Option.not_isSome_iff_eq_none, hloads.port?_isSome hreg]
  have hstranded : ∀ e, g₁.isStranded e = g.isStranded e := fun e => by
    rw [Bool.eq_iff_iff]
    simp only [isStranded, Bool.or_eq_true, Option.isNone_iff_eq_none, hmissing]
  have hjoin : g₁.Joinable g.edges :=
    ⟨hreg.simple, fun e _ => by rw [hloads.edgeless]; exact List.not_mem_nil,
      fun e he => hloads.directions hreg he⟩
  rw [hrestore]
  rcases GraphDocument.addEdges_cases hjoin with ⟨⟨g', hok⟩, hall⟩ | ⟨e, he, p, hp, hport, herror⟩
  · refine ⟨⟨fun _ e he => hstranded e ▸ hall e he, fun _ => ⟨g', hok⟩⟩, fun error herror => ?_⟩
    rw [hok] at herror
    cases herror
  · rw [hmissing] at hport
    refine ⟨⟨fun ⟨g', hok⟩ => ?_, fun hall => ?_⟩, fun error hrefused => ⟨e, he, p, hp, hport, ?_⟩⟩
    · rw [herror] at hok
      cases hok
    · have hends := hall e he
      simp only [isStranded, Bool.or_eq_false_iff, Option.isNone_eq_false_iff] at hends
      rcases hp with rfl | rfl
      · simp [hport] at hends
      · simp [hport] at hends
    · exact Except.error.inj (hrefused.symm.trans herror)

/-! ### A graph that is not loaded -/

/-- A behavior with a list and with a place for one of its items. -/
def picking : Behavior :=
  { typeId := "picking"
    ports := [⟨"items", .output, .data, .array⟩, ⟨"item", .input, .data, .integer⟩]
    activate := fun _ _ => .done .empty }

/-- A registry that knows the behavior. -/
def pickingRegistry : Registry :=
  .ofTypes [{ typeId := "picking", create := fun _ => .ok picking, metadata := .standard }]

/-- A node with the behavior. -/
def pickingNode : Node × Supply :=
  Node.create ⟨1⟩ "picking" picking [] ⟨2⟩

/-- The second item of the list is connected, and then the list gets shorter. -/
def shortened? : Except GraphError Graph := do
  let g ← ({ empty ⟨2⟩ with supply := pickingNode.2 } : Graph).addNode pickingNode.1
  let (_, g) ← g.write ⟨4⟩ (.array [.integer 1, .integer 2])
  let g ← g.addEdge ⟨7⟩ ⟨5⟩
  let (_, g) ← g.write ⟨4⟩ (.array [.integer 1])
  return g

/-- The graph with the edge that is left behind. -/
def shortened : Graph :=
  shortened?.toOption.getD (empty ⟨0⟩)

theorem built_shortened : shortened.Built := by
  have h : shortened? = .ok shortened := rfl
  obtain ⟨g, hg, h⟩ := Except.bind_eq_ok.1 h
  obtain ⟨⟨v, g'⟩, hg', h⟩ := Except.bind_eq_ok.1 h
  obtain ⟨g'', hg'', h⟩ := Except.bind_eq_ok.1 h
  obtain ⟨⟨w, g'''⟩, hg''', h⟩ := Except.bind_eq_ok.1 h
  obtain rfl : g''' = shortened := Except.ok.inj h
  exact .write (.addEdge (.write (Built.create (.empty ⟨2⟩) hg) hg') hg'') hg'''

theorem finite_shortened : shortened.Finite := by
  have hstored : shortened.stored = [.null, .null, .null, .array [.integer 1], .integer 1] := rfl
  intro v hv
  rw [hstored] at hv
  simp only [List.mem_cons, List.not_mem_nil, or_false] at hv
  rcases hv with rfl | rfl | rfl | rfl | rfl <;> simp [Value.AllFinite, Value.ItemsFinite]

theorem restore_shortened :
    shortened.isStranded ⟨⟨7⟩, ⟨5⟩⟩ = true ∧
      ¬ ∃ g, (GraphDocument.ofGraph shortened).restore pickingRegistry.construct ⟨8⟩ = .ok g := by
  have hstranded : shortened.isStranded ⟨⟨7⟩, ⟨5⟩⟩ = true := rfl
  have hedge : (⟨⟨7⟩, ⟨5⟩⟩ : Edge) ∈ shortened.edges := List.mem_singleton.2 rfl
  have hnodes : ∀ n ∈ shortened.nodeList, Resolver.Rebuilds pickingRegistry.construct n := by
    obtain ⟨m, hm, hbehavior, hports⟩ : ∃ m, shortened.nodeList = [m] ∧
        pickingRegistry.behavior m.typeId m.config = .ok picking ∧ picking.ports = m.behavior.ports :=
      ⟨_, rfl, rfl, rfl⟩
    intro n hn
    rw [hm, List.mem_singleton] at hn
    subst hn
    exact Registry.rebuilds hbehavior hports
  refine ⟨hstranded, fun hok => ?_⟩
  have hends := (built_shortened.restore_ofGraph finite_shortened hnodes ⟨8⟩).1.1 hok ⟨⟨7⟩, ⟨5⟩⟩ hedge
  rw [hstranded] at hends
  cases hends

end Graph

end Dataflow
