import Dataflow.Proofs.Document.Loading

/-!
# Saving a graph that was loaded

* `PortDocument.ofPort_resume`: a loaded port has the document that it was loaded from;
* `Node.Copies n m` says that `m` is made as `n` was, with its label and its settings; the ports of `n` then make `m`
  a node with the document of `n` (`Node.Copies.ofNode`);
* `Graph.Repeats ns g` says that the nodes of `g` have the documents of `ns`, one after the other;
* `GraphDocument.addEdges_eq_ok`: what the edges of a document leave behind, and which of them are flagged;
* `Graph.Built.ofGraph_restore`: a graph that is loaded has the document that it was loaded from.

A value is stored in a form that its own conversion leaves as it is, so that nothing is lost when every value of a
document is converted once more.
-/

namespace Dataflow

open Keyed

/-! ### Ports -/

namespace PortDocument

theorem ofElements_eq (es : List (String × Port)) : ofElements es = mapValues ofPort es := by
  induction es with
  | nil => rfl
  | cons entry rest ih => rw [ofElements, ih]; rfl

theorem ofPort_eq (p : Port) :
    ofPort p = ⟨p.id, p.dataType, p.data, match mapValues ofPort p.elements with
      | [] => none
      | documents => some documents⟩ := by
  obtain ⟨id, name, direction, kind, dataType, data, version, lastRead, elements⟩ := p
  rw [ofPort, ofElements_eq]
  cases elements <;> rfl

/-- **A loaded port has the document that it was loaded from.** Its name, its side and its kind are not saved. -/
@[simp] theorem ofPort_resume (q : Port) (name : String) (p : Port) : ofPort (q.resume name p) = ofPort p := by
  induction p using Port.induction generalizing name with
  | step p ih =>
    have helements : mapValues ofPort (q.resume name p).elements = mapValues ofPort p.elements := by
      rw [Port.resume_eq]
      simp only [mapValues, List.map_map]
      exact List.map_congr_left fun e he => congrArg (Prod.mk e.1) (ih e he e.1)
    rw [ofPort_eq, ofPort_eq p, helements, Port.resume_eq]

end PortDocument

/-! ### Nodes -/

namespace Node

/-- The node `m` is made as `n` was: with its identifier, its label, its settings, its type and its declarations. -/
structure Copies (n m : Node) : Prop extends n.Remakes m where
  label : m.label = n.label
  config : m.config = n.config
  typeId : m.typeId = n.typeId

end Node

/-- A resolver makes nothing but copies of a node, for its document. -/
def Resolver.Copies (resolver : Resolver) (n : Node) : Prop :=
  ∀ {s s' : Supply} {m : Node}, resolver n.typeId n.id n.label n.config s = .ok (m, s') → n.Copies m

/-- A registry copies a node if the settings of the node give its type and its declarations again. -/
theorem Registry.copies {registry : Registry} {n : Node}
    (h : ∀ {b : Behavior}, registry.behavior n.typeId n.config = .ok b →
      b.typeId = n.typeId ∧ b.ports = n.behavior.ports) : Resolver.Copies registry.construct n := by
  intro s s' m hm
  obtain ⟨b, hb, hmade⟩ := Except.map_eq_ok.1 hm
  obtain ⟨htype, hports⟩ := h hb
  obtain ⟨hid, hlabel, hconfig, hbehavior⟩ := Node.create_fixed n.id n.label b n.config s
  have hfresh := Node.fresh_create n.id n.label b n.config s
  obtain rfl : (Node.create n.id n.label b n.config s).1 = m := congrArg Prod.fst hmade
  refine { id := hid, ordered := hfresh.sound.ordered, declared := hfresh.declared, label := hlabel, config := hconfig,
           side := fun {slot p} hp => (hfresh.legal slot p hp).self.direction, ports := ?_, typeId := ?_ }
  · rw [hbehavior, hports]
  · rw [Node.typeId, hbehavior, htype]

namespace NodeDocument

open PortDocument

/-- The document of a node follows from what is fixed and from what is in its places. -/
theorem ofNode_congr {n m : Node} (hn : n.Ordered) (hm : m.Ordered) (hid : m.id = n.id) (htype : m.typeId = n.typeId)
    (hlabel : m.label = n.label) (hconfig : m.config = n.config)
    (hat : ∀ slot, (m.portAt? slot).map ofPort = (n.portAt? slot).map ofPort) : ofNode m = ofNode n := by
  have hgroup : ∀ (place : String → Slot) (group : Node → Keyed Port),
      (∀ k : Node, k.Ordered → Ascending (group k)) → (∀ k name, Node.portAt? k (place name) = find? name (group k)) →
      mapValues ofPort (group m) = mapValues ofPort (group n) := fun place group hasc hplace => by
    refine Ascending.ext (ascending_mapValues.2 (hasc m hm)) (ascending_mapValues.2 (hasc n hn)) fun name => ?_
    rw [find?_mapValues, find?_mapValues, ← hplace, ← hplace, hat]
  have hexecIn : ofPort m.execIn = ofPort n.execIn := Option.some.inj (hat .execIn)
  have hexecOut : ofPort m.execOut = ofPort n.execOut := Option.some.inj (hat .execOut)
  rw [ofNode, ofNode, hid, htype, hlabel, hconfig, hexecIn, hexecOut,
    hgroup .input Node.inputs (fun _ hk => hk.inputs) (fun _ _ => rfl),
    hgroup .output Node.outputs (fun _ hk => hk.outputs) (fun _ _ => rfl),
    hgroup .controlInput Node.controlInputs (fun _ hk => hk.controlInputs) (fun _ _ => rfl),
    hgroup .controlOutput Node.controlOutputs (fun _ hk => hk.controlOutputs) (fun _ _ => rfl)]

/-- Loading ports changes nothing else of a node. -/
theorem applyPorts_fixed {ds : List (Slot × PortDocument)} {n m : Node} (h : applyPorts ds n = .ok m) :
    m.id = n.id ∧ m.label = n.label ∧ m.config = n.config ∧ m.behavior = n.behavior := by
  induction ds generalizing n with
  | nil =>
    cases h
    exact ⟨rfl, rfl, rfl, rfl⟩
  | cons entry rest ih =>
    obtain ⟨slot, d⟩ := entry
    rw [applyPorts] at h
    split at h
    · exact ih h
    · obtain ⟨p, -, hrest⟩ := Except.bind_eq_ok.1 h
      simpa using ih hrest

end NodeDocument

/-- **The ports of a saved node make a copy of it a node with the same document.** -/
theorem Node.Copies.ofNode {n m m' : Node} (h : n.Copies m) (hn : n.Ordered) (hdecl : n.Declared)
    (hstore : ∀ {slot : Slot} {top : Port}, n.portAt? slot = some top → Port.Every Port.Storable top)
    (happly : NodeDocument.applyPorts (NodeDocument.ofNode n).slots m = .ok m') :
    NodeDocument.ofNode m' = NodeDocument.ofNode n := by
  obtain ⟨m₁, happly₁, -, -, hord, hat⟩ := NodeDocument.applyPorts_ofNode hn hstore h.ordered (h.occupied hdecl)
  obtain rfl : m₁ = m' := Except.ok.inj (happly₁.symm.trans happly)
  obtain ⟨hid, hlabel, hconfig, hbehavior⟩ := NodeDocument.applyPorts_fixed happly
  refine NodeDocument.ofNode_congr hn hord (hid.trans h.id) ?_ (hlabel.trans h.label) (hconfig.trans h.config)
    fun slot => ?_
  · rw [← h.typeId, Node.typeId, Node.typeId, hbehavior]
  · rw [hat]
    have hplace := h.occupied hdecl slot
    cases hp : n.portAt? slot with
    | none => rfl
    | some p =>
      obtain ⟨q, hq⟩ := Option.isSome_iff_exists.1 (hplace.2 (by rw [hp]; rfl))
      simp [hq]

/-! ### The nodes of a document -/

namespace Graph

/-- The nodes of the graph have the documents of the given ones, in their order, and nothing is connected. -/
structure Repeats (ns : List Node) (g : Graph) : Prop where
  documents : g.nodeList.map NodeDocument.ofNode = ns.map NodeDocument.ofNode
  listed : ∀ id ∈ g.order, (g.node? id).isSome
  edges : g.edges = []
  flagged : g.flagged = []

theorem repeats_empty (s : Supply) : (empty s).Repeats [] where
  documents := rfl
  listed _ hid := absurd hid List.not_mem_nil
  edges := rfl
  flagged := rfl

/-- A node that is added comes last. -/
theorem nodeList_addNode {g g' : Graph} {m : Node} (h : g.addNode m = .ok g')
    (hlisted : ∀ id ∈ g.order, (g.node? id).isSome) : g'.nodeList = g.nodeList ++ [m] := by
  obtain ⟨hnew, hg'⟩ := addNode_eq_ok h
  have hat : ∀ id, g'.node? id = if m.id = id then some m else g.node? id := node?_addNode h
  have hold : ∀ id ∈ g.order, g'.node? id = g.node? id := fun id hid => by
    rw [hat, if_neg]
    rintro rfl
    have := hlisted m.id hid
    simp [hnew] at this
  have horder : g'.order = g.order ++ [m.id] := by rw [hg']
  rw [nodeList, horder, List.filterMap_append, List.filterMap_congr hold]
  simp [hat, nodeList]

theorem Repeats.addNode {ns : List Node} {g g' : Graph} (hg : g.Repeats ns) {n m : Node} {s : Supply}
    (hm : NodeDocument.ofNode m = NodeDocument.ofNode n) (h : ({ g with supply := s } : Graph).addNode m = .ok g') :
    g'.Repeats (ns ++ [n]) := by
  obtain ⟨-, hg'⟩ := addNode_eq_ok h
  refine ⟨?_, fun id hid => ?_, ?_, ?_⟩
  · rw [nodeList_addNode h hg.listed, List.map_append, List.map_append, List.map_singleton, List.map_singleton, hm]
    exact congrArg (· ++ _) hg.documents
  · rw [node?_addNode h]
    split_ifs with heq
    · rfl
    · rw [hg'] at hid
      refine hg.listed id ((List.mem_append.1 hid).resolve_right fun hlast => heq ?_)
      exact (List.mem_singleton.1 hlast).symm
  · rw [hg']
    exact hg.edges
  · rw [hg']
    exact hg.flagged

end Graph

namespace GraphDocument

/-- Nodes that are loaded have the documents that they were loaded from. -/
theorem repeats_addNodes {resolver : Resolver} {done rest : List Node} {g g' : Graph} (hg : g.Repeats done)
    (hrest : ∀ n ∈ rest, n.Ordered ∧ n.Declared ∧ resolver.Copies n ∧
      ∀ {slot : Slot} {top : Port}, n.portAt? slot = some top → Port.Every Port.Storable top)
    (h : addNodes resolver (rest.map .ofNode) g = .ok g') : g'.Repeats (done ++ rest) := by
  induction rest generalizing done g with
  | nil =>
    cases h
    rwa [List.append_nil]
  | cons n rest ih =>
    obtain ⟨⟨hord, hdecl, hcopies, hstore⟩, hrest⟩ := List.forall_mem_cons.1 hrest
    obtain ⟨⟨m, s⟩, hmade, h⟩ := Except.bind_eq_ok.1 h
    obtain ⟨m', happly, h⟩ := Except.bind_eq_ok.1 h
    obtain ⟨g₁, hadd, h⟩ := Except.bind_eq_ok.1 h
    have hdocument := (hcopies hmade).ofNode hord hdecl hstore happly
    have := ih (hg.addNode hdocument hadd) hrest h
    rwa [List.append_assoc] at this

/-! ### The edges of a document -/

/-- An edge that is refused for its types has both ends. -/
theorem incompatible_of_addEdge {g : Graph} {e e' : Edge} {t t' : DataType}
    (h : g.addEdge e.source e.target = .error (.incompatibleEdge e' t t')) :
    g.isStranded e = false ∧ g.fits e = false := by
  unfold Graph.addEdge at h
  rw [Graph.isStranded, Graph.fits]
  cases ha : g.port? e.source with
  | none =>
    simp only [ha] at h
    cases h
  | some a =>
    cases hb : g.port? e.target with
    | none =>
      simp only [ha, hb] at h
      cases h
    | some b =>
      simp only [ha, hb] at h
      by_cases hdir : a.direction ≠ .output ∨ b.direction ≠ .input
      · rw [if_pos hdir] at h
        cases h
      · rw [if_neg hdir] at h
        cases hc : a.canConnect b with
        | false => exact ⟨rfl, hc⟩
        | true =>
          simp only [hc] at h
          by_cases hm : g.edgeSet.contains e = true
          · simp only [hm] at h
            cases h
          · simp only [hm] at h
            cases h

/-- An edge that is added has both ends, and gets a flag if they do not fit. -/
theorem addEdges_cons {e : Edge} {rest : List Edge} {g g' : Graph} (h : addEdges (e :: rest) g = .ok g') :
    g.isStranded e = false ∧
      (g.fits e = true ∧ addEdges rest (g.link e) = .ok g' ∨
        g.fits e = false ∧ addEdges rest (g.linkFlagged e) = .ok g') := by
  rw [addEdges] at h
  split at h
  · rename_i g₁ hadd
    obtain ⟨a, b, ha, hb, -, -, hc, -, rfl⟩ := Graph.addEdge_eq_ok hadd
    refine ⟨by rw [Graph.isStranded, ha, hb]; rfl, Or.inl ⟨?_, h⟩⟩
    simp only [Graph.fits, ha, hb, hc]
  · rename_i hadd
    obtain ⟨hends, hfits⟩ := incompatible_of_addEdge hadd
    exact ⟨hends, Or.inr ⟨hfits, h⟩⟩
  · cases h

/-- **What the edges of a document leave behind**: all of them are there, and those with a flag whose ends do not
fit. -/
theorem addEdges_eq_ok {es : List Edge} {g g' : Graph} (h : addEdges es g = .ok g') :
    g'.edges = g.edges ++ es ∧ g'.nodeList = g.nodeList ∧ g'.port? = g.port? ∧
      (∀ e, e ∈ g'.flagged ↔ e ∈ g.flagged ∨ e ∈ es ∧ g.fits e = false) ∧ ∀ e ∈ es, g.isStranded e = false := by
  induction es generalizing g with
  | nil =>
    cases h
    simp
  | cons e rest ih =>
    obtain ⟨hends, hnext⟩ := addEdges_cons h
    -- whether an edge fits is decided by the ports, which stay as they are
    rcases hnext with ⟨hfits, hnext⟩ | ⟨hfits, hnext⟩
    · obtain ⟨hedges, hnodes, hports, hflags, hall⟩ := ih hnext
      refine ⟨by rw [hedges]; simp [Graph.link], hnodes, hports, fun e' => ?_, List.forall_mem_cons.2 ⟨hends, hall⟩⟩
      rw [hflags]
      change e' ∈ g.flagged ∨ e' ∈ rest ∧ g.fits e' = false ↔ _
      rw [List.mem_cons, or_and_right]
      refine or_congr_right ⟨Or.inr, fun h => h.resolve_left ?_⟩
      rintro ⟨rfl, hmisfit⟩
      rw [hfits] at hmisfit
      cases hmisfit
    · obtain ⟨hedges, hnodes, hports, hflags, hall⟩ := ih hnext
      refine ⟨by rw [hedges]; simp [Graph.linkFlagged, Graph.link], hnodes, hports, fun e' => ?_,
        List.forall_mem_cons.2 ⟨hends, hall⟩⟩
      rw [hflags]
      change e' ∈ insertNew e g.flagged ∨ e' ∈ rest ∧ g.fits e' = false ↔ _
      rw [mem_insertNew, List.mem_cons, or_and_right, or_comm (a := e' = e), or_assoc]
      refine or_congr_right (or_congr_left ⟨?_, And.left⟩)
      rintro rfl
      exact ⟨rfl, hfits⟩

end GraphDocument

/-! ### Saved graphs -/

namespace Graph

/-- **A graph that is loaded has the document that it was loaded from**, and its flags are on the edges whose ends do
not fit. This is about every document of a graph that was built, whose numbers are finite, and about every resolver
that makes copies of the nodes. -/
theorem Built.ofGraph_restore {g g' : Graph} (hg : g.Built) (hfinite : g.Finite) {resolver : Resolver}
    (hresolver : ∀ n ∈ g.nodeList, resolver.Copies n) {s : Supply}
    (h : (GraphDocument.ofGraph g).restore resolver s = .ok g') :
    GraphDocument.ofGraph g' = GraphDocument.ofGraph g ∧
      (∀ e ∈ g'.flagged, e ∈ g'.edges) ∧
      ∀ e ∈ g'.edges, ∃ a b, g'.port? e.source = some a ∧ g'.port? e.target = some b ∧
        (e ∈ g'.flagged ↔ a.canConnect b = false) := by
  have hreg := hg.regular
  have hlisted : ∀ n ∈ g.nodeList, n.Ordered ∧ n.Declared ∧ resolver.Copies n ∧
      ∀ {slot : Slot} {top : Port}, n.portAt? slot = some top → Port.Every Port.Storable top := by
    intro n hn
    have hnode := (mem_nodeList hreg.toIdentified).1 hn
    exact ⟨hreg.ordered hnode, hreg.declared hnode, hresolver n hn, hfinite.storable hreg hn⟩
  obtain ⟨g₁, hnodes, hrest⟩ := Except.bind_eq_ok.1 h
  have hrepeats : g₁.Repeats g.nodeList := GraphDocument.repeats_addNodes (repeats_empty s) hlisted hnodes
  obtain ⟨hedges, hlist, hports, hflags, hends⟩ := GraphDocument.addEdges_eq_ok hrest
  replace hedges : g'.edges = g.edges := by
    rw [hedges, hrepeats.edges]
    rfl
  refine ⟨?_, fun e he => ?_, fun e he => ?_⟩
  · rw [GraphDocument.ofGraph, hlist, hrepeats.documents, hedges]
    rfl
  · rw [hflags, hrepeats.flagged] at he
    rw [hedges]
    exact (he.resolve_left List.not_mem_nil).1
  · rw [hedges] at he
    have hboth := hends e he
    simp only [isStranded, Bool.or_eq_false_iff, Option.isNone_eq_false_iff] at hboth
    obtain ⟨a, ha⟩ := Option.isSome_iff_exists.1 hboth.1
    obtain ⟨b, hb⟩ := Option.isSome_iff_exists.1 hboth.2
    have hfits : g₁.fits e = a.canConnect b := by simp only [fits, ha, hb]
    refine ⟨a, b, by rw [hports, ha], by rw [hports, hb], ?_⟩
    rw [hflags, hrepeats.flagged, hfits, or_iff_right List.not_mem_nil]
    exact and_iff_right he

/-! ### A graph with an edge that does not fit -/

/-- The second item of a list is connected, and then the port that takes it is declared as a list. -/
def retyped? : Except GraphError Graph := do
  let g ← ({ empty ⟨2⟩ with supply := pickingNode.2 } : Graph).addNode pickingNode.1
  let (_, g) ← g.write ⟨4⟩ (.array [.integer 1, .integer 2])
  let g ← g.addEdge ⟨7⟩ ⟨5⟩
  let (_, g) ← g.setPortType ⟨5⟩ .array
  return g

/-- The graph with the edge that does not fit any more. -/
def retyped : Graph :=
  retyped?.toOption.getD (empty ⟨0⟩)

theorem built_retyped : retyped.Built := by
  have h : retyped? = .ok retyped := rfl
  obtain ⟨g, hg, h⟩ := Except.bind_eq_ok.1 h
  obtain ⟨⟨v, g'⟩, hg', h⟩ := Except.bind_eq_ok.1 h
  obtain ⟨g'', hg'', h⟩ := Except.bind_eq_ok.1 h
  obtain ⟨⟨es, g'''⟩, hg''', h⟩ := Except.bind_eq_ok.1 h
  obtain rfl : g''' = retyped := Except.ok.inj h
  exact .setPortType (.addEdge (.write (Built.create (.empty ⟨2⟩) hg) hg') hg'') hg'''

theorem finite_retyped : retyped.Finite := by
  have hstored : retyped.stored =
      [.null, .null, .null, .array [.integer 1, .integer 2], .integer 1, .integer 2] := rfl
  intro v hv
  rw [hstored] at hv
  simp only [List.mem_cons, List.not_mem_nil, or_false] at hv
  rcases hv with rfl | rfl | rfl | rfl | rfl | rfl <;> simp [Value.AllFinite, Value.ItemsFinite]

/-- The graph as it is loaded. -/
def reloaded : Graph :=
  ((GraphDocument.ofGraph retyped).restore pickingRegistry.construct ⟨8⟩).toOption.getD (empty ⟨0⟩)

theorem ofGraph_reloaded :
    GraphDocument.ofGraph reloaded = GraphDocument.ofGraph retyped ∧ (⟨⟨7⟩, ⟨5⟩⟩ : Edge) ∈ reloaded.flagged := by
  have hload : (GraphDocument.ofGraph retyped).restore pickingRegistry.construct ⟨8⟩ = .ok reloaded := rfl
  have hcopies : ∀ n ∈ retyped.nodeList, Resolver.Copies pickingRegistry.construct n := by
    obtain ⟨m, hm, hbehavior, htype, hports⟩ : ∃ m, retyped.nodeList = [m] ∧
        pickingRegistry.behavior m.typeId m.config = .ok picking ∧ picking.typeId = m.typeId ∧
        picking.ports = m.behavior.ports := ⟨_, rfl, rfl, rfl, rfl⟩
    intro n hn
    rw [hm, List.mem_singleton] at hn
    subst hn
    refine Registry.copies fun {b} hb => ?_
    obtain rfl : picking = b := Except.ok.inj (hbehavior.symm.trans hb)
    exact ⟨htype, hports⟩
  obtain ⟨hdocument, -, hflags⟩ := built_retyped.ofGraph_restore finite_retyped hcopies hload
  have hedge : (⟨⟨7⟩, ⟨5⟩⟩ : Edge) ∈ reloaded.edges := List.mem_singleton.2 rfl
  obtain ⟨a, b, ha, hb, hflag⟩ := hflags _ hedge
  refine ⟨hdocument, hflag.2 ?_⟩
  have htypes : (reloaded.port? ⟨7⟩).map Port.dataType = some .integer ∧
      (reloaded.port? ⟨5⟩).map Port.dataType = some .array := ⟨rfl, rfl⟩
  simp only [ha, hb, Option.map_some, Option.some.injEq] at htypes
  rw [Port.canConnect, htypes.1, htypes.2]
  rfl

end Graph

end Dataflow
