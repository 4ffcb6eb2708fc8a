import Dataflow.Proofs.Document.Identity
import Dataflow.Proofs.Document.Tree
import Dataflow.Proofs.Port.Faithful

/-!
# The containers of a loaded graph

A document holds the value of a container and its element ports side by side, and nothing compares them when they are
loaded. The next write to an element port makes the whole value anew from the element ports.

* `PortDocument.Faithful` says that the documents of the element ports agree with the value, as it will be stored;
* `PortDocument.describes_apply`: part by part, a loaded port holds what its document says;
* `Graph.Faithful.write`: a write in a faithful graph changes one element of each container above the port;
* `GraphDocument.restore_faithful`: a loaded graph is faithful if and only if the documents that were used are.
-/

namespace Dataflow

open Keyed

/-! ### Faithful documents -/

namespace PortDocument

/-- The value that a port will hold after it was loaded. -/
def stored? (d : PortDocument) : Option Value :=
  (d.data.convert d.dataType).toOption

/-- The documents of the element ports have keys of their own. If the document is one of a container with a value, they
have the keys of the value as it will be stored, and hold its elements. -/
structure Faithful (d : PortDocument) : Prop where
  distinct : (keys d.children).Nodup
  elements : d.dataType.isContainer = true → ∀ v, d.stored? = some v → v ≠ .null →
    ∀ key, (Keyed.find? key d.children).bind stored? = Keyed.find? key v.elements

/-- A port has the type and the value that a document gives it. -/
def Gives (d : PortDocument) (p : Port) : Prop :=
  p.dataType = d.dataType ∧ d.data.convert d.dataType = .ok p.data

/-- A port is what a document says, and so are its element ports under their keys. -/
structure Describes (d : PortDocument) (p : Port) : Prop where
  gives : d.Gives p
  children : List.Forall₂ (fun e e' => e.1 = e'.1 ∧ e.2.Gives e'.2) d.children p.elements

theorem restored_eq_ok {p q : Port} {id : PortId} {t : DataType} {v : Value} {es : List (String × Port)}
    (h : p.restored id t v es = .ok q) : q.dataType = t ∧ v.convert t = .ok q.data ∧ q.elements = es := by
  unfold Port.restored at h
  split_ifs at h with hnull
  · cases h
    cases v <;> first | exact ⟨rfl, rfl, rfl⟩ | cases hnull
  · obtain ⟨w, hw, hq⟩ := Except.bind_eq_ok.1 h
    cases hq
    exact ⟨rfl, hw, rfl⟩

mutual
theorem describes_elementPorts (parent : Port) (d : PortDocument) :
    ∀ {es : List (String × Port)}, elementPorts parent d = .ok es →
      List.Forall₂ (fun e e' => e.1 = e'.1 ∧ e.2.Gives e'.2) d.children es ∧
        ∃ below, d.flatten = d :: below ∧ List.Forall₂ Describes below (Port.flattenAll es) := by
  obtain ⟨id, t, v, elements⟩ := d
  intro es h
  obtain ⟨hchildren, hbelow⟩ := describes_optionalPorts parent elements h
  exact ⟨hchildren, _, rfl, hbelow⟩
termination_by structural d

theorem describes_optionalPorts (parent : Port) (ds : Option (List (String × PortDocument))) :
    ∀ {es : List (String × Port)}, optionalPorts parent ds = .ok es →
      List.Forall₂ (fun e e' => e.1 = e'.1 ∧ e.2.Gives e'.2) (ds.getD []) es ∧
        List.Forall₂ Describes (flattenOptional ds) (Port.flattenAll es) := by
  intro es h
  cases ds with
  | none =>
    cases h
    exact ⟨.nil, .nil⟩
  | some documents => exact describes_listedPorts parent documents h
termination_by structural ds

/-- Element ports are what their documents say. -/
theorem describes_listedPorts (parent : Port) (ds : List (String × PortDocument)) :
    ∀ {es : List (String × Port)}, listedPorts parent ds = .ok es →
      List.Forall₂ (fun e e' => e.1 = e'.1 ∧ e.2.Gives e'.2) ds es ∧
        List.Forall₂ Describes (flattenAll ds) (Port.flattenAll es) := by
  intro es h
  cases ds with
  | nil =>
    cases h
    exact ⟨.nil, .nil⟩
  | cons entry rest =>
    obtain ⟨key, d⟩ := entry
    rw [listedPorts] at h
    obtain ⟨below, hbelow, h⟩ := Except.bind_eq_ok.1 h
    obtain ⟨p, hp, h⟩ := Except.bind_eq_ok.1 h
    obtain ⟨later, hlater, h⟩ := Except.bind_eq_ok.1 h
    cases h
    obtain ⟨htype, hdata, hes⟩ := restored_eq_ok hp
    obtain ⟨hchildren, parts, hflatten, hparts⟩ := describes_elementPorts parent d hbelow
    obtain ⟨hrest, hall⟩ := describes_listedPorts parent rest hlater
    refine ⟨.cons ⟨rfl, htype, hdata⟩ hrest, ?_⟩
    rw [flattenAll, Port.flattenAll, hflatten, Port.flatten_eq, hes, ← Port.flattenAll_eq]
    exact List.rel_append (.cons ⟨⟨htype, hdata⟩, hes ▸ hchildren⟩ hparts) hall
termination_by structural ds
end

/-- **A loaded port and everything below it hold what the document says.** -/
theorem describes_apply {d : PortDocument} {p q : Port} (h : d.apply p = .ok q) :
    List.Forall₂ Describes d.flatten q.flatten := by
  rw [apply] at h
  cases hrestored : (elementPorts p d >>= fun es => p.restored d.id d.dataType d.data es) with
  | error e =>
    rw [hrestored] at h
    cases h
  | ok r =>
    rw [hrestored] at h
    cases h
    obtain ⟨es, hes, hq⟩ := Except.bind_eq_ok.1 hrestored
    obtain ⟨htype, hdata, helements⟩ := restored_eq_ok hq
    obtain ⟨hchildren, parts, hflatten, hparts⟩ := describes_elementPorts p d hes
    rw [hflatten, Port.flatten_eq, helements, ← Port.flattenAll_eq]
    exact .cons ⟨⟨htype, hdata⟩, helements ▸ hchildren⟩ hparts

theorem Gives.stored? {d : PortDocument} {p : Port} (h : d.Gives p) : d.stored? = some p.data := by
  rw [PortDocument.stored?, h.2]
  rfl

/-- Look-up among documents and among the ports that they describe. -/
theorem find?_given {ds : List (String × PortDocument)} {es : List (String × Port)}
    (h : List.Forall₂ (fun e e' => e.1 = e'.1 ∧ e.2.Gives e'.2) ds es) (key : String) :
    (Keyed.find? key ds).bind stored? = (Keyed.find? key es).map Port.data := by
  induction h with
  | nil => rfl
  | @cons e e' rest rest' heq _ ih =>
    obtain ⟨k, d⟩ := e
    obtain ⟨k', p⟩ := e'
    obtain ⟨rfl, hgives⟩ : k = k' ∧ d.Gives p := heq
    rw [find?_cons, find?_cons]
    split_ifs
    · exact hgives.stored?
    · exact ih

/-- A port is faithful if and only if its document is. -/
theorem Describes.faithful_iff {d : PortDocument} {p : Port} (h : d.Describes p) : p.Faithful ↔ d.Faithful := by
  have hkeys : keys p.elements = keys d.children := by
    refine (List.forall₂_eq_eq_eq ▸ ?_ : keys d.children = keys p.elements).symm
    rw [keys, keys, List.forall₂_map_left_iff, List.forall₂_map_right_iff]
    exact h.children.imp fun _ _ he => he.1
  have helements := find?_given h.children
  obtain ⟨htype, hdata⟩ := h.gives
  constructor
  · intro hp
    refine ⟨hkeys ▸ hp.distinct, fun hc v hv hne key => ?_⟩
    obtain rfl : p.data = v := Option.some.inj (h.gives.stored?.symm.trans hv)
    rw [helements]
    exact hp.elements (by rw [Port.isContainer, htype]; exact hc) hne key
  · intro hd
    refine ⟨htype ▸ Value.fits_convert hdata, hkeys ▸ hd.distinct, fun hc hne key => ?_⟩
    rw [← helements]
    exact hd.elements (by rwa [Port.isContainer, htype] at hc) p.data h.gives.stored? hne key

/-- A loaded tree is faithful if and only if its document is, part by part. -/
theorem every_faithful_apply {d : PortDocument} {p q : Port} (h : d.apply p = .ok q) :
    Port.Every Port.Faithful q ↔ ∀ part ∈ d.flatten, part.Faithful := by
  have hparts := describes_apply h
  unfold Port.Every
  generalize d.flatten = parts at hparts
  generalize q.flatten = ports at hparts
  induction hparts with
  | nil => simp
  | cons hpart _ ih =>
    rw [List.forall_mem_cons, List.forall_mem_cons]
    exact and_congr hpart.faithful_iff ih

end PortDocument

/-! ### Faithful nodes and graphs -/

/-- All ports of a node are faithful. -/
def Node.Faithful (n : Node) : Prop :=
  ∀ slot top, n.portAt? slot = some top → Port.Every Port.Faithful top

/-- All ports of a graph are faithful. -/
def Graph.Faithful (g : Graph) : Prop :=
  ∀ n ∈ g.nodeList, n.Faithful

/-- New nodes are faithful. -/
def Resolver.Faithful (resolver : Resolver) : Prop :=
  ∀ {typeId : String} {id : NodeId} {label : String} {config : Config} {s s' : Supply} {n : Node},
    resolver typeId id label config s = .ok (n, s') → n.Faithful

/-- **A registry makes faithful nodes.** -/
theorem Registry.faithful (registry : Registry) : Resolver.Faithful registry.construct := by
  intro typeId id label config s s' n h
  obtain ⟨b, -, heq⟩ := Except.map_eq_ok.1 h
  have hfresh := Node.fresh_create id label b config s
  rw [heq] at hfresh
  exact fun slot top htop => (hfresh.sound.ports htop).imp fun _ hp => hp.faithful

namespace NodeDocument

/-- What the places of a node were made of is faithful: the document that was used for a place, or the port that was
there before, if none was used. -/
def Faithful (d : NodeDocument) (n : Node) : Prop :=
  ∀ slot top, n.portAt? slot = some top →
    (documentAt? d.slots slot).elim (Port.Every Port.Faithful top) fun document =>
      ∀ part ∈ document.flatten, part.Faithful

/-- What is in a place after documents were brought into a node. -/
theorem applied_applyPorts {ds : List (Slot × PortDocument)} {n m : Node} (h : applyPorts ds n = .ok m) {slot : Slot}
    {top : Port} (htop : m.portAt? slot = some top) :
    (documentAt? ds slot).elim (n.portAt? slot = some top) fun document => ∃ p, document.apply p = .ok top := by
  induction ds generalizing n with
  | nil =>
    cases h
    exact htop
  | cons entry rest ih =>
    obtain ⟨slot', d⟩ := entry
    rw [applyPorts] at h
    rw [documentAt?_cons]
    cases hp : n.portAt? slot' with
    | none =>
      simp only [hp] at h
      have hrest := ih h
      cases hlast : documentAt? rest slot with
      | some document => rwa [hlast] at hrest
      | none =>
        rw [hlast] at hrest
        have hne : slot' ≠ slot := by
          rintro rfl
          rw [hp] at hrest
          cases hrest
        rwa [if_neg hne]
    | some p =>
      simp only [hp] at h
      obtain ⟨q, hq, h⟩ := Except.bind_eq_ok.1 h
      have hrest := ih h
      cases hlast : documentAt? rest slot with
      | some document => rwa [hlast] at hrest
      | none =>
        rw [hlast, Option.elim_none, Node.portAt?_setPort] at hrest
        split_ifs at hrest ⊢
        · exact ⟨p, hq.trans (congrArg _ (Option.some.inj hrest))⟩
        · exact hrest

theorem faithful_applyPorts {d : NodeDocument} {n m : Node} (h : applyPorts d.slots n = .ok m) :
    m.Faithful ↔ d.Faithful m := by
  refine forall_congr' fun slot => forall_congr' fun top => forall_congr' fun htop => ?_
  have happlied := applied_applyPorts h htop
  cases hdoc : documentAt? d.slots slot with
  | none => rfl
  | some document =>
    rw [hdoc] at happlied
    obtain ⟨p, hp⟩ := happlied
    exact PortDocument.every_faithful_apply hp

/-- A node is faithful if the documents are, and if it was before they were brought into it. -/
theorem faithful_of_slots {d : NodeDocument} {n m : Node} (hn : n.Faithful)
    (hd : ∀ e ∈ d.slots, ∀ part ∈ e.2.flatten, part.Faithful) (h : applyPorts d.slots n = .ok m) : d.Faithful m := by
  intro slot top htop
  have happlied := applied_applyPorts h htop
  cases hdoc : documentAt? d.slots slot with
  | none =>
    rw [hdoc] at happlied
    exact hn slot top happlied
  | some document => exact hd (slot, document) (List.mem_reverse.1 (Table.mem_of_find? hdoc))

end NodeDocument

/-! ### Writing in a faithful graph -/

namespace Graph

/-- Nodes are listed under their own identifiers. -/
structure Listed (g : Graph) : Prop where
  listed : ∀ {id : NodeId}, id ∈ g.order ↔ (g.node? id).isSome
  named : ∀ {id : NodeId} {n : Node}, g.node? id = some n → n.id = id

theorem Listed.mem_nodeList {g : Graph} (hg : g.Listed) {n : Node} : n ∈ g.nodeList ↔ g.node? n.id = some n := by
  rw [nodeList, List.mem_filterMap]
  constructor
  · rintro ⟨id, -, hn⟩
    rwa [hg.named hn]
  · exact fun hn => ⟨n.id, hg.listed.2 (by rw [hn]; rfl), hn⟩

theorem listed_empty (s : Supply) : (empty s).Listed where
  listed {id} := by simp [empty, node?]
  named h := by cases h

theorem Listed.addNode {g g' : Graph} {n : Node} (hg : g.Listed) (h : g.addNode n = .ok g') : g'.Listed := by
  have hnode := node?_addNode h
  have horder : g'.order = g.order ++ [n.id] := by rw [(addNode_eq_ok h).2]
  refine ⟨fun {id} => ?_, fun {id m} hm => ?_⟩
  · rw [horder, List.mem_append, List.mem_singleton, hnode, hg.listed]
    split_ifs with heq
    · exact ⟨fun _ => rfl, fun _ => Or.inr heq.symm⟩
    · exact ⟨fun hid => hid.resolve_right (Ne.symm heq), Or.inl⟩
  · rw [hnode] at hm
    split_ifs at hm with heq
    · cases hm
      exact heq
    · exact hg.named hm

/-- From `g` to `g'`, the value `w` was written to the port `p`, which is at a path below a place of a node. All other
places and nodes are as they were, and of the containers that the path leads through nothing but the elements on the
path changed. -/
structure Writes (g : Graph) (p : PortId) (w : Value) (g' : Graph) (n : Node) (slot : Slot) (top top' : Port)
    (path : List String) : Prop where
  node : g.node? n.id = some n
  place : n.portAt? slot = some top
  target : (top.atPath? path).map Port.id = some p
  written : (top'.atPath? path).map Port.data = some w
  along : Port.ChangesAlong path top top'
  after : ∀ id, g'.node? id = if n.id = id then some (n.setPort slot top') else g.node? id

/-- **A write in a faithful graph changes one element of each container above the port.** If no array above the port was
empty, the graph is faithful again. -/
theorem Faithful.write {g g' : Graph} (hg : g.Faithful) (hlisted : g.Listed) {p : PortId} {v w : Value}
    (h : g.write p v = .ok (w, g')) :
    ∃ n slot top top' path, g.Writes p w g' n slot top top' path ∧ (Port.FilledAlong path top → g'.Faithful) := by
  obtain ⟨owner, n, n', s', -, hn, hwrite, rfl⟩ := write_eq_ok h
  obtain ⟨slot, top, top', htop, hw, rfl⟩ := Node.write_eq_ok hwrite
  obtain rfl := hlisted.named hn
  have hfaithful : n.Faithful := hg n (hlisted.mem_nodeList.2 hn)
  obtain ⟨path, c, c', hc, hid, hc', hport, halong, hback⟩ :=
    (Port.edit_of_writeAt hw).changesAlong (hfaithful slot top htop)
  have hafter : ∀ id, ((g.evolve (n.setPort slot top') s').reindex n.id).node? id =
      if n.id = id then some (n.setPort slot top') else g.node? id := fun id => by
    rw [node?_reindex, node?_evolve, Node.setPort_id]
  refine ⟨n, slot, top, top', path, ⟨hn, htop, ?_, ?_, halong, hafter⟩, fun hfilled m hm slot' q hq => ?_⟩
  · rw [hc, Option.map_some, hid]
  · rw [hc', Option.map_some, Port.write_data hport]
  · obtain ⟨id, hid, hm⟩ := List.mem_filterMap.1 hm
    rw [hafter] at hm
    split_ifs at hm with heq
    · cases hm
      rw [Node.portAt?_setPort] at hq
      split_ifs at hq with hslot
      · cases hq
        exact hback hfilled (Port.faithful_write hport ((hfaithful slot top htop).of_mem (Port.mem_flatten_of_atPath? hc)))
      · exact hfaithful slot' q hq
    · exact hg m (hlisted.mem_nodeList.2 (by rw [hlisted.named hm]; exact hm)) slot' q hq

end Graph

namespace GraphDocument

/-! ### A loaded graph -/

/-- The nodes of a loaded graph are made one by one, each for its document. -/
theorem made_addNodes {resolver : Resolver} {ds : List NodeDocument} {g g' : Graph} (hg : g.Listed)
    (h : addNodes resolver ds g = .ok g') :
    g'.Listed ∧ ∃ ns, g'.nodeList = g.nodeList ++ ns ∧ List.Forall₂ (fun d m => ∃ n s s',
      resolver d.typeId d.id d.label d.config s = .ok (n, s') ∧ NodeDocument.applyPorts d.slots n = .ok m) ds ns := by
  induction ds generalizing g with
  | nil =>
    cases h
    exact ⟨hg, [], (List.append_nil _).symm, .nil⟩
  | cons d rest ih =>
    obtain ⟨⟨n, s⟩, hmade, h⟩ := Except.bind_eq_ok.1 h
    obtain ⟨m, happly, h⟩ := Except.bind_eq_ok.1 h
    obtain ⟨g₁, hadd, h⟩ := Except.bind_eq_ok.1 h
    have hdrawn : ({ g with supply := s } : Graph).Listed := ⟨hg.listed, hg.named⟩
    have hlist := Graph.nodeList_addNode hadd fun id => hdrawn.listed.1
    change g₁.nodeList = g.nodeList ++ [m] at hlist
    obtain ⟨hg', ns, hnodes, hns⟩ := ih (hdrawn.addNode hadd) h
    refine ⟨hg', m :: ns, ?_, .cons ⟨n, _, s, hmade, happly⟩ hns⟩
    rw [hnodes, hlist, List.append_assoc, List.singleton_append]

/-- The nodes of a loaded graph. -/
theorem made_restore {d : GraphDocument} {resolver : Resolver} {s : Supply} {g : Graph}
    (h : d.restore resolver s = .ok g) :
    g.Listed ∧ List.Forall₂ (fun d m => ∃ n s s', resolver d.typeId d.id d.label d.config s = .ok (n, s') ∧
      NodeDocument.applyPorts d.slots n = .ok m) d.nodes g.nodeList := by
  obtain ⟨g₁, hnodes, hedges⟩ := Except.bind_eq_ok.1 h
  obtain ⟨hg₁, ns, hlist, hns⟩ := made_addNodes (Graph.listed_empty s) hnodes
  obtain ⟨horder, htable, -⟩ := addEdges_frame hedges
  have hnode : ∀ id, g.node? id = g₁.node? id := fun id => by rw [Graph.node?, htable, Graph.node?]
  refine ⟨⟨fun {id} => ?_, fun hm => hg₁.named (hnode _ ▸ hm)⟩, ?_⟩
  · rw [horder, hnode]
    exact hg₁.listed
  · have hsame : g.nodeList = g₁.nodeList := by
      rw [Graph.nodeList, horder, List.filterMap_congr fun id _ => hnode id, Graph.nodeList]
    rw [hsame, hlist]
    exact hns

/-- **When the containers of a loaded graph mirror their values.** A loaded graph is faithful if and only if the
documents that were used for its ports are, and the ports without a document; so it is if the resolver makes faithful
nodes and every document of a port is faithful. Then a write to a port, also to an element port, changes one element of
each container above the port. -/
theorem restore_faithful {d : GraphDocument} {resolver : Resolver} {s : Supply} {g : Graph}
    (h : d.restore resolver s = .ok g) :
    (g.Faithful ↔ List.Forall₂ NodeDocument.Faithful d.nodes g.nodeList) ∧
      (resolver.Faithful → (∀ n ∈ d.nodes, ∀ e ∈ n.slots, ∀ part ∈ e.2.flatten, part.Faithful) → g.Faithful) ∧
      (g.Faithful → ∀ {p : PortId} {v w : Value} {g' : Graph}, g.write p v = .ok (w, g') →
        ∃ n slot top top' path, g.Writes p w g' n slot top top' path ∧
          (Port.FilledAlong path top → g'.Faithful)) := by
  obtain ⟨hlisted, hmade⟩ := made_restore h
  have hiff : g.Faithful ↔ List.Forall₂ NodeDocument.Faithful d.nodes g.nodeList := by
    unfold Graph.Faithful
    generalize g.nodeList = ns at hmade
    generalize d.nodes = ds at hmade
    induction hmade with
    | nil => simp
    | cons hm _ ih =>
      obtain ⟨n, s, s', -, happly⟩ := hm
      rw [List.forall_mem_cons, List.forall₂_cons]
      exact and_congr (NodeDocument.faithful_applyPorts happly) ih
  refine ⟨hiff, fun hresolver hall => hiff.2 ?_, fun hfaithful {p v w g'} hwrite => hfaithful.write hlisted hwrite⟩
  generalize g.nodeList = ns at hmade
  generalize d.nodes = ds at hmade hall
  induction hmade with
  | nil => exact .nil
  | cons hm _ ih =>
    obtain ⟨n, s, s', hn, happly⟩ := hm
    obtain ⟨hd, hrest⟩ := List.forall_mem_cons.1 hall
    exact .cons (NodeDocument.faithful_of_slots (hresolver hn) hd happly) (ih hrest)

/-! ### A document that lacks an element port -/

/-- A list of two items, of which only the first has an element port. -/
def halfList : PortDocument :=
  ⟨⟨4⟩, .array, .array [.integer 1, .integer 2], some [("0", ⟨⟨5⟩, .integer, .integer 1, none⟩)]⟩

/-- A node with such a list. -/
def halved : GraphDocument :=
  { nodes := [{ id := ⟨1⟩, typeId := "picking", label := "n", config := []
                ports := { NodePorts.empty with outputs := [("items", halfList)] } }]
    edges := [] }

/-- The list has a second item, and no element port for it. -/
theorem halfList_not_faithful : ¬ halfList.Faithful := fun h => by
  have hsecond := h.elements rfl (.array [.integer 1, .integer 2]) rfl (by decide) "1"
  exact absurd hsecond (by decide)

/-- The document is loaded, and a write to the first item takes the second one away. -/
theorem restore_halved : ∃ g g', halved.restore Graph.pickingRegistry.construct ⟨8⟩ = .ok g ∧
    g.write ⟨5⟩ (.integer 5) = .ok (.integer 5, g') ∧
    (g.port? ⟨4⟩).map Port.data = some (.array [.integer 1, .integer 2]) ∧
    (g'.port? ⟨4⟩).map Port.data = some (.array [.integer 5]) ∧ ¬ g.Faithful := by
  obtain ⟨g, hg, g', hwrite, hbefore, hafter, n, top, hnode, htop⟩ : ∃ g,
      halved.restore Graph.pickingRegistry.construct ⟨8⟩ = .ok g ∧ ∃ g',
      g.write ⟨5⟩ (.integer 5) = .ok (.integer 5, g') ∧
      (g.port? ⟨4⟩).map Port.data = some (.array [.integer 1, .integer 2]) ∧
      (g'.port? ⟨4⟩).map Port.data = some (.array [.integer 5]) ∧
      ∃ n top, g.nodeList = [n] ∧ n.portAt? (.output "items") = some top :=
    ⟨_, rfl, _, rfl, rfl, rfl, _, _, rfl, rfl⟩
  refine ⟨g, g', hg, hwrite, hbefore, hafter, fun hfaithful => ?_⟩
  have hdocuments := (restore_faithful hg).1.1 hfaithful
  rw [hnode] at hdocuments
  obtain ⟨hdocument, -⟩ := List.forall₂_cons.1 hdocuments
  exact halfList_not_faithful (hdocument (.output "items") top htop halfList List.mem_cons_self)

end GraphDocument

end Dataflow
