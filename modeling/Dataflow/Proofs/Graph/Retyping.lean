import Dataflow.Proofs.Graph.Removal
import Dataflow.Proofs.Node.Places
import Dataflow.Proofs.Port.Retyping

/-!
# Changing the type of a port of a graph

A change of type is a change of one port of one node, after which the edges of the node are looked at again. Unlike a
write, it is not folded into the containers above the port.

* `Graph.Retyped` says what becomes of a graph before its edges are looked at; `Graph.Reached.setPortType_eq`: the type
  of every port can be changed so;
* `Graph.Edited` says that operations made a graph of an empty one, where new nodes are tidy;
* `Graph.ElementAt` says where an element port is;
* `Graph.Edited.write_element` and `Graph.Edited.setPortType_element`: where a write to an element port and a change of
  its type go to;
* `Graph.Edited.retype_element`: when the containers above an element port are truthful after a change of its type, and
  what the next write to another element port does to them.
-/

namespace Dataflow

namespace Node

variable {n n' : Node} {id : PortId} {t : DataType} {s s' : Supply}

/-- The type of a port of a node can be changed. -/
theorem exists_setPortType (hn : n.Ordered) (hd : n.portIds.Nodup) (hid : id ∈ n.portIds) (t : DataType) (s : Supply) :
    ∃ n' s', n.setPortType id t s = some (n', s') := by
  obtain ⟨c, hc⟩ := Option.isSome_iff_exists.1 (port?_isSome.2 hid)
  obtain ⟨slot, top, htop, hin⟩ := (mem_portIds hn).1 hid
  have hsome : (Port.replace? id (c.setDataType t s).1 top).isSome := Port.replace?_isSome.2 hin
  obtain ⟨top', htop'⟩ := Option.isSome_iff_exists.1 hsome
  refine ⟨n.setPort slot top', (c.setDataType t s).2, ?_⟩
  simp only [setPortType, Option.bind_eq_bind, hc, Option.bind_some, replacePort?_eq hn hd htop hin, htop',
    Option.map_some, Option.pure_def]

/-- It is the type of the port afterwards. -/
theorem dataType_setPortType (hn : n.Ordered) (hd : n.portIds.Nodup) (hd' : n'.portIds.Nodup)
    (h : n.setPortType id t s = some (n', s')) : (n'.port? id).map Port.dataType = some t := by
  obtain ⟨slot, top, top', htop, rfl, hedit⟩ := setPortType_eq_some hn hd h
  obtain ⟨c, c', ⟨hc', -⟩, hid, hmem⟩ := hedit.mem_flatten_after fun _ => rfl
  have hid' : c'.id = id := by rw [hc', Port.setDataType_id, hid]
  have htop' : (n.setPort slot top').portAt? slot = some top' := by rw [portAt?_setPort, if_pos rfl]
  have hfind : Port.find? id top' = some c' := (Port.find?_eq_some_iff (nodup_ids hn.setPort hd' htop')).2 ⟨hmem, hid'⟩
  rw [port?_eq hn.setPort hd' htop' (Port.mem_ids_iff.2 ⟨c', hmem, hid'⟩), hfind, Option.map_some, hc',
    Port.setDataType_dataType]

/-- All ports of a node are tidy. -/
def Tidy (n : Node) : Prop :=
  ∀ slot top, n.portAt? slot = some top → Port.Every Port.Tidy top

theorem Tidy.setPort {slot : Slot} {p : Port} (hn : n.Tidy) (hp : Port.Every Port.Tidy p) : (n.setPort slot p).Tidy := by
  intro slot' top htop
  rw [portAt?_setPort] at htop
  split_ifs at htop
  · exact Option.some.inj htop ▸ hp
  · exact hn slot' top htop

theorem Sound.tidy (hn : n.Sound) : n.Tidy :=
  fun _ _ htop => (hn.ports htop).imp fun _ hp => hp.tidy

end Node

namespace Graph

/-! ### One change of type -/

/-- The type of a port of a node was changed to `t`, which made `n'` of the node; all edges, indexes and flags are what
they were, and so are the other nodes. -/
structure Retyped (g : Graph) (p : PortId) (t : DataType) (n n' : Node) (h : Graph) : Prop where
  node : n.setPortType p t g.supply = some (n', h.supply)
  typed : (h.port? p).map Port.dataType = some t
  nodes : ∀ id, h.node? id = if n.id = id then some n' else g.node? id
  order : h.order = g.order
  edges : h.edges = g.edges
  edgeSet : h.edgeSet = g.edgeSet
  outEdges : h.outEdges = g.outEdges
  inEdges : h.inEdges = g.inEdges
  flagged : h.flagged = g.flagged

/-- A change of type is a change of one node, and then a check of it. -/
theorem Reached.setPortType_eq {g : Graph} (hg : g.Reached) {id : NodeId} {n : Node} (hn : g.node? id = some n)
    {p : PortId} (hp : p ∈ n.portIds) (t : DataType) :
    ∃ n' h, g.Retyped p t n n' h ∧ h.Indexed ∧ g.setPortType p t = h.checkEdges id := by
  have hreg := hg.regular
  obtain rfl := hreg.named hn
  have ho := hreg.ordered hn
  have hd := hreg.distinct hn
  obtain ⟨n', s', hset⟩ := Node.exists_setPortType ho hd hp t g.supply
  have hrenews := Node.renews_setPortType ho hd hset
  have hreg' := hreg.renew hn hrenews (Node.legal_setPortType ho hd hset (hreg.legal hn))
  have hnodes : ∀ id, ((g.evolve n' s').reindex n.id).node? id = if n.id = id then some n' else g.node? id := fun id => by
    rw [node?_reindex, node?_evolve, hrenews.id]
  have hself := (hnodes n.id).trans (if_pos rfl)
  have htyped := Node.dataType_setPortType ho hd (hreg'.distinct hself) hset
  obtain ⟨c, hc, -⟩ := Option.map_eq_some_iff.1 htyped
  have howner := hreg'.owned.2 ⟨n', hself, Node.port?_isSome.1 (by rw [hc]; rfl)⟩
  refine ⟨n', (g.evolve n' s').reindex n.id, ⟨?_, ?_, hnodes, ?_, ?_, ?_, ?_, ?_, ?_⟩, hg.indexed.renew n' s' n.id, ?_⟩
  · rw [reindex_supply]
    exact hset
  · simp only [port?, Option.bind_eq_bind, howner, hself, Option.bind_some]
    exact htyped
  · exact reindex_order ..
  · exact reindex_edges ..
  · exact reindex_edgeSet ..
  · exact reindex_outEdges ..
  · exact reindex_inEdges ..
  · exact reindex_flagged ..
  · have hold := hreg.owned.2 ⟨n, hn, hp⟩
    simp only [Graph.setPortType, Option.bind_eq_bind, hold, hn, hset, Option.bind_some, Option.pure_def]
    rfl

/-! ### Tidy graphs -/

/-- The graphs that the operations make of an empty one. A node that is added is tidy. -/
inductive Edited : Graph → Prop
  | start (s : Supply) : Edited (.empty s)
  | edit {g g' : Graph} (hg : Edited g) (h : g.Edit g')
      (hnew : ∀ id n, g.node? id = none → g'.node? id = some n → n.Tidy) : Edited g'

variable {g g' : Graph}

theorem Edited.reached (hg : g.Edited) : g.Reached := by
  induction hg with
  | start s => exact .empty s
  | edit _ h _ ih => exact h.reached ih

/-- An operation that adds no node. -/
theorem Edited.edit_of_none (hg : g.Edited) (h : g.Edit g') (hnone : ∀ id, g.node? id = none → g'.node? id = none) :
    g'.Edited :=
  .edit hg h fun id _ hold hn => absurd (hn.symm.trans (hnone id hold)) (by simp)

theorem Edited.write (hg : g.Edited) {p : PortId} {v w : Value} (h : g.write p v = .ok (w, g')) : g'.Edited := by
  refine hg.edit_of_none (.write h) fun id hnone => ?_
  obtain ⟨owner, n, n', s', -, hn, hw, rfl⟩ := write_eq_ok h
  have hid : n'.id = owner := (Node.evolves_write hw).id.trans (hg.reached.regular.named hn)
  rw [node?_reindex, node?_evolve, hid, if_neg, hnone]
  rintro rfl
  rw [hn] at hnone
  cases hnone

/-- A tidy node takes the place of another one. -/
theorem tidy_evolve (htidy : ∀ id n, g.node? id = some n → n.Tidy) {n' : Node} (hn' : n'.Tidy) (s : Supply)
    (owner : NodeId) : ∀ id n, ((g.evolve n' s).reindex owner).node? id = some n → n.Tidy := by
  intro id n hn
  rw [node?_reindex, node?_evolve] at hn
  split_ifs at hn
  · exact Option.some.inj hn ▸ hn'
  · exact htidy id n hn

/-- No operation makes a tidy node untidy. -/
theorem Edit.tidy (hg : g.Reached) (h : g.Edit g') (htidy : ∀ id n, g.node? id = some n → n.Tidy)
    (hnew : ∀ id n, g.node? id = none → g'.node? id = some n → n.Tidy) :
    ∀ id n, g'.node? id = some n → n.Tidy := by
  have hkeep : (∀ {id : NodeId} {n : Node}, g'.node? id = some n → g.node? id = some n) →
      ∀ id n, g'.node? id = some n → n.Tidy := fun hsame id n hn => htidy id n (hsame hn)
  cases h with
  | @addNode _ n s _ _ _ h =>
    intro id m hm
    cases hold : g.node? id with
    | none => exact hnew id m hold hm
    | some m' =>
      have hnone := (addNode_eq_ok h).1
      rw [node?_addNode h] at hm
      split_ifs at hm with heq
      · rw [heq] at hnone
        exact absurd (hnone.symm.trans hold) (by simp)
      · exact htidy id m hm
  | @removeNode _ id _ h =>
    obtain ⟨es, -, rfl⟩ := removeNode_eq_ok h
    refine hkeep fun {id' m} hm => ?_
    rw [node?, nodes_unlinkAll, Table.find?_erase] at hm
    split_ifs at hm
    exact hm
  | addEdge h =>
    obtain ⟨-, -, -, -, -, -, -, -, rfl⟩ := addEdge_eq_ok h
    exact hkeep fun hm => hm
  | removeEdge p q =>
    unfold Graph.removeEdge at hkeep ⊢
    dsimp only at hkeep ⊢
    split_ifs at hkeep ⊢
    · exact hkeep fun hm => hm
    · exact hkeep fun hm => hm
  | write h =>
    obtain ⟨owner, n, n', s', -, hn, hw, rfl⟩ := write_eq_ok h
    obtain ⟨slot, top, top', htop, hwrite, rfl⟩ := Node.write_eq_ok hw
    have htop' := Port.tidy_writeAt hwrite (htidy owner n hn slot top htop)
    exact tidy_evolve htidy ((htidy owner n hn).setPort htop') s' owner
  | @setPortType _ p t es h =>
    obtain ⟨owner, n, n', s', -, hn, hset, hcheck⟩ := setPortType_eq_ok h
    obtain ⟨-, -, rfl⟩ := checkEdges_eq_ok hcheck
    obtain ⟨slot, top, top', htop, rfl, hedit⟩ :=
      Node.setPortType_eq_some (hg.regular.ordered hn) (hg.regular.distinct hn) hset
    have htop' : Port.Every Port.Tidy top' := hedit.tidy (fun _ => rfl) (fun _ => rfl)
      (fun _ _ hchange hc => hchange.1 ▸ Port.tidy_setDataType t _ hc) (htidy owner n hn slot top htop)
    exact tidy_evolve htidy ((htidy owner n hn).setPort htop') s' owner

theorem Edited.tidy (hg : g.Edited) : ∀ id n, g.node? id = some n → n.Tidy := by
  induction hg with
  | start s => exact fun _ _ hn => by cases hn
  | edit hg h hnew ih => exact h.tidy hg.reached ih hnew

/-! ### Element ports -/

/-- An element port `e` is under a key of a container `c`, which is at a path below the port in a place of a node. -/
structure ElementAt (g : Graph) (n : Node) (slot : Slot) (top : Port) (path : List String) (c : Port) (key : String)
    (e : Port) : Prop where
  node : g.node? n.id = some n
  place : n.portAt? slot = some top
  container : top.atPath? path = some c
  element : Keyed.find? key c.elements = some e

section Element

variable {n : Node} {slot : Slot} {top c e : Port} {path : List String} {key : String}

theorem ElementAt.found (he : g.ElementAt n slot top path c key e) : top.atPath? (path ++ [key]) = some e := by
  rw [Port.atPath?_concat, he.container, Option.bind_some, he.element]

theorem ElementAt.mem_ids (he : g.ElementAt n slot top path c key e) : e.id ∈ top.ids :=
  Port.mem_ids_iff.2 ⟨e, Port.mem_flatten_of_atPath? he.found, rfl⟩

/-- A write to an element port goes to the place of the element port. -/
theorem Edited.write_element (hg : g.Edited) (he : g.ElementAt n slot top path c key e) {v w : Value}
    (h : g.write e.id v = .ok (w, g')) :
    ∃ top' e', (∀ id, g'.node? id = if n.id = id then some (n.setPort slot top') else g.node? id) ∧ e'.data = w ∧
      Port.ChangedAlong Port.fold (path ++ [key]) e e' top top' := by
  have hreg := hg.reached.regular
  have ho := hreg.ordered he.node
  have hd := hreg.distinct he.node
  obtain ⟨owner, n₁, n', s', howner, hn₁, hwrite, rfl⟩ := write_eq_ok h
  obtain rfl : owner = n.id := Option.some.inj
    (howner.symm.trans (hreg.owned.2 ⟨n, he.node, (Node.mem_portIds ho).2 ⟨slot, top, he.place, he.mem_ids⟩⟩))
  obtain rfl : n = n₁ := Option.some.inj (he.node.symm.trans hn₁)
  obtain ⟨slot₁, top₁, top', htop₁, hw, rfl⟩ := Node.write_eq_ok hwrite
  have hedit := Port.edit_of_writeAt hw
  obtain rfl := Node.slot_unique ho hd htop₁ he.place hedit.mem_ids he.mem_ids
  obtain rfl : top = top₁ := Option.some.inj (he.place.symm.trans htop₁)
  obtain ⟨e', hport, halong⟩ := hedit.changedAlong_of_atPath? Port.fold_elements (hg.tidy _ _ he.node _ _ he.place)
    (Node.nodup_ids ho hd he.place) he.found
  refine ⟨top', e', fun id => ?_, Port.write_data hport, halong⟩
  rw [node?_reindex, node?_evolve, Node.setPort_id]

/-- A change of the type of an element port goes to the place of the element port. -/
theorem Edited.setPortType_element (hg : g.Edited) (he : g.ElementAt n slot top path c key e) (t : DataType) :
    ∃ es g' top', g.setPortType e.id t = .ok (es, g') ∧
      (∀ id, g'.node? id = if n.id = id then some (n.setPort slot top') else g.node? id) ∧
      Port.ChangedAlong (fun r => r) (path ++ [key]) e (e.setDataType t g.supply).1 top top' := by
  have hreg := hg.reached.regular
  have ho := hreg.ordered he.node
  have hd := hreg.distinct he.node
  have hmem : e.id ∈ n.portIds := (Node.mem_portIds ho).2 ⟨slot, top, he.place, he.mem_ids⟩
  obtain ⟨n', h, hretyped, -, hset⟩ := hg.reached.setPortType_eq he.node hmem t
  obtain ⟨slot₁, top₁, top', htop₁, rfl, hedit⟩ := Node.setPortType_eq_some ho hd hretyped.node
  obtain rfl := Node.slot_unique ho hd htop₁ he.place hedit.mem_ids he.mem_ids
  obtain rfl : top = top₁ := Option.some.inj (he.place.symm.trans htop₁)
  obtain ⟨e', ⟨rfl, -⟩, halong⟩ := hedit.changedAlong_of_atPath? (fun _ => rfl) (hg.tidy _ _ he.node _ _ he.place)
    (Node.nodup_ids ho hd he.place) he.found
  have hself := (hretyped.nodes n.id).trans (if_pos rfl)
  simp only [checkEdges, hself] at hset
  exact ⟨_, _, top', hset, hretyped.nodes, halong⟩

/-- After a change of type, a write to another element port of the container makes the container anew from what all of its
element ports hold. -/
theorem Edited.write_retyped (hg : g.Edited) (he : g.ElementAt n slot top path c key e) {t : DataType} {es : List Edge}
    {top' e' : Port} (hset : g.setPortType e.id t = .ok (es, g'))
    (hnodes : ∀ id, g'.node? id = if n.id = id then some (n.setPort slot top') else g.node? id)
    (halong : Port.ChangedAlong (fun r => r) (path ++ [key]) e e' top top') {k : String} {f : Port} {v w : Value}
    {g'' : Graph} (hk : k ≠ key) (hf : Keyed.find? k c.elements = some f) (hwrite : g'.write f.id v = .ok (w, g'')) :
    ∃ top'' c'',
      (∀ id, g''.node? id = if n.id = id then some ((n.setPort slot top').setPort slot top'') else g.node? id) ∧
      top''.atPath? path = some c'' ∧
      ∀ j, Keyed.find? j c''.data.elements = if j = k then some w else if j = key then some e'.data else
        (Keyed.find? j c.elements).map Port.data := by
  have hg' : g'.Edited := hg.edit_of_none (.setPortType hset) fun id hnone => by
    rw [hnodes, if_neg, hnone]
    rintro rfl
    rw [he.node] at hnone
    cases hnone
  obtain ⟨q, x, fs, hq, hq', hx, -, hfind⟩ := halong.above path key [] rfl
  obtain rfl : c = q := Option.some.inj (he.container.symm.trans hq)
  obtain rfl : x = e' := Option.some.inj (hx.symm.trans halong.stored)
  have hf' : g'.ElementAt (n.setPort slot top') slot top' path { c with elements := fs } k f := by
    refine ⟨?_, by rw [Node.portAt?_setPort, if_pos rfl], hq', (hfind k).trans ((if_neg hk).trans hf)⟩
    rw [Node.setPort_id, hnodes, if_pos rfl]
  obtain ⟨top'', f', hnodes', hw, halong'⟩ := hg'.write_element hf' hwrite
  obtain ⟨c'', hc'', helements⟩ := halong'.elements_written (hg'.tidy _ _ hf'.node _ _ hf'.place) hq'
  refine ⟨top'', c'', fun id => ?_, hc'', fun j => ?_⟩
  · rw [hnodes', Node.setPort_id, hnodes]
    split_ifs <;> rfl
  · rw [helements, hw, hfind]
    split_ifs <;> rfl

/-- **A change of the type of an element port is not folded into its containers.** It changes the one port, and every
container above it keeps the value that it had. So all of these are truthful afterwards if and only if the container of
the port holds what the port holds now, and they agree with all other element ports; if they were truthful before, they
are if and only if the change keeps the value of the port. The next write to another element port of the container makes
the container anew from what all of its element ports hold; so it changes nothing but the element that was written if and
only if the change of type kept the value. -/
theorem Edited.retype_element (hg : g.Edited) (he : g.ElementAt n slot top path c key e) (t : DataType) :
    ∃ es g' top' e', e' = (e.setDataType t g.supply).1 ∧ g.setPortType e.id t = .ok (es, g') ∧
      (∀ id, g'.node? id = if n.id = id then some (n.setPort slot top') else g.node? id) ∧
      Port.ChangedAlong (fun r => r) (path ++ [key]) e e' top top' ∧
      (Port.TruthfulAlong path top' ↔
        (∀ above q k, above <+: path → top.atPath? above = some q → ¬ (above = path ∧ k = key) → q.AgreesAt k) ∧
          Keyed.find? key c.former.elements = some e'.data) ∧
      (Port.TruthfulAlong path top → (Port.TruthfulAlong path top' ↔ e.Keeps t)) ∧
      ∀ k f v w g'', k ≠ key → Keyed.find? k c.elements = some f → g'.write f.id v = .ok (w, g'') →
        ∃ top'' c'',
          (∀ id, g''.node? id = if n.id = id then some ((n.setPort slot top').setPort slot top'') else g.node? id) ∧
          top''.atPath? path = some c'' ∧
          (∀ j, Keyed.find? j c''.data.elements = if j = k then some w else if j = key then some e'.data else
            (Keyed.find? j c.elements).map Port.data) ∧
          (c.Truthful →
            ((∀ j, j ≠ k → Keyed.find? j c''.data.elements = Keyed.find? j c.former.elements) ↔ e.Keeps t)) := by
  obtain ⟨es, g', top', hset, hnodes, halong⟩ := hg.setPortType_element he t
  have hiff := halong.truthfulAlong_iff he.container
  have hkeeps := Port.data_setDataType e t g.supply
  have hformer : c.Truthful → Keyed.find? key c.former.elements = some e.data := fun hc => by
    rw [← hc key, he.element, Option.map_some]
  refine ⟨es, g', top', _, rfl, hset, hnodes, halong, hiff, fun htruth => ?_, fun k f v w g'' hk hf hwrite => ?_⟩
  · rw [hiff, hformer (htruth path c List.prefix_rfl he.container), Option.some.injEq, eq_comm, hkeeps]
    exact and_iff_right fun above q k habove hq _ => htruth above q habove hq k
  · obtain ⟨top'', c'', hnodes', hc'', hall⟩ := hg.write_retyped he hset hnodes halong hk hf hwrite
    refine ⟨top'', c'', hnodes', hc'', hall, fun hc => ?_⟩
    rw [← hkeeps]
    constructor
    · intro hsame
      have hkey := hsame key hk.symm
      rw [hall, if_neg hk.symm, if_pos rfl, hformer hc] at hkey
      exact Option.some.inj hkey
    · intro hdata j hj
      rw [hall, if_neg hj]
      split_ifs with hjkey
      · rw [hjkey, hformer hc, hdata]
      · exact hc j

end Element

/-! ### A list whose first item becomes a truth value -/

/-- A node with a list of two integers. -/
def itemized? : Except GraphError Graph := do
  let g ← ({ empty ⟨2⟩ with supply := pickingNode.2 } : Graph).addNode pickingNode.1
  let (_, g) ← g.write ⟨4⟩ (.array [.integer 1, .integer 2])
  return g

/-- The graph of the node. -/
def itemized : Graph :=
  itemized?.toOption.getD (empty ⟨0⟩)

theorem edited_itemized : itemized.Edited := by
  have h : itemized? = .ok itemized := rfl
  obtain ⟨g, hg, h⟩ := Except.bind_eq_ok.1 h
  obtain ⟨⟨v, g'⟩, hg', h⟩ := Except.bind_eq_ok.1 h
  cases h
  have hfresh := Node.fresh_create ⟨1⟩ "picking" picking [] ⟨2⟩
  have hfirst : g.Edited := by
    refine .edit (.start ⟨2⟩) (.addNode hfresh.drawn.le (admits_of_fresh (regular_empty _) hfresh)
      (fun p hp hused => ?_) hg) fun id n _ hn => ?_
    · exact absurd hused (not_lt.2 ((hfresh.drawn.mem p hp).resolve_left List.not_mem_nil).1)
    · rw [node?_addNode hg] at hn
      split_ifs at hn
      · exact Option.some.inj hn ▸ hfresh.sound.tidy
      · cases hn
  exact hfirst.write hg'

/-- The list holds the integer still, and takes over what became of it with the next write to the second item. -/
theorem retype_element_itemized : ∃ n top e es g' top' g'', itemized.Edited ∧
    itemized.ElementAt n (.output "items") top [] top "0" e ∧ e.data = .integer 1 ∧
    itemized.setPortType e.id .boolean = .ok (es, g') ∧ g'.node? n.id = some (n.setPort (.output "items") top') ∧
    top'.data = .array [.integer 1, .integer 2] ∧ ¬ Port.TruthfulAlong [] top' ∧
    g'.write ⟨7⟩ (.integer 5) = .ok (.integer 5, g'') ∧
    (g''.port? ⟨4⟩).map Port.data = some (.array [.boolean true, .integer 5]) := by
  obtain ⟨n, hn, hnid, top, htop, hdata, hvalues, e, he, hid, hvalue, htype⟩ : ∃ n, itemized.node? ⟨1⟩ = some n ∧
      n.id = ⟨1⟩ ∧ ∃ top, n.portAt? (.output "items") = some top ∧ top.data = .array [.integer 1, .integer 2] ∧
      Keyed.mapValues Port.data top.elements = top.former.elements ∧
      ∃ e, Keyed.find? "0" top.elements = some e ∧ e.id = ⟨6⟩ ∧ e.data = .integer 1 ∧ e.dataType = .integer :=
    ⟨_, rfl, rfl, _, rfl, rfl, by decide +kernel, _, rfl, rfl, rfl, rfl⟩
  have hkeeps : ¬ e.Keeps .boolean := by
    rw [Port.Keeps, hvalue, htype]
    decide
  have hruns : (itemized.setPortType ⟨6⟩ .boolean).toOption.bind (fun r => (r.2.write ⟨7⟩ (.integer 5)).toOption.bind
      fun r => (r.2.port? ⟨4⟩).map fun p => (r.1, p.data)) =
      some (.integer 5, .array [.boolean true, .integer 5]) := by decide +kernel
  have hat : itemized.ElementAt n (.output "items") top [] top "0" e := ⟨hnid ▸ hn, htop, rfl, he⟩
  have htruth : Port.TruthfulAlong [] top := fun above q habove hq key => by
    obtain rfl := List.prefix_nil.1 habove
    obtain rfl : top = q := Option.some.inj hq
    rw [Port.AgreesAt, ← hvalues, Keyed.find?_mapValues]
  obtain ⟨es, g', top', e', -, hset, hnodes, halong, -, hiff, -⟩ := Edited.retype_element edited_itemized hat .boolean
  obtain ⟨q, -, fs, hq, hq', -, -, -⟩ := halong.above [] "0" [] rfl
  obtain rfl : top = q := Option.some.inj hq
  obtain rfl : top' = { top with elements := fs } := Option.some.inj hq'
  rw [← hid, hset] at hruns
  change (g'.write ⟨7⟩ (.integer 5)).toOption.bind _ = _ at hruns
  cases hwrite : g'.write ⟨7⟩ (.integer 5) with
  | error err =>
    rw [hwrite] at hruns
    cases hruns
  | ok result =>
    obtain ⟨w, g''⟩ := result
    rw [hwrite] at hruns
    obtain ⟨p, hp, hpair⟩ := Option.map_eq_some_iff.1 hruns
    obtain ⟨rfl, hitems⟩ := Prod.mk.inj hpair
    exact ⟨n, top, e, es, g', _, g'', edited_itemized, hat, hvalue, hset, (hnodes n.id).trans (if_pos rfl), hdata,
      fun htruth' => hkeeps ((hiff htruth).1 htruth'), hwrite, by rw [hp, Option.map_some, hitems]⟩

end Graph

end Dataflow
