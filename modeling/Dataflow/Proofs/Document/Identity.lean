import Dataflow.Proofs.Document.RoundTrip

/-!
# Identifiers of a loaded graph

A document tells the identifiers of ports, and nothing compares them when it is loaded. Every other port has one that is
fresh.

* `PortDocument.ids_apply`, `NodeDocument.idsAt_applyPorts`: a loaded port has the identifiers of its document, a port
  without a document those that it was made with;
* `Resolver.Draws` says that new nodes have fresh ports; `Registry.draws` that those of a registry do;
* `GraphDocument.addNodes_portIds`: the identifiers of a graph are those of its documents and fresh ones;
* `Graph.Unambiguous` says that identifiers tell the ports of a graph apart, and that a look-up finds the right one;
* `GraphDocument.restore_unambiguous`: so it is if and only if the documents that were used tell them apart.
-/

namespace Dataflow

/-! ### Ports -/

namespace PortDocument

mutual
/-- The identifiers in a document, its own first. -/
def ids : PortDocument → List PortId
  | ⟨id, _, _, elements⟩ => id :: idsOptional elements
termination_by structural d => d

/-- The identifiers in a list of documents that may be missing. -/
def idsOptional : Option (List (String × PortDocument)) → List PortId
  | none => []
  | some documents => idsAll documents
termination_by structural ds => ds

/-- The identifiers in a list of documents. -/
def idsAll : List (String × PortDocument) → List PortId
  | [] => []
  | (_, d) :: rest => ids d ++ idsAll rest
termination_by structural ds => ds
end

theorem ids_restored {p q : Port} {id : PortId} {t : DataType} {v : Value} {es : List (String × Port)}
    (h : p.restored id t v es = .ok q) : q.ids = id :: Port.idsAll es := by
  unfold Port.restored at h
  split_ifs at h
  · cases h
    rw [Port.ids]
  · obtain ⟨w, -, hq⟩ := Except.bind_eq_ok.1 h
    cases hq
    rw [Port.ids]

mutual
theorem ids_elementPorts (parent : Port) (d : PortDocument) :
    ∀ {es : List (String × Port)}, elementPorts parent d = .ok es → d.ids = d.id :: Port.idsAll es := by
  obtain ⟨id, t, v, elements⟩ := d
  intro es h
  rw [ids, ids_optionalPorts parent elements h]
termination_by structural d

theorem ids_optionalPorts (parent : Port) (ds : Option (List (String × PortDocument))) :
    ∀ {es : List (String × Port)}, optionalPorts parent ds = .ok es → idsOptional ds = Port.idsAll es := by
  intro es h
  cases ds with
  | none =>
    cases h
    rfl
  | some documents => exact ids_listedPorts parent documents h
termination_by structural ds

/-- Element ports have the identifiers of their documents. -/
theorem ids_listedPorts (parent : Port) (ds : List (String × PortDocument)) :
    ∀ {es : List (String × Port)}, listedPorts parent ds = .ok es → idsAll ds = Port.idsAll es := by
  intro es h
  cases ds with
  | nil =>
    cases h
    rfl
  | cons entry rest =>
    obtain ⟨key, d⟩ := entry
    rw [listedPorts] at h
    obtain ⟨below, hbelow, h⟩ := Except.bind_eq_ok.1 h
    obtain ⟨p, hp, h⟩ := Except.bind_eq_ok.1 h
    obtain ⟨later, hlater, h⟩ := Except.bind_eq_ok.1 h
    cases h
    rw [idsAll, Port.idsAll, ids_elementPorts parent d hbelow, ids_restored hp, ids_listedPorts parent rest hlater]
termination_by structural ds
end

/-- **A loaded port has the identifiers of its document.** -/
theorem ids_apply {d : PortDocument} {p q : Port} (h : d.apply p = .ok q) : q.ids = d.ids := by
  rw [apply] at h
  cases hrestored : (elementPorts p d >>= fun es => p.restored d.id d.dataType d.data es) with
  | error e =>
    rw [hrestored] at h
    cases h
  | ok r =>
    rw [hrestored] at h
    cases h
    obtain ⟨es, hes, hq⟩ := Except.bind_eq_ok.1 hrestored
    rw [ids_restored hq, ids_elementPorts p d hes]

end PortDocument

/-! ### Nodes -/

/-- A port takes the place of another one. -/
theorem Node.entries_setPort_of_some {n : Node} (hn : n.Ordered) {slot : Slot} {p : Port}
    (hp : n.portAt? slot = some p) (q : Port) :
    (n.setPort slot q).entries = n.entries.map fun e => if slot = e.1 then (slot, q) else e := by
  obtain ⟨before, after, hsplit, hset⟩ := entries_setPort hn slot
  rw [hp, Option.map_some, Option.toList_some, List.append_assoc, List.singleton_append] at hsplit
  have hproper := hn.proper
  rw [hsplit, Table.Proper, List.map_append, List.map_cons, List.nodup_middle, ← List.map_append] at hproper
  have hother : ∀ e ∈ before ++ after, slot ≠ e.1 := fun e he heq =>
    (List.nodup_cons.1 hproper).1 (List.mem_map.2 ⟨e, he, heq.symm⟩)
  have hsame : ∀ es : Table Slot Port, (∀ e ∈ es, slot ≠ e.1) →
      (es.map fun e => if slot = e.1 then (slot, q) else e) = es := fun es hes =>
    (List.map_congr_left fun e he => if_neg (hes e he)).trans es.map_id
  rw [hset, hsplit, List.map_append, List.map_cons, if_pos rfl,
    hsame before fun e he => hother e (List.mem_append_left _ he),
    hsame after fun e he => hother e (List.mem_append_right _ he)]

namespace NodeDocument

/-- The documents of the ports of a node, place by place. Of several documents for one place the last one counts. -/
def documentAt? (ds : List (Slot × PortDocument)) (slot : Slot) : Option PortDocument :=
  Table.find? slot ds.reverse

theorem documentAt?_cons (slot slot' : Slot) (d : PortDocument) (rest : List (Slot × PortDocument)) :
    documentAt? ((slot, d) :: rest) slot' =
      (documentAt? rest slot').or (if slot = slot' then some d else none) := by
  rw [documentAt?, List.reverse_cons, Table.find?_append]
  rfl

/-- The identifiers below each place of a node, as documents tell them. -/
theorem idsAt_applyPorts {ds : List (Slot × PortDocument)} {n m : Node} (hn : n.Ordered)
    (h : applyPorts ds n = .ok m) :
    m.Ordered ∧ m.entries.map (fun e => (e.1, e.2.ids)) =
      n.entries.map fun e => (e.1, (documentAt? ds e.1).elim e.2.ids PortDocument.ids) := by
  induction ds generalizing n with
  | nil =>
    cases h
    exact ⟨hn, rfl⟩
  | cons entry rest ih =>
    obtain ⟨slot, d⟩ := entry
    rw [applyPorts] at h
    cases hp : n.portAt? slot with
    | none =>
      simp only [hp] at h
      obtain ⟨hm, hids⟩ := ih hn h
      refine ⟨hm, hids.trans (List.map_congr_left fun e he => ?_)⟩
      have hne : slot ≠ e.1 := fun heq => by
        rw [heq, (Node.mem_entries hn).1 he] at hp
        cases hp
      rw [documentAt?_cons, if_neg hne, Option.or_none]
    | some p =>
      simp only [hp] at h
      obtain ⟨q, hq, h⟩ := Except.bind_eq_ok.1 h
      obtain ⟨hm, hids⟩ := ih hn.setPort h
      refine ⟨hm, hids.trans ?_⟩
      rw [Node.entries_setPort_of_some hn hp, List.map_map]
      refine List.map_congr_left fun e _ => ?_
      rw [Function.comp_apply, documentAt?_cons]
      by_cases heq : slot = e.1
      · rw [if_pos heq, if_pos heq, heq, PortDocument.ids_apply hq]
        cases documentAt? rest e.1 <;> rfl
      · rw [if_neg heq, if_neg heq, Option.or_none]

/-- The documents that are used for the ports of a node, by place. -/
def documented (d : NodeDocument) (n : Node) : List (Slot × PortDocument) :=
  (n.entries.map Prod.fst).filterMap fun slot => (documentAt? d.slots slot).map (slot, ·)

/-- The identifiers that a document gives to the ports of a node. -/
def idsIn (d : NodeDocument) (n : Node) : List PortId :=
  (d.documented n).flatMap fun e => e.2.ids

/-- The identifiers in a document, also for places that a node does not have. -/
def portIds (d : NodeDocument) : List PortId :=
  d.slots.flatMap fun e => e.2.ids

theorem idsIn_eq (d : NodeDocument) (n : Node) :
    d.idsIn n = (n.entries.map Prod.fst).flatMap fun slot => (documentAt? d.slots slot).elim [] PortDocument.ids := by
  unfold idsIn documented
  induction n.entries.map Prod.fst with
  | nil => rfl
  | cons slot rest ih =>
    rw [List.flatMap_cons, ← ih, List.filterMap_cons]
    cases documentAt? d.slots slot with
    | none => rfl
    | some document => rw [Option.map_some, List.flatMap_cons, Option.elim_some]

/-- Each document of a place is used once at most. -/
theorem idsIn_subperm (d : NodeDocument) {n : Node} (hn : n.Ordered) : (d.idsIn n).Subperm d.portIds := by
  have hnodup : (d.documented n).Nodup := by
    refine List.Nodup.filterMap (fun slot slot' e he he' => ?_) hn.proper
    obtain ⟨_, -, rfl⟩ := Option.map_eq_some_iff.1 he
    obtain ⟨_, -, heq⟩ := Option.map_eq_some_iff.1 he'
    exact (congrArg Prod.fst heq).symm
  have hsubset : d.documented n ⊆ d.slots := by
    intro e he
    obtain ⟨slot, -, he⟩ := List.mem_filterMap.1 he
    obtain ⟨document, hfound, rfl⟩ := Option.map_eq_some_iff.1 he
    exact List.mem_reverse.1 (Table.mem_of_find? hfound)
  obtain ⟨es, hperm, hsub⟩ := hnodup.subperm hsubset
  exact ⟨_, hperm.flatMap_right _, hsub.flatMap _⟩

/-- **The identifiers of a loaded node are those of its document, and some that it was made with.** -/
theorem portIds_applyPorts {d : NodeDocument} {n m : Node} (hn : n.Ordered) (h : applyPorts d.slots n = .ok m) :
    m.Ordered ∧ ∃ fresh, m.portIds.Perm (d.idsIn m ++ fresh) ∧ fresh.Sublist n.portIds := by
  obtain ⟨hm, hids⟩ := idsAt_applyPorts hn h
  have hslots : m.entries.map Prod.fst = n.entries.map Prod.fst := by
    have := congrArg (List.map Prod.fst) hids
    simpa only [List.map_map, Function.comp_def] using this
  have hall : m.portIds =
      n.entries.flatMap fun e => (documentAt? d.slots e.1).elim e.2.ids PortDocument.ids := by
    have := congrArg (List.flatMap Prod.snd) hids
    rw [Node.portIds_eq]
    simpa only [List.flatMap_map] using this
  refine ⟨hm, n.entries.flatMap fun e => (documentAt? d.slots e.1).elim e.2.ids fun _ => [], ?_, ?_⟩
  · rw [idsIn_eq, hslots, List.flatMap_map, hall]
    refine ((List.flatMap_append_perm ..).trans (List.Perm.of_eq ?_)).symm
    refine List.flatMap_congr fun e _ => ?_
    cases documentAt? d.slots e.1 with
    | none => rfl
    | some document => exact List.append_nil _
  · rw [Node.portIds_eq]
    refine List.Sublist.flatMap_right _ fun e _ => ?_
    cases documentAt? d.slots e.1 with
    | none => exact List.Sublist.refl _
    | some document => exact List.nil_sublist _

end NodeDocument

/-- The ports of a new node were drawn for it. -/
def Resolver.Draws (resolver : Resolver) : Prop :=
  ∀ {typeId : String} {id : NodeId} {label : String} {config : Config} {s s' : Supply} {n : Node},
    resolver typeId id label config s = .ok (n, s') → n.Ordered ∧ s.Renews [] s' n.portIds

/-- **A registry draws the ports of its nodes.** -/
theorem Registry.draws (registry : Registry) : Resolver.Draws registry.construct := by
  intro typeId id label config s s' n h
  obtain ⟨b, -, heq⟩ := Except.map_eq_ok.1 h
  have hfresh := Node.fresh_create id label b config s
  rw [heq] at hfresh
  exact ⟨hfresh.sound.ordered, hfresh.drawn⟩

/-! ### Graphs -/

namespace Graph

/-- Identifiers tell all ports of a graph apart, and looking one up finds the port that has it. -/
structure Unambiguous (g : Graph) : Prop where
  distinct : (g.nodeList.flatMap Node.portIds).Nodup
  owner : ∀ n ∈ g.nodeList, ∀ p ∈ n.portIds, g.ownerOf? p = some n.id
  found : ∀ n ∈ g.nodeList, ∀ (slot : Slot) (top : Port), n.portAt? slot = some top →
    ∀ q ∈ top.flatten, g.port? q.id = some q

/-- Every port has an owner, and the owner of a port is a node that has it. Others may have it too. -/
structure Arranged (g : Graph) : Prop where
  listed : ∀ {id : NodeId}, id ∈ g.order ↔ (g.node? id).isSome
  named : ∀ {id : NodeId} {n : Node}, g.node? id = some n → n.id = id
  ordered : ∀ {id : NodeId} {n : Node}, g.node? id = some n → n.Ordered
  owner : ∀ {p : PortId} {id : NodeId}, g.ownerOf? p = some id → ∃ n, g.node? id = some n ∧ p ∈ n.portIds
  owned : ∀ {id : NodeId} {n : Node} {p : PortId}, g.node? id = some n → p ∈ n.portIds → (g.ownerOf? p).isSome

theorem arranged_empty (s : Supply) : (empty s).Arranged where
  listed {id} := by simp [empty, node?]
  named h := by cases h
  ordered h := by cases h
  owner h := by cases h
  owned h := by cases h

/-- Identifiers may be drawn for something else. -/
theorem Arranged.draw {g : Graph} (hg : g.Arranged) (s : Supply) : ({ g with supply := s } : Graph).Arranged :=
  ⟨hg.listed, hg.named, hg.ordered, hg.owner, hg.owned⟩

theorem Arranged.addNode {g g' : Graph} {n : Node} (hg : g.Arranged) (hn : n.Ordered) (h : g.addNode n = .ok g') :
    g'.Arranged := by
  have hnode := node?_addNode h
  have howner := ownerOf?_addNode h
  obtain ⟨hnone, hg'⟩ := addNode_eq_ok h
  have horder : g'.order = g.order ++ [n.id] := by rw [hg']
  refine ⟨fun {id} => ?_, fun {id m} hm => ?_, fun {id m} hm => ?_, fun {p id} hp => ?_, fun {id m p} hm hp => ?_⟩
  · rw [horder, List.mem_append, List.mem_singleton, hnode, hg.listed]
    split_ifs with heq
    · exact ⟨fun _ => rfl, fun _ => Or.inr heq.symm⟩
    · exact ⟨fun hid => hid.resolve_right (Ne.symm heq), Or.inl⟩
  · rw [hnode] at hm
    split_ifs at hm with heq
    · cases hm
      exact heq
    · exact hg.named hm
  · rw [hnode] at hm
    split_ifs at hm
    · cases hm
      exact hn
    · exact hg.ordered hm
  · rw [howner] at hp
    split_ifs at hp with hmem
    · cases hp
      exact ⟨n, by rw [hnode, if_pos rfl], hmem⟩
    · obtain ⟨m, hm, hp⟩ := hg.owner hp
      refine ⟨m, ?_, hp⟩
      rw [hnode, if_neg, hm]
      rintro rfl
      rw [hnone] at hm
      cases hm
  · rw [howner]
    by_cases hmem : p ∈ n.portIds
    · rw [if_pos hmem]
      rfl
    · rw [if_neg hmem]
      rw [hnode] at hm
      split_ifs at hm
      · cases hm
        exact absurd hp hmem
      · exact hg.owned hm hp

theorem Arranged.mem_nodeList {g : Graph} (hg : g.Arranged) {n : Node} : n ∈ g.nodeList ↔ g.node? n.id = some n := by
  rw [nodeList, List.mem_filterMap]
  constructor
  · rintro ⟨id, -, hn⟩
    rwa [hg.named hn]
  · exact fun hn => ⟨n.id, hg.listed.2 (by rw [hn]; rfl), hn⟩

/-- In a graph with distinct identifiers, the one node that has a port is its owner. -/
theorem Arranged.unambiguous {g : Graph} (hg : g.Arranged) (h : (g.nodeList.flatMap Node.portIds).Nodup) :
    g.Unambiguous := by
  have howner : ∀ n ∈ g.nodeList, ∀ p ∈ n.portIds, g.ownerOf? p = some n.id := by
    intro n hn p hp
    obtain ⟨id, hid⟩ := Option.isSome_iff_exists.1 (hg.owned (hg.mem_nodeList.1 hn) hp)
    obtain ⟨m, hm, hp'⟩ := hg.owner hid
    have hm' : m ∈ g.nodeList := hg.mem_nodeList.2 (by rw [hg.named hm]; exact hm)
    have hsymm : Std.Symm (Function.onFun List.Disjoint Node.portIds) := ⟨fun _ _ hdis => hdis.symm⟩
    obtain rfl : n = m := by
      by_contra hne
      exact (List.nodup_flatMap.1 h).2.forall hn hm' hne hp hp'
    rw [hid, hg.named hm]
  refine ⟨h, howner, fun n hn slot top htop q hq => ?_⟩
  have hord := hg.ordered (hg.mem_nodeList.1 hn)
  have hnodup : n.portIds.Nodup := (List.nodup_flatMap.1 h).1 n hn
  have hin : q.id ∈ top.ids := Port.mem_ids_iff.2 ⟨q, hq, rfl⟩
  have hp : q.id ∈ n.portIds := (Node.mem_portIds hord).2 ⟨slot, top, htop, hin⟩
  have hport : g.port? q.id = n.port? q.id := by
    simp only [port?, howner n hn _ hp, hg.mem_nodeList.1 hn, Option.bind_eq_bind, Option.bind_some]
  -- the port that is found is below the same place, where it is the only one with its identifier
  obtain ⟨r, hr⟩ := Option.isSome_iff_exists.1 (Node.port?_isSome.2 hp)
  obtain ⟨slot', top', htop', hfind⟩ := Node.port?_eq_some hord hr
  obtain ⟨hmem, hid⟩ := Port.find?_some_mem hfind
  obtain rfl := Node.slot_unique hord hnodup htop htop' hin (Port.mem_ids_iff.2 ⟨r, hmem, hid⟩)
  obtain rfl : top = top' := Option.some.inj (htop.symm.trans htop')
  rw [hport, hr, ← hfind]
  exact (Port.find?_eq_some_iff (Node.nodup_ids hord hnodup htop)).2 ⟨hq, rfl⟩

end Graph

namespace GraphDocument

/-- The identifiers that a document gives to the ports of a graph. -/
def idsIn (d : GraphDocument) (g : Graph) : List PortId :=
  (d.nodes.zip g.nodeList).flatMap fun e => e.1.idsIn e.2

/-- The identifiers in a document. -/
def portIds (d : GraphDocument) : List PortId :=
  d.nodes.flatMap NodeDocument.portIds

theorem idsIn_subperm {ds : List NodeDocument} {ns : List Node} (hns : ∀ n ∈ ns, n.Ordered) :
    ((ds.zip ns).flatMap fun e => e.1.idsIn e.2).Subperm (ds.flatMap NodeDocument.portIds) := by
  induction ds generalizing ns with
  | nil => exact List.Subperm.refl _
  | cons d rest ih =>
    cases ns with
    | nil => exact List.nil_subperm
    | cons n ns =>
      obtain ⟨hn, hns⟩ := List.forall_mem_cons.1 hns
      exact (d.idsIn_subperm hn).append (ih hns)

/-- Identifiers that are drawn one after the other. -/
theorem renews_append {s s' s'' : Supply} {ids ids' : List PortId} (h : s.Renews [] s' ids)
    (h' : s'.Renews [] s'' ids') : s.Renews [] s'' (ids ++ ids') := by
  have hlater := h'.append ids []
  rw [List.append_nil, List.append_nil, List.append_nil] at hlater
  exact h.trans hlater

/-- **The identifiers of loaded nodes are those of their documents and fresh ones.** -/
theorem addNodes_portIds {resolver : Resolver} (hresolver : resolver.Draws) {ds : List NodeDocument} {g g' : Graph}
    (hg : g.Arranged) (h : addNodes resolver ds g = .ok g') :
    g'.Arranged ∧ ∃ ns fresh, g'.nodeList = g.nodeList ++ ns ∧ (∀ n ∈ ns, n.Ordered) ∧
      (ns.flatMap Node.portIds).Perm ((ds.zip ns).flatMap (fun e => e.1.idsIn e.2) ++ fresh) ∧
      g.supply.Renews [] g'.supply fresh := by
  induction ds generalizing g with
  | nil =>
    cases h
    exact ⟨hg, [], [], by simp, fun n hn => absurd hn List.not_mem_nil, List.Perm.refl _, .refl _ _⟩
  | cons d rest ih =>
    obtain ⟨⟨n, s⟩, hmade, h⟩ := Except.bind_eq_ok.1 h
    obtain ⟨m, happly, h⟩ := Except.bind_eq_ok.1 h
    obtain ⟨g₁, hadd, h⟩ := Except.bind_eq_ok.1 h
    obtain ⟨hn, hdrawn⟩ := hresolver hmade
    obtain ⟨hm, fresh, hperm, hsub⟩ := NodeDocument.portIds_applyPorts hn happly
    have hlist := Graph.nodeList_addNode hadd fun id => (hg.draw s).listed.1
    change g₁.nodeList = g.nodeList ++ [m] at hlist
    have hsupply : g₁.supply = s := by rw [(Graph.addNode_eq_ok hadd).2]
    obtain ⟨hg', ns, fresh', hnodes, hns, hperm', hdrawn'⟩ := ih ((hg.draw s).addNode hm hadd) h
    rw [hsupply] at hdrawn'
    refine ⟨hg', m :: ns, fresh ++ fresh', ?_, List.forall_mem_cons.2 ⟨hm, hns⟩, ?_, ?_⟩
    · rw [hnodes, hlist, List.append_assoc, List.singleton_append]
    · rw [List.zip_cons_cons, List.flatMap_cons, List.flatMap_cons]
      refine (hperm.append hperm').trans ?_
      rw [List.append_assoc, List.append_assoc]
      refine List.Perm.append_left _ ?_
      rw [← List.append_assoc, ← List.append_assoc]
      exact List.Perm.append_right _ List.perm_append_comm
    · exact renews_append (hdrawn.trans (.of_sublist hsub)) hdrawn'

/-- Edges change neither nodes nor owners. -/
theorem addEdges_frame {es : List Edge} {g g' : Graph} (h : addEdges es g = .ok g') :
    g'.order = g.order ∧ g'.nodes = g.nodes ∧ g'.owners = g.owners := by
  induction es generalizing g with
  | nil =>
    cases h
    exact ⟨rfl, rfl, rfl⟩
  | cons e rest ih => exact (addEdges_cons h).2.elim (fun h => ih (g := g.link e) h.2) fun h => ih (g := g.linkFlagged e) h.2

/-- **Loading keeps the ports of a graph apart if and only if the document does.** The identifiers of the ports are told
apart, and each is found at its node, if and only if those documents that were used for a port tell them apart. So it is
if no identifier occurs twice in the document. -/
theorem restore_unambiguous {d : GraphDocument} {resolver : Resolver} (hresolver : resolver.Draws) {s : Supply}
    (hused : ∀ p ∈ d.portIds, s.Used p) {g : Graph} (h : d.restore resolver s = .ok g) :
    (g.Unambiguous ↔ (d.idsIn g).Nodup) ∧ (d.portIds.Nodup → g.Unambiguous) := by
  obtain ⟨g₁, hnodes, hedges⟩ := Except.bind_eq_ok.1 h
  obtain ⟨hg₁, ns, fresh, hlist, hns, hperm, hdrawn⟩ := addNodes_portIds hresolver (Graph.arranged_empty s) hnodes
  obtain ⟨horder, htable, howners⟩ := addEdges_frame hedges
  have hnode : ∀ id, g.node? id = g₁.node? id := fun id => by rw [Graph.node?, htable, Graph.node?]
  have howner : ∀ p, g.ownerOf? p = g₁.ownerOf? p := fun p => by rw [Graph.ownerOf?, howners, Graph.ownerOf?]
  have hg : g.Arranged := by
    refine ⟨fun {id} => ?_, fun h => hg₁.named (hnode _ ▸ h), fun h => hg₁.ordered (hnode _ ▸ h), fun {p id} hp => ?_,
      fun {id n p} hn hp => ?_⟩
    · rw [horder, hnode]
      exact hg₁.listed
    · rw [hnode]
      exact hg₁.owner (howner p ▸ hp)
    · rw [howner]
      exact hg₁.owned (hnode id ▸ hn) hp
  have hall : g.nodeList = ns := by
    rw [Graph.nodeList, horder, List.filterMap_congr fun id _ => hnode id]
    exact hlist
  rw [← hall] at hperm hns
  have hsubperm : (d.idsIn g).Subperm d.portIds := idsIn_subperm hns
  -- what was drawn is fresh, so that only documents can give an identifier twice
  have hiff : (g.nodeList.flatMap Node.portIds).Nodup ↔ (d.idsIn g).Nodup := by
    rw [hperm.nodup_iff, List.nodup_append']
    refine ⟨fun h => h.1, fun h => ⟨h, hdrawn.nodup List.nodup_nil (by simp), fun p hp hp' => ?_⟩⟩
    have hlate := ((hdrawn.mem p hp').resolve_left List.not_mem_nil).1
    exact absurd (hused p (hsubperm.subset hp)) (not_lt.2 hlate)
  refine ⟨⟨fun h => hiff.1 h.distinct, fun h => hg.unambiguous (hiff.2 h)⟩, fun h => hg.unambiguous (hiff.2 ?_)⟩
  obtain ⟨ids, hids, hsub⟩ := hsubperm
  exact hids.nodup_iff.1 (h.sublist hsub)

/-! ### A document that gives an identifier twice -/

/-- A node whose place for an item has a given identifier. -/
def itemDocument (id : NodeId) (port : PortId) : NodeDocument :=
  { id, typeId := "picking", label := "n", config := []
    ports := { NodePorts.empty with inputs := [("item", ⟨port, .integer, .null, none⟩)] } }

/-- Two nodes that share a port. -/
def doubled : GraphDocument :=
  { nodes := [itemDocument ⟨1⟩ ⟨5⟩, itemDocument ⟨2⟩ ⟨5⟩], edges := [] }

/-- The document is loaded, and the port of the first node is looked up at the second one. -/
theorem restore_doubled : ∃ g, doubled.restore Graph.pickingRegistry.construct ⟨8⟩ = .ok g ∧
    (∀ p ∈ doubled.portIds, (⟨8⟩ : Supply).Used p) ∧ g.ownerOf? ⟨5⟩ = some ⟨2⟩ ∧ ¬ g.Unambiguous := by
  have hloaded : (doubled.restore Graph.pickingRegistry.construct ⟨8⟩).toOption.map
      (fun g => (g.ownerOf? ⟨5⟩, doubled.idsIn g)) = some (some ⟨2⟩, [⟨5⟩, ⟨5⟩]) := by decide +kernel
  obtain ⟨g, hg, heq⟩ := Option.map_eq_some_iff.1 hloaded
  obtain ⟨howner, hids⟩ := Prod.mk.inj heq
  have hused : ∀ p ∈ doubled.portIds, (⟨8⟩ : Supply).Used p := by
    have hports : doubled.portIds = [⟨5⟩, ⟨5⟩] := rfl
    intro p hp
    obtain rfl : p = ⟨5⟩ := by simpa [hports] using hp
    exact (by decide : 5 < 8)
  have hrestore : doubled.restore Graph.pickingRegistry.construct ⟨8⟩ = .ok g := by
    cases hresult : doubled.restore Graph.pickingRegistry.construct ⟨8⟩ with
    | error e =>
      rw [hresult] at hg
      cases hg
    | ok g' =>
      rw [hresult] at hg
      exact congrArg _ (Option.some.inj hg)
  refine ⟨g, hrestore, hused, howner, fun hunambiguous => ?_⟩
  have hnodup := (restore_unambiguous (Registry.draws _) hused hrestore).1.1 hunambiguous
  rw [hids] at hnodup
  exact absurd hnodup (by decide)

end GraphDocument

end Dataflow
