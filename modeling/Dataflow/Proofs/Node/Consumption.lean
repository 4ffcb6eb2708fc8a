import Dataflow.Proofs.Node.Places

/-!
# Taking the unread outputs of a node

The outputs of a node are taken one port after the other. Together, this marks a set of ports as read at once.

* `Port.consume ids` is a tree in which the ports with some identifiers were read, and `Node.consume ids` a node in which
  those of the output side were;
* `Node.consume_of_port?`: reading a port of the output side marks it and nothing else;
* `Graph.takeUnread_eq`: what is taken are the values of the unread ports, which are all read afterwards;
* `Graph.takeUnread_of_read`: where nothing is unread, nothing is taken and nothing changes.
-/

namespace Dataflow

open Keyed

namespace Port

mutual
/-- Read the ports of a tree that have one of some identifiers. -/
def consume (ids : List PortId) : Port → Port
  | ⟨id, name, direction, kind, dataType, data, version, lastRead, elements⟩ =>
    ⟨id, name, direction, kind, dataType, data, version, if id ∈ ids then version else lastRead, consumeAll ids elements⟩
termination_by structural p => p

/-- Read such ports in all trees below a container. -/
def consumeAll (ids : List PortId) : List (String × Port) → List (String × Port)
  | [] => []
  | (key, p) :: rest => (key, consume ids p) :: consumeAll ids rest
termination_by structural ps => ps
end

section Consume

variable (ids : List PortId) (p : Port)

theorem consumeAll_eq (es : List (String × Port)) : consumeAll ids es = mapValues (consume ids) es := by
  induction es with
  | nil => rfl
  | cons entry rest ih => rw [consumeAll, ih]; rfl

theorem consume_eq : p.consume ids =
    { p with
      lastRead := if p.id ∈ ids then p.version else p.lastRead, elements := mapValues (consume ids) p.elements } := by
  obtain ⟨id, name, direction, kind, dataType, data, version, lastRead, elements⟩ := p
  rw [consume, consumeAll_eq]

@[simp] theorem consume_id : (p.consume ids).id = p.id := by rw [consume_eq]

@[simp] theorem consume_data : (p.consume ids).data = p.data := by rw [consume_eq]

@[simp] theorem consume_elements : (p.consume ids).elements = mapValues (consume ids) p.elements := by rw [consume_eq]

theorem hasNewData_consume : (p.consume ids).hasNewData = if p.id ∈ ids then false else p.hasNewData := by
  rw [consume_eq, hasNewData]
  split_ifs
  · exact decide_eq_false (lt_irrefl _)
  · rfl

theorem flatten_consume : (p.consume ids).flatten = p.flatten.map (consume ids) := by
  induction p using Port.induction with
  | step p ih =>
    rw [flatten_eq, flatten_eq p, List.map_cons, List.map_flatMap, consume_elements]
    congr 1
    rw [mapValues, List.flatMap_map]
    exact List.flatMap_congr fun e he => ih e he

@[simp] theorem ids_consume : (p.consume ids).ids = p.ids := by
  rw [ids_eq_map_flatten, flatten_consume, List.map_map, ids_eq_map_flatten]
  exact List.map_congr_left fun q _ => consume_id ids q

theorem find?_consume (id : PortId) : (p.consume ids).find? id = (p.find? id).map (consume ids) := by
  rw [Port.find?, flatten_consume, List.find?_map, Port.find?]
  congr 2
  funext q
  rw [Function.comp_apply, consume_id]

variable {ids p}

/-- A tree without the identifiers stays as it is. -/
theorem consume_of_disjoint (h : ∀ i ∈ ids, i ∉ p.ids) : p.consume ids = p := by
  induction p using Port.induction with
  | step p ih =>
    have hself : p.id ∉ ids := fun hid => h _ hid (id_mem_ids p)
    have hbelow : mapValues (consume ids) p.elements = p.elements := by
      refine (List.map_congr_left fun e he => ?_).trans (List.map_id _)
      rw [ih e he fun i hi hin => h i hi (mem_ids.2 (Or.inr ⟨e, he, hin⟩))]
      rfl
    rw [consume_eq, if_neg hself, hbelow]
    cases p
    rfl

theorem consume_consume (ids ids' : List PortId) (p : Port) : (p.consume ids).consume ids' = p.consume (ids ++ ids') := by
  induction p using Port.induction with
  | step p ih =>
    have hbelow : mapValues (consume ids') (mapValues (consume ids) p.elements) =
        mapValues (consume (ids ++ ids')) p.elements := by
      rw [mapValues, mapValues, List.map_map, mapValues]
      exact List.map_congr_left fun e he => congrArg (Prod.mk e.1) (ih e he)
    have hread : (if p.id ∈ ids' then p.version else if p.id ∈ ids then p.version else p.lastRead) =
        if p.id ∈ ids ++ ids' then p.version else p.lastRead := by
      by_cases h : p.id ∈ ids <;> by_cases h' : p.id ∈ ids' <;> simp [h, h']
    rw [consume_eq ids p, consume_eq ids', consume_eq (ids ++ ids')]
    simp only [hbelow, hread]

/-- To read one port of a tree with distinct identifiers is to consume its identifier. -/
theorem Edit.eq_consume {id : PortId} {p q : Port} (h : Edit (fun r => r) id (fun c c' => c' = c.read.2) p q)
    (hn : p.ids.Nodup) : q = p.consume [id] := by
  induction h with
  | @here p q hid hread =>
    have hbelow : mapValues (consume [id]) p.elements = p.elements := by
      refine (List.map_congr_left fun e he => ?_).trans (List.map_id _)
      rw [consume_of_disjoint fun i hi => List.mem_singleton.1 hi ▸ hid ▸ id_notMem_ids hn he]
      rfl
    rw [hread, consume_eq, if_pos (List.mem_singleton.2 hid), hbelow]
    rfl
  | @inside p c c' before after key hid hes hbefore hedit ih =>
    rw [ids_split hes, List.append_assoc, List.nodup_append', List.nodup_append'] at hn
    obtain ⟨-, ⟨hc, -, hafter⟩, -⟩ := hn
    have hothers : ∀ list : List (String × Port), (∀ e ∈ list, id ∉ e.2.ids) → mapValues (consume [id]) list = list := by
      intro list hlist
      refine (List.map_congr_left fun e he => ?_).trans (List.map_id _)
      rw [consume_of_disjoint fun i hi => List.mem_singleton.1 hi ▸ hlist e he]
      rfl
    have hlast : ∀ e ∈ after, id ∉ e.2.ids := fun e he hin =>
      hafter hedit.mem_ids (List.mem_flatMap.2 ⟨e, he, hin⟩)
    have hall : mapValues (consume [id]) p.elements = before ++ (key, c') :: after := by
      rw [hes, mapValues, List.map_append, List.map_cons, ← mapValues, ← mapValues, hothers before hbefore,
        hothers after hlast, ih hc]
    rw [consume_eq, if_neg (fun h => hid (List.mem_singleton.1 h)), hall]

end Consume

end Port

namespace Node

/-- Read the ports of the output side that have one of some identifiers. -/
def consume (ids : List PortId) (n : Node) : Node :=
  { n with
    execOut := n.execOut.consume ids, outputs := mapValues (Port.consume ids) n.outputs
    controlOutputs := mapValues (Port.consume ids) n.controlOutputs }

section Consume

variable (ids : List PortId) (n : Node)

@[simp] theorem consume_node_id : (n.consume ids).id = n.id := rfl

theorem shell_consume : (n.consume ids).shell = n.shell := rfl

theorem portAt?_consume (slot : Slot) : (n.consume ids).portAt? slot =
    if slot.isOutput = true then (n.portAt? slot).map (Port.consume ids) else n.portAt? slot := by
  cases slot <;> simp [consume, portAt?, Slot.isOutput]

theorem portIds_consume : (n.consume ids).portIds = n.portIds := by
  simp [portIds, ports, consume, List.flatMap_map]

theorem outputIds_consume : (n.consume ids).outputIds = n.outputIds := by
  simp [outputIds, outputSide, consume, List.flatMap_map]

variable {ids n}

theorem Ordered.consume (hn : n.Ordered) : (n.consume ids).Ordered :=
  ⟨hn.inputs, hn.controlInputs, ascending_mapValues.2 hn.outputs, ascending_mapValues.2 hn.controlOutputs⟩

/-- A look-up on the output side finds the port as it is now. -/
theorem port?_consume (hn : n.Ordered) (hd : n.portIds.Nodup) {id : PortId} (hid : id ∈ n.outputIds) :
    (n.consume ids).port? id = (n.port? id).map (Port.consume ids) := by
  obtain ⟨slot, top, hs, htop, hin⟩ := (mem_outputIds hn).1 hid
  have htop' : (n.consume ids).portAt? slot = some (top.consume ids) := by
    rw [portAt?_consume, if_pos hs, htop, Option.map_some]
  rw [port?_eq hn hd htop hin, port?_eq hn.consume (by rwa [portIds_consume]) htop' (by rwa [Port.ids_consume]),
    Port.find?_consume]

theorem consume_consume (hn : n.Ordered) (ids' : List PortId) : (n.consume ids).consume ids' = n.consume (ids ++ ids') := by
  refine ext_places hn.consume hn.consume.consume rfl fun slot => ?_
  rw [portAt?_consume, portAt?_consume, portAt?_consume]
  split_ifs
  · rw [Option.map_map]
    exact congrArg (fun f => (n.portAt? slot).map f) (funext fun p => Port.consume_consume ids ids' p)
  · rfl

theorem consume_nil (hn : n.Ordered) : n.consume [] = n := by
  refine ext_places hn hn.consume rfl fun slot => ?_
  rw [portAt?_consume]
  split_ifs
  · refine (congrArg (fun f => (n.portAt? slot).map f) (funext fun p => ?_)).trans Option.map_id'
    exact Port.consume_of_disjoint fun i hi => absurd hi List.not_mem_nil
  · rfl

/-- To read a port of the output side is to consume its identifier. -/
theorem replacePort?_read (hn : n.Ordered) (hd : n.portIds.Nodup) {id : PortId} (hid : id ∈ n.outputIds) {c : Port}
    (hc : n.port? id = some c) : n.replacePort? id c.read.2 = some (n.consume [id]) := by
  obtain ⟨slot, top, hs, htop, hin⟩ := (mem_outputIds hn).1 hid
  have hsome : (Port.replace? id c.read.2 top).isSome := Port.replace?_isSome.2 hin
  obtain ⟨top', htop'⟩ := Option.isSome_iff_exists.1 hsome
  have hr : n.replacePort? id c.read.2 = some (n.setPort slot top') := by
    rw [replacePort?_eq hn hd htop hin, htop', Option.map_some]
  obtain ⟨slot', top₁, top₁', htop₁, hset, hedit⟩ := replacePort?_edit hn hd hc hr
  obtain rfl := slot_unique hn hd htop₁ htop hedit.mem_ids hin
  obtain rfl : top₁ = top := Option.some.inj (htop₁.symm.trans htop)
  have hread : Port.Edit (fun r => r) id (fun x x' => x' = x.read.2) top₁ top₁' :=
    hedit.imp fun x x' ⟨hx, hx'⟩ => hx.symm ▸ hx'
  have hnew := hread.eq_consume (nodup_ids hn hd htop)
  rw [hr, hset, hnew]
  refine congrArg some (ext_places hn.consume hn.setPort ?_ fun place => ?_)
  · rw [shell_setPort, shell_consume]
  · rw [portAt?_setPort, portAt?_consume]
    by_cases hplace : slot' = place
    · subst hplace
      rw [if_pos rfl, if_pos hs, htop, Option.map_some]
    · rw [if_neg hplace]
      split_ifs
      · -- another place does not have the identifier
        cases hother : n.portAt? place with
        | none => rfl
        | some other =>
          rw [Option.map_some, Port.consume_of_disjoint]
          intro i hi hin'
          rw [List.mem_singleton.1 hi] at hin'
          exact hplace (slot_unique hn hd htop hother hin hin')
      · rfl

end Consume

end Node

namespace Graph

/-- What a port of a node has to give: its value, if it is unread. -/
def unread? (n : Node) (port : PortId) : Option (PortId × Value) :=
  (n.port? port).bind fun p => if p.hasNewData then some (port, p.data) else none

/-- Taking outputs one after the other is to look for all unread ones first, and then to mark them. -/
theorem takeUnread_eq {ports : List PortId} {n : Node} (hn : n.Ordered) (hd : n.portIds.Nodup) (hports : ports.Nodup)
    (hout : ∀ p ∈ ports, p ∈ n.outputIds) :
    takeUnread ports n = (ports.filterMap (unread? n), n.consume ((ports.filterMap (unread? n)).map Prod.fst)) := by
  induction ports generalizing n with
  | nil => rw [takeUnread, List.filterMap_nil, List.map_nil, Node.consume_nil hn]
  | cons port rest ih =>
    obtain ⟨hport, hrest⟩ := List.forall_mem_cons.1 hout
    obtain ⟨hnew, hrestNodup⟩ := List.nodup_cons.1 hports
    cases hc : n.port? port with
    | none =>
      have hnone : unread? n port = none := by rw [unread?, hc, Option.bind_none]
      rw [takeUnread, hc, List.filterMap_cons_none hnone]
      exact ih hn hd hrestNodup hrest
    | some c =>
      rw [takeUnread, hc]
      dsimp only
      by_cases hunread : c.hasNewData = true
      · have hsome : unread? n port = some (port, c.data) := by rw [unread?, hc, Option.bind_some, if_pos hunread]
        have hread := Node.replacePort?_read hn hd hport hc
        -- the ports that come later have not been read by this
        have hlater : rest.filterMap (unread? (n.consume [port])) = rest.filterMap (unread? n) := by
          refine List.filterMap_congr fun p hp => ?_
          rw [unread?, Node.port?_consume hn hd (hrest p hp), unread?, Option.bind_map]
          cases hq : n.port? p with
          | none => rfl
          | some q =>
            have hqid : q.id ∉ [port] := fun h => by
              obtain ⟨slot, top, -, hfind⟩ := Node.port?_eq_some hn hq
              rw [(Port.find?_some_mem hfind).2, List.mem_singleton] at h
              exact hnew (h ▸ hp)
            simp only [Option.bind_some, Function.comp_apply, Port.hasNewData_consume, if_neg hqid, Port.consume_data]
        have hih := ih hn.consume (n := n.consume [port]) (by rwa [Node.portIds_consume]) hrestNodup
          (by rw [Node.outputIds_consume]; exact hrest)
        rw [if_pos hunread, hread, Option.getD_some, hih, hlater, Node.consume_consume hn, List.filterMap_cons_some hsome]
        rfl
      · have hnone : unread? n port = none := by rw [unread?, hc, Option.bind_some, if_neg hunread]
        rw [if_neg hunread, List.filterMap_cons_none hnone]
        exact ih hn hd hrestNodup hrest

/-- Where nothing is unread, nothing is taken. -/
theorem takeUnread_of_read {ports : List PortId} {n : Node}
    (h : ∀ p ∈ ports, ∀ c, n.port? p = some c → c.hasNewData = false) : takeUnread ports n = ([], n) := by
  induction ports with
  | nil => rfl
  | cons port rest ih =>
    obtain ⟨hport, hrest⟩ := List.forall_mem_cons.1 h
    rw [takeUnread]
    split
    · exact ih hrest
    · rename_i c hc
      rw [if_neg (by rw [hport c hc]; decide)]
      exact ih hrest

end Graph

end Dataflow
