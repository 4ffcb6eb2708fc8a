import Dataflow.Proofs.Run.Reached
import Dataflow.Proofs.Run.Relays

/-!
# A delivery keeps a node ready

A write to an element port is folded into the containers above it, and a write to a container makes and drops element ports
below it. Both change which ports gate the readiness of a node and which of them hold data, but never to its disadvantage:
whatever a write touches holds data afterwards, and the port that it was written to is still there.

* `Port.enclosing` lists a port of a tree with the containers around it, from the outermost inwards;
* `Port.Edit.filled`: after a write, each port of a tree holds data or is the same as before;
* `Port.Edit.enclosing`: the containers around the port are the same ones, and all of them hold data;
* `Node.readiness_setPort_of_filled`: a node stays ready when its ports are only filled and a connected one holds data;
* `Graph.Regular.readiness?_write`: a delivery keeps its node ready, and does not matter to the readiness of the others;
* `Graph.ready_deliver`: any number of deliveries, one after the other, keep a node ready;
* `Graph.Reached.stays_ready`: this and what is filled, whatever was done to a graph before.
-/

namespace Dataflow

namespace Port

/-- The ports of a tree that have a port with an identifier here or below: the port and the containers around it. -/
def enclosing (id : PortId) (p : Port) : List Port :=
  p.flatten.filter (hasId id)

section Enclosing

variable {id : PortId} {p c : Port}

theorem enclosing_eq (id : PortId) (p : Port) : p.enclosing id =
    (if id ∈ p.ids then [p] else []) ++ p.elements.flatMap fun e => e.2.enclosing id := by
  rw [enclosing, flatten_eq, List.filter_cons, List.filter_flatMap]
  simp only [hasId_iff]
  split_ifs <;> rfl

theorem enclosing_eq_nil (h : id ∉ p.ids) : p.enclosing id = [] := by
  refine List.filter_eq_nil_iff.2 fun q hq hid => h ?_
  obtain ⟨r, hr, hrid⟩ := mem_ids_iff.1 (hasId_iff.1 hid)
  exact mem_ids_iff.2 ⟨r, flatten_trans hq hr, hrid⟩

/-- Of trees with distinct identifiers, one has all that encloses a port. -/
theorem flatMap_enclosing {α : Type} {t : α → Port} {es : List α} {e : α} (he : e ∈ es)
    (hd : (es.flatMap fun e => (t e).ids).Nodup) (hid : id ∈ (t e).ids) :
    es.flatMap (fun e => (t e).enclosing id) = (t e).enclosing id := by
  induction es with
  | nil => exact absurd he List.not_mem_nil
  | cons other rest ih =>
    rw [List.flatMap_cons, List.nodup_append'] at hd
    obtain ⟨-, hrest, hapart⟩ := hd
    rw [List.flatMap_cons]
    rcases List.mem_cons.1 he with rfl | he
    · have hnone : rest.flatMap (fun e => (t e).enclosing id) = [] :=
        List.flatMap_eq_nil_iff.2 fun e' he' =>
          enclosing_eq_nil fun hid' => hapart hid (List.mem_flatMap.2 ⟨e', he', hid'⟩)
      rw [hnone, List.append_nil]
    · rw [enclosing_eq_nil fun hid' => hapart hid' (List.mem_flatMap.2 ⟨e, he, hid⟩), List.nil_append]
      exact ih he hrest

/-- Nothing but the port itself encloses the root of a tree. -/
theorem enclosing_self (hd : p.ids.Nodup) : p.enclosing p.id = [p] := by
  have hnone : p.elements.flatMap (fun e => e.2.enclosing p.id) = [] :=
    List.flatMap_eq_nil_iff.2 fun e he => enclosing_eq_nil (id_notMem_ids hd he)
  rw [enclosing_eq, if_pos (id_mem_ids p), hnone, List.append_nil]

theorem nodup_elements (hd : p.ids.Nodup) : (p.elements.flatMap fun e => e.2.ids).Nodup := by
  rw [ids_eq] at hd
  exact (List.nodup_cons.1 hd).2

/-- A container encloses what is below one of its element ports, beside what encloses it there. -/
theorem enclosing_element (hd : p.ids.Nodup) {e : String × Port} (he : e ∈ p.elements) (hid : id ∈ e.2.ids) :
    p.enclosing id = p :: e.2.enclosing id := by
  have hmem : id ∈ p.ids := mem_ids.2 (Or.inr ⟨e, he, hid⟩)
  have hbelow : p.elements.flatMap (fun e => e.2.enclosing id) = e.2.enclosing id :=
    flatMap_enclosing (t := Prod.snd) he (nodup_elements hd) hid
  rw [enclosing_eq, if_pos hmem, hbelow, List.singleton_append]

end Enclosing

/-! ### What a write fills -/

theorem hasData_of_hasNewData {p : Port} (h : p.hasNewData = true) : p.hasData = true := by
  have hnew : p.lastRead < p.version := of_decide_eq_true h
  simp [hasData, Nat.zero_lt_of_lt hnew]

/-- Folding fills a container, even one without elements. -/
theorem hasData_fold {p : Port} (h : p.isContainer = true) : (fold p).hasData = true := by
  rcases isContainer_iff.1 h with ht | ht <;> simp [fold, ht, hasData]

/-- A port that has element ports is a container. -/
theorem Legal.isContainer {side : Direction} {p : Port} (hp : p.Legal side) (hes : p.elements ≠ []) :
    p.isContainer = true := by
  by_contra hc
  exact hes (hp.bare (by simpa using hc))

section Written

variable {side : Direction} {id : PortId} {v w : Value} {s s' : Supply} {p p' : Port}

/-- A container that has element ports is filled when it is rebuilt from others. -/
theorem Legal.hasData_fold (hp : p.Legal side) (hes : p.elements ≠ []) (es : List (String × Port)) :
    (fold { p with elements := es }).hasData = true :=
  Port.hasData_fold (p := { p with elements := es }) (hp.isContainer hes)

/-- After a write, a port and everything below it hold data. -/
theorem filled_write (h : p.write v s = .ok (w, p', s')) (hp : Every (Legal side) p) :
    Every (fun q => q.hasData = true) p' :=
  (unread_write h hp).imp fun _ => hasData_of_hasNewData

/-- After a write to a port of a tree, each port of the tree holds data or is the same as before. -/
theorem Edit.filled (h : Edit fold id (fun c c' => c.write v s = .ok (w, c', s')) p p') (hp : Every (Legal side) p) :
    Every (fun q => q.hasData = true ∨ q ∈ p.flatten) p' := by
  have hevery : Every (fun q => q.Legal side ∧ (q.hasData = true ∨ q ∈ p.flatten)) p' := by
    refine h.every fold_elements (fun r es hr hes => ?_) (fun c c' hw hc => ?_) fun q hq => ⟨hp q hq, Or.inr hq⟩
    · exact ⟨legal_fold hr.1 hes es, Or.inl (hr.1.hasData_fold hes es)⟩
    · have hlegal : Every (Legal side) c := hc.imp fun _ hq => hq.1
      exact fun q hq => ⟨legal_write hw hlegal q hq, Or.inl (filled_write hw hlegal q hq)⟩
  exact hevery.imp fun _ hq => hq.2

/-- A write leaves the containers around its port where they are, and all of them hold data. -/
theorem Edit.enclosing (h : Edit fold id (fun c c' => c.write v s = .ok (w, c', s')) p p') (hp : Every (Legal side) p)
    (hd : p.ids.Nodup) (hd' : p'.ids.Nodup) :
    (p'.enclosing id).map Port.id = (p.enclosing id).map Port.id ∧ ∀ q ∈ p'.enclosing id, q.hasData = true := by
  induction h with
  | @here p p' hid hw =>
    have hid' : p'.id = id := (write_id hw).trans hid
    rw [show p.enclosing id = [p] from hid ▸ enclosing_self hd, show p'.enclosing id = [p'] from hid' ▸ enclosing_self hd']
    refine ⟨?_, List.forall_mem_singleton.2 (filled_write hw hp).self⟩
    rw [List.map_singleton, List.map_singleton, write_id hw]
  | @inside p c c' before after key _ hes _ hc ih =>
    have hmem : (key, c) ∈ p.elements := by rw [hes]; exact List.mem_append_right _ List.mem_cons_self
    have hmem' : (key, c') ∈ (fold { p with elements := before ++ (key, c') :: after }).elements := by
      rw [fold_elements]
      exact List.mem_append_right _ List.mem_cons_self
    have hnodup : c.ids.Nodup := (List.nodup_flatMap.1 (nodup_elements hd)).1 _ hmem
    have hnodup' : c'.ids.Nodup := (List.nodup_flatMap.1 (nodup_elements hd')).1 _ hmem'
    have hin : id ∈ c'.ids := hc.mem_ids_after fold_elements fun _ _ hw => write_id hw
    obtain ⟨hsame, hfilled⟩ := ih (hp.element hmem) hnodup hnodup'
    rw [enclosing_element hd hmem hc.mem_ids, enclosing_element hd' hmem' hin]
    refine ⟨?_, List.forall_mem_cons.2 ⟨?_, hfilled⟩⟩
    · rw [List.map_cons, List.map_cons, fold_id, hsame]
    · exact hp.self.hasData_fold (List.ne_nil_of_mem hmem) _

end Written

end Port

namespace Node

/-! ### Readiness of a node whose ports are filled -/

theorem isFed_eq_true {policy : ReadinessPolicy} {gauge : List (PortId × Bool)} {connected : PortId → Bool} :
    isFed policy gauge connected = true ↔ (∃ e ∈ gauge, connected e.1 = true) ∧
      match policy with
      | .allConnected => ∀ e ∈ gauge, connected e.1 = true → e.2 = true
      | .anyConnected => ∃ e ∈ gauge, connected e.1 = true ∧ e.2 = true := by
  unfold isFed
  rw [Bool.and_eq_true, Bool.not_eq_true', List.isEmpty_eq_false_iff_exists_mem]
  refine and_congr (exists_congr fun e => List.mem_filter) ?_
  cases policy with
  | allConnected => simp only [List.all_eq_true, List.mem_filter, and_imp]
  | anyConnected => simp only [List.any_eq_true, List.mem_filter, and_assoc]

theorem isDisabled_of_ready {n : Node} {connected : List PortId} (h : n.readiness connected = .ready) :
    n.isDisabled = false := by
  by_contra hd
  rw [readiness, if_pos (by simpa using hd)] at h
  cases h

section SetPort

variable {n : Node} {slot : Slot} {top : Port} {connected connected' : List PortId}

theorem isDisabled_setPort : (n.setPort slot top).isDisabled = n.isDisabled := by
  rw [isDisabled, isDisabled, setPort_config]

theorem hasPendingWork_setPort : (n.setPort slot top).hasPendingWork = n.hasPendingWork := by
  rw [hasPendingWork, hasPendingWork, setPort_behavior, setPort_memory]

/-- Only the ports that gate readiness matter to it. -/
theorem readiness_setPort_of_gauge (hgauge : (n.setPort slot top).gauge = n.gauge) (h : n.readiness connected = .ready) :
    (n.setPort slot top).readiness connected = .ready := by
  have hd := isDisabled_of_ready h
  rw [readiness_eq_ready (isDisabled_setPort.trans hd), hasPendingWork_setPort, hgauge, setPort_behavior]
  exact (readiness_eq_ready hd).1 h

/-- A node stays ready if the ports that gate it only change by being filled, and a connected one of them holds data. -/
theorem readiness_setPort_of_filled {isTarget : PortId → Bool}
    (hconnected : ∀ e ∈ n.gauge, connected.contains e.1 = isTarget e.1)
    (hconnected' : ∀ e ∈ (n.setPort slot top).gauge, connected'.contains e.1 = isTarget e.1)
    (hfilled : ∀ e ∈ (n.setPort slot top).gauge, e.2 = true ∨ e ∈ n.gauge) {p : PortId}
    (hp : (p, true) ∈ (n.setPort slot top).gauge) (htarget : isTarget p = true) (h : n.readiness connected = .ready) :
    (n.setPort slot top).readiness connected' = .ready := by
  have hd := isDisabled_of_ready h
  rw [readiness_eq_ready (isDisabled_setPort.trans hd), hasPendingWork_setPort, setPort_behavior]
  rcases (readiness_eq_ready hd).1 h with hpending | hfed
  · exact Or.inl hpending
  · -- no connected port was empty before, if the policy asks for all of them
    have hall : n.behavior.policy = .allConnected → ∀ e ∈ n.gauge, isTarget e.1 = true → e.2 = true := by
      intro hpolicy e he htarget
      rw [← hconnected e he] at htarget
      rcases hfed with hnone | hfed
      · exact absurd htarget (by simpa using List.filter_eq_nil_iff.1 hnone e he)
      · rw [hpolicy] at hfed
        exact (isFed_eq_true.1 hfed).2 e he htarget
    have hp' : connected'.contains p = true := (hconnected' _ hp).trans htarget
    refine Or.inr (Or.inr (isFed_eq_true.2 ⟨⟨_, hp, hp'⟩, ?_⟩))
    cases hpolicy : n.behavior.policy with
    | allConnected =>
      intro e he htarget
      rw [hconnected' e he] at htarget
      exact (hfilled e he).elim (fun hdata => hdata) fun he => hall hpolicy e he htarget
    | anyConnected => exact ⟨_, hp, hp', rfl⟩

theorem triggers_setPort_of_notTrigger (hs : slot.isTrigger = false) : (n.setPort slot top).triggers = n.triggers := by
  cases slot <;> first | rfl | cases hs

end SetPort

/-! ### A write to a port of a node -/

/-- The ports of a node that have a port with an identifier here or below: the port and the containers around it. -/
def enclosing (id : PortId) (n : Node) : List Port :=
  n.ports.flatMap (Port.enclosing id)

section Write

variable {n n' : Node} {id : PortId} {v w : Value} {s s' : Supply} {slot : Slot} {top top' : Port}

theorem enclosing_of_portAt? (hn : n.Ordered) (hd : n.portIds.Nodup) (h : n.portAt? slot = some top) (hid : id ∈ top.ids) :
    n.enclosing id = top.enclosing id := by
  rw [portIds_eq] at hd
  rw [enclosing, ports_eq, List.flatMap_map]
  exact Port.flatMap_enclosing (t := Prod.snd) ((mem_entries hn).2 h) hd hid

theorem mem_enclosing_of_port? (hn : n.Ordered) {c : Port} (h : n.port? id = some c) : c ∈ n.enclosing id := by
  obtain ⟨slot, top, htop, hfind⟩ := port?_eq_some hn h
  obtain ⟨hmem, rfl⟩ := Port.find?_some_mem hfind
  refine List.mem_flatMap.2 ⟨top, ?_, List.mem_filter.2 ⟨hmem, Port.hasId_iff.2 (Port.id_mem_ids c)⟩⟩
  rw [ports_eq]
  exact List.mem_map.2 ⟨_, (mem_entries hn).2 htop, rfl⟩

theorem mem_gauge (hn : n.Ordered) {e : PortId × Bool} :
    e ∈ n.gauge ↔ ∃ slot top q, slot.isTrigger = true ∧ n.portAt? slot = some top ∧ q ∈ top.flatten ∧
      (q.id, q.hasData) = e := by
  simp only [gauge, List.mem_map, List.mem_flatMap, mem_triggers hn]
  constructor
  · rintro ⟨q, ⟨top, ⟨slot, hs, htop⟩, hq⟩, rfl⟩
    exact ⟨slot, top, q, hs, htop, hq, rfl⟩
  · rintro ⟨slot, top, q, hs, htop, hq, rfl⟩
    exact ⟨q, ⟨top, ⟨slot, hs, htop⟩, hq⟩, rfl⟩

/-- A write to a top-level port, or to what is below it. -/
theorem edit_of_write (h : n.write id v s = some (.ok (w, n', s'))) : ∃ slot top top', n.portAt? slot = some top ∧
    Port.Edit Port.fold id (fun c c' => c.write v s = .ok (w, c', s')) top top' ∧ n' = n.setPort slot top' := by
  obtain ⟨slot, top, top', htop, hwrite, rfl⟩ := write_eq_ok h
  exact ⟨slot, top, top', htop, Port.edit_of_writeAt hwrite, rfl⟩

/-- The ports that gate readiness only change by being filled. -/
theorem gauge_setPort_filled (hn : n.Ordered) (hl : n.Legal) (htop : n.portAt? slot = some top)
    (hedit : Port.Edit Port.fold id (fun c c' => c.write v s = .ok (w, c', s')) top top') :
    ∀ e ∈ (n.setPort slot top').gauge, e.2 = true ∨ e ∈ n.gauge := by
  intro e he
  obtain ⟨slot', top₁, q, hs, htop₁, hq, rfl⟩ := (mem_gauge hn.setPort).1 he
  rw [portAt?_setPort] at htop₁
  split_ifs at htop₁ with hslot
  · cases htop₁
    refine (hedit.filled (hl slot top htop) q hq).imp_right fun hq => ?_
    exact (mem_gauge hn).2 ⟨slot', top, q, hs, hslot ▸ htop, hq, rfl⟩
  · exact Or.inr ((mem_gauge hn).2 ⟨slot', top₁, q, hs, htop₁, hq, rfl⟩)

/-- A port that gates readiness holds data after it was written to. -/
theorem mem_gauge_setPort (hn : n.Ordered) (hl : n.Legal) (htop : n.portAt? slot = some top) (hs : slot.isTrigger = true)
    (hedit : Port.Edit Port.fold id (fun c c' => c.write v s = .ok (w, c', s')) top top') :
    (id, true) ∈ (n.setPort slot top').gauge := by
  obtain ⟨c, c', ⟨hw, hc, -⟩, hid, hc'⟩ := hedit.and_mem.mem_flatten_after Port.fold_elements
  have hdata : c'.hasData = true := (Port.filled_write hw ((hl slot top htop).of_mem hc)).self
  refine (mem_gauge hn.setPort).2 ⟨slot, top', c', hs, by rw [portAt?_setPort, if_pos rfl], hc', ?_⟩
  rw [Port.write_id hw, hid, hdata]

end Write

end Node

namespace Graph

/-- How ready a node is, given the edges of its graph. -/
def readiness? (g : Graph) (id : NodeId) : Option Readiness :=
  (g.node? id).map fun n => n.readiness (g.connectedInputs id)

/-- The end of an edge has incoming edges. -/
theorem Indexed.isTarget {g : Graph} (hi : g.Indexed) {e : Edge} (he : e ∈ g.edges) : g.isTarget e.target = true := by
  have hin : e.source ∈ g.incoming e.target := by
    rw [hi.into]
    exact Edge.mem_sourcesOf.2 he
  rw [incoming] at hin
  cases hf : Table.find? e.target g.inEdges with
  | none => rw [hf] at hin; exact absurd hin List.not_mem_nil
  | some sources => simp [Graph.isTarget, Table.contains, hf]

/-- What a write leaves of the readiness of nodes: it takes nothing from the owner of the port, and does not matter to others. -/
theorem Regular.readiness?_write {g g' : Graph} (hg : g.Regular) {p : PortId} {v w : Value} {id : NodeId}
    (hid : g.ownerOf? p = some id) (htarget : g.isTarget p = true) (h : g.write p v = .ok (w, g')) :
    (g.readiness? id = some .ready → g'.readiness? id = some .ready) ∧
      ∀ other, other ≠ id → g'.readiness? other = g.readiness? other := by
  obtain ⟨owner, n, n', s', howner, hn, hwrite, rfl⟩ := write_eq_ok h
  obtain rfl : owner = id := Option.some.inj (howner.symm.trans hid)
  obtain rfl := hg.named hn
  have hnid : n'.id = n.id := (Node.evolves_write hwrite).id
  have hsame : ((g.evolve n' s').reindex n.id).isTarget = g.isTarget := by
    unfold isTarget
    rw [reindex_inEdges]
    rfl
  refine ⟨fun hready => ?_, fun other hne => ?_⟩
  · have hn' : ((g.evolve n' s').reindex n.id).node? n.id = some n' := by
      rw [node?_reindex, node?_evolve, if_pos hnid]
    have hconnected' := contains_connectedInputs hn'
    simp only [readiness?, hn, hn', Option.map_some, Option.some.injEq] at hready ⊢
    obtain ⟨slot, top, top', htop, hedit, rfl⟩ := Node.edit_of_write hwrite
    rw [hsame] at hconnected'
    cases hs : slot.isTrigger with
    | true =>
      exact Node.readiness_setPort_of_filled (contains_connectedInputs hn) hconnected'
        (Node.gauge_setPort_filled (hg.ordered hn) (hg.legal hn) htop hedit)
        (Node.mem_gauge_setPort (hg.ordered hn) (hg.legal hn) htop hs hedit) htarget hready
    | false =>
      have hgauge : (n.setPort slot top').gauge = n.gauge := by
        rw [Node.gauge, Node.gauge, Node.triggers_setPort_of_notTrigger hs]
      rw [connectedInputs_eq hn', hsame, hgauge, ← connectedInputs_eq hn]
      exact Node.readiness_setPort_of_gauge hgauge hready
  · have hother : ((g.evolve n' s').reindex n.id).node? other = g.node? other := by
      rw [node?_reindex, node?_evolve, if_neg (hnid.symm ▸ hne.symm)]
    unfold readiness?
    rw [hother]
    refine Option.map_congr fun m hm => ?_
    rw [connectedInputs_eq hm, connectedInputs_eq (hother.trans hm), hsame]

/-- Deliveries keep nodes ready, however many are made, and whether or not the last one is refused. -/
theorem ready_deliver {offers : List Offer} {d : Delivery} (hg : d.graph.Regular) (hi : d.graph.Indexed) {id : NodeId}
    (h : d.graph.readiness? id = some .ready) : (deliver offers d).graph.readiness? id = some .ready := by
  induction offers generalizing d with
  | nil => exact h
  | cons o rest ih =>
    unfold deliver
    split_ifs with hs
    · exact ih hg hi h
    · split
      · exact h
      · rename_i w g' hw
        have htarget : d.graph.isTarget o.edge.target = true := by
          simp only [skips, isEdgeValid, Bool.or_eq_true, Bool.not_eq_true', not_or, Bool.not_eq_false, Bool.and_eq_true,
            List.contains_iff_mem] at hs
          exact hi.isTarget (hg.inSet.1 hs.1.1)
        obtain ⟨owner, -, -, -, howner, -⟩ := write_eq_ok hw
        obtain ⟨hkeeps, hothers⟩ := hg.readiness?_write howner htarget hw
        refine ih (hg.write hw) (hi.write hw) ?_
        by_cases hid : id = owner
        · exact hid ▸ hkeeps (hid ▸ h)
        · exact (hothers id hid).trans h

/-- A port that was written to is there, and so are the containers around it; all of them hold data. -/
theorem Regular.enclosing_write {g g' : Graph} (hg : g.Regular) {n : Node} (hn : g.node? n.id = some n) {p : PortId} {v w : Value}
    (hp : p ∈ n.portIds) (h : g.write p v = .ok (w, g')) :
    ∃ n' c, g'.node? n.id = some n' ∧ g'.port? p = some c ∧ c ∈ n'.enclosing p ∧
      (n'.enclosing p).map Port.id = (n.enclosing p).map Port.id ∧ ∀ q ∈ n'.enclosing p, q.hasData = true := by
  have hg' := hg.write h
  obtain ⟨owner, m, n', s', howner, hm, hwrite, rfl⟩ := write_eq_ok h
  obtain rfl : owner = n.id := Option.some.inj (howner.symm.trans (hg.owned.2 ⟨n, hn, hp⟩))
  obtain rfl : n = m := Option.some.inj (hn.symm.trans hm)
  have hnode : ((g.evolve n' s').reindex n.id).node? n.id = some n' := by
    rw [node?_reindex, node?_evolve, if_pos (Node.evolves_write hwrite).id]
  have hp' : p ∈ n'.portIds := mem_portIds_write (hg.ordered hn) hwrite
  obtain ⟨c, hc⟩ := Option.isSome_iff_exists.1 (Node.port?_isSome.2 hp')
  have hport : ((g.evolve n' s').reindex n.id).port? p = some c := by
    simp only [port?, Option.bind_eq_bind, hg'.owned.2 ⟨n', hnode, hp'⟩, hnode, hc, Option.bind_some]
  obtain ⟨slot, top, top', htop, hedit, rfl⟩ := Node.edit_of_write hwrite
  have htop' : (n.setPort slot top').portAt? slot = some top' := by rw [Node.portAt?_setPort, if_pos rfl]
  have hin : p ∈ top'.ids := hedit.mem_ids_after Port.fold_elements fun _ _ hw => Port.write_id hw
  have hnodup := Node.nodup_ids (hg.ordered hn) (hg.distinct hn) htop
  have hnodup' := Node.nodup_ids (hg'.ordered hnode) (hg'.distinct hnode) htop'
  have hbefore := Node.enclosing_of_portAt? (hg.ordered hn) (hg.distinct hn) htop hedit.mem_ids
  have hafter := Node.enclosing_of_portAt? (hg'.ordered hnode) (hg'.distinct hnode) htop' hin
  obtain ⟨hsame, hfilled⟩ := hedit.enclosing (hg.legal hn slot top htop) hnodup hnodup'
  refine ⟨_, c, hnode, hport, Node.mem_enclosing_of_port? (hg'.ordered hnode) hc, ?_, ?_⟩
  · rw [hafter, hbefore, hsame]
  · rw [hafter]
    exact hfilled

/-- **A delivery keeps its node ready.** Whatever was done to a graph, and however it was run: if a node is ready, it is
still ready when a value, `null` included, was written to one of its ports that has an incoming edge. That port and all
containers around it hold data then, and the other nodes are as ready as they were. -/
theorem Reached.stays_ready {g g' : Graph} (hg : g.Reached) {n : Node} {e : Edge} {v w : Value} (hn : g.node? n.id = some n)
    (hready : g.readiness? n.id = some .ready) (he : e ∈ g.edges) (hp : e.target ∈ n.portIds)
    (h : g.write e.target v = .ok (w, g')) :
    g'.readiness? n.id = some .ready ∧ (∀ id, id ≠ n.id → g'.readiness? id = g.readiness? id) ∧
      ∃ n' c, g'.node? n.id = some n' ∧ g'.port? e.target = some c ∧ c ∈ n'.enclosing e.target ∧
        (n'.enclosing e.target).map Port.id = (n.enclosing e.target).map Port.id ∧
        ∀ q ∈ n'.enclosing e.target, q.hasData = true := by
  have howner : g.ownerOf? e.target = some n.id := hg.regular.owned.2 ⟨n, hn, hp⟩
  obtain ⟨hkeeps, hothers⟩ := hg.regular.readiness?_write howner (hg.indexed.isTarget he) h
  exact ⟨hkeeps hready, hothers, hg.regular.enclosing_write hn hp h⟩

/-! ### A list of lists -/

/-- A node that takes a list. -/
def tabulator : Node × Supply :=
  Node.create ⟨2⟩ "tabulator"
    { typeId := "tabulating", ports := [.input "rows" .array], activate := fun _ _ => .done .empty } [] signalSource.2

/-- A source that feeds the first row of a list, and the second item of that row. -/
def tabulated? : Except GraphError Graph := do
  let g ← ({ empty ⟨3⟩ with supply := signalSource.2 } : Graph).addNode signalSource.1
  let g ← ({ g with supply := tabulator.2 } : Graph).addNode tabulator.1
  let (_, g) ← g.write ⟨7⟩ (.array [.array [.integer 1, .integer 2], .integer 3])
  let g ← g.addEdge ⟨4⟩ ⟨8⟩
  g.addEdge ⟨4⟩ ⟨10⟩

/-- The graph that they make up. -/
def tabulated : Graph :=
  tabulated?.toOption.getD (empty ⟨0⟩)

theorem built_tabulated : tabulated.Built := by
  have hmade : tabulated?.toOption.isSome = true := by decide +kernel
  obtain ⟨made, hmade⟩ := Option.isSome_iff_exists.1 hmade
  have h : tabulated? = .ok tabulated := by
    rw [tabulated, hmade]
    exact Except.toOption_eq_some.1 hmade
  obtain ⟨g, hg, h⟩ := Except.bind_eq_ok.1 h
  obtain ⟨g₁, hg₁, h⟩ := Except.bind_eq_ok.1 h
  obtain ⟨⟨v, g₂⟩, hg₂, h⟩ := Except.bind_eq_ok.1 h
  obtain ⟨g₃, hg₃, h⟩ := Except.bind_eq_ok.1 h
  have hsource : g.Built := .create (.empty ⟨3⟩) hg
  have hsupply : g.supply = signalSource.2 := by rw [(addNode_eq_ok hg).2]
  have hboth : g₁.Built := .create hsource (by rw [hsupply]; exact hg₁)
  exact .addEdge (.addEdge (.write hboth hg₂) hg₃) h

/-- A shorter row drops a port that was connected, and the node is ready for all that. -/
theorem stays_ready_tabulated : ∃ n g', tabulated.Reached ∧ tabulated.node? n.id = some n ∧
    tabulated.connectedInputs n.id = [⟨8⟩, ⟨10⟩] ∧ tabulated.readiness? n.id = some .ready ∧
    (⟨⟨4⟩, ⟨8⟩⟩ : Edge) ∈ tabulated.edges ∧ (⟨8⟩ : PortId) ∈ n.portIds ∧
    tabulated.write ⟨8⟩ (.array [.integer 5]) = .ok (.array [.integer 5], g') ∧
    g'.connectedInputs n.id = [⟨8⟩] ∧ g'.readiness? n.id = some .ready ∧ (n.enclosing ⟨8⟩).map Port.id = [⟨7⟩, ⟨8⟩] := by
  have hnode : (tabulated.node? ⟨2⟩).map (fun n => (n.id, (n.enclosing ⟨8⟩).map Port.id, n.portIds.contains ⟨8⟩)) =
      some (⟨2⟩, [⟨7⟩, ⟨8⟩], true) := by decide +kernel
  obtain ⟨n, hn, hparts⟩ := Option.map_eq_some_iff.1 hnode
  obtain ⟨hid, hids, hp⟩ : n.id = ⟨2⟩ ∧ (n.enclosing ⟨8⟩).map Port.id = [⟨7⟩, ⟨8⟩] ∧ (⟨8⟩ : PortId) ∈ n.portIds := by
    simpa only [Prod.mk.injEq, List.contains_iff_mem] using hparts
  have hconnected : tabulated.connectedInputs ⟨2⟩ = [⟨8⟩, ⟨10⟩] := by decide +kernel
  have hready : tabulated.readiness? ⟨2⟩ = some .ready := by decide +kernel
  have he : (⟨⟨4⟩, ⟨8⟩⟩ : Edge) ∈ tabulated.edges := by decide +kernel
  have hwritten : (tabulated.write ⟨8⟩ (.array [.integer 5])).toOption.map (fun r => (r.1, r.2.connectedInputs ⟨2⟩)) =
      some (.array [.integer 5], [⟨8⟩]) := by decide +kernel
  obtain ⟨⟨w, g'⟩, hwrite, hpair⟩ := Option.map_eq_some_iff.1 hwritten
  obtain ⟨rfl, hconnected'⟩ := Prod.mk.inj hpair
  rw [Except.toOption_eq_some] at hwrite
  rw [← hid] at hn hconnected hready hconnected'
  have hreached := built_tabulated.reached
  obtain ⟨hstays, -⟩ := Reached.stays_ready hreached hn hready he hp hwrite
  exact ⟨n, g', hreached, hn, hconnected, hready, he, hp, hwrite, hconnected', hstays, hids⟩

end Graph

end Dataflow
