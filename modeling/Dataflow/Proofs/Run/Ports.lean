import Dataflow.Proofs.Run.Acts

/-!
# What acts do to the ports of a node

* `Graph.portIn?` is the port in a place of a node;
* `Graph.portIn?_neutral`, `portIn?_prepare`, `portIn?_clear` and `portIn?_offer`: what an act does to the
  trigger side of a node.
-/

namespace Dataflow

/-- Acts that neither consume, clear nor offer anything. -/
def Act.isNeutral : Act → Bool
  | .prepare _ | .clear _ | .offer _ => false
  | _ => true

/-- Acts that leave all ports as they are. -/
def Act.isNote : Act → Bool
  | .remember .. | .reset _ | .publish .. => true
  | _ => false

theorem Slot.isOutput_of_isTrigger {slot : Slot} (h : slot.isTrigger = true) : slot.isOutput = false := by
  cases slot <;> first | rfl | cases h

theorem Node.portAt?_complete {n : Node} {result : Except NodeError Output} (s : Supply) {slot : Slot}
    (hs : slot ∉ slotsOf result) : (n.complete result s).2.1.portAt? slot = n.portAt? slot := by
  obtain ⟨slots, m, hsub, hwrites, ⟨status, lastError, heq⟩, -⟩ := n.writes_complete result s
  rw [heq, ← hwrites.portAt?_other fun h => hs (hsub h)]
  cases slot <;> rfl

namespace Graph

/-- The port in a place of a node. -/
def portIn? (g : Graph) (id : NodeId) (slot : Slot) : Option Port :=
  (g.node? id).bind fun n => n.portAt? slot

section PortIn

variable {g : Graph} {act : Act} {id : NodeId} {slot : Slot} {top : Port}

theorem portIn?_eq_some : g.portIn? id slot = some top ↔ ∃ n, g.node? id = some n ∧ n.portAt? slot = some top :=
  Option.bind_eq_some_iff

theorem portIn?_of_node? {n : Node} (hn : g.node? id = some n) : g.portIn? id slot = n.portAt? slot := by
  rw [portIn?, hn]
  rfl

theorem WellFormed.portIn?_sound (hg : g.WellFormed) (h : g.portIn? id slot = some top) :
    Port.Every Port.Sound top := by
  obtain ⟨n, hn, htop⟩ := portIn?_eq_some.1 h
  exact (hg.sound hn).ports htop

theorem Identified.portIn?_nodup (hg : g.Identified) (h : g.portIn? id slot = some top) : top.ids.Nodup := by
  obtain ⟨n, hn, htop⟩ := portIn?_eq_some.1 h
  exact Node.nodup_ids (hg.ordered hn) (hg.distinct hn) htop

theorem Identified.portIn?_used (hg : g.Identified) (h : g.portIn? id slot = some top) {q : PortId}
    (hq : q ∈ top.ids) : g.supply.Used q := by
  obtain ⟨n, hn, htop⟩ := portIn?_eq_some.1 h
  exact hg.used hn q ((Node.mem_portIds (hg.ordered hn)).2 ⟨slot, top, htop, hq⟩)

/-- An identifier is below one place of one node only. -/
theorem Identified.portIn?_unique (hg : g.Identified) {id' : NodeId} {slot' : Slot} {top' : Port} {q : PortId}
    (h : g.portIn? id slot = some top) (h' : g.portIn? id' slot' = some top') (hq : q ∈ top.ids)
    (hq' : q ∈ top'.ids) : id = id' ∧ slot = slot' := by
  obtain ⟨n, hn, htop⟩ := portIn?_eq_some.1 h
  obtain ⟨n', hn', htop'⟩ := portIn?_eq_some.1 h'
  have hin := (Node.mem_portIds (hg.ordered hn)).2 ⟨slot, top, htop, hq⟩
  have hin' := (Node.mem_portIds (hg.ordered hn')).2 ⟨slot', top', htop', hq'⟩
  obtain rfl : id = id' := by
    by_contra hne
    exact hg.apart hn hn' hne hin hin'
  obtain rfl : n = n' := Option.some.inj (hn.symm.trans hn')
  exact ⟨rfl, Node.slot_unique (hg.ordered hn) (hg.distinct hn) htop htop' hq hq'⟩

theorem portIn?_other (hg : g.Identified) (h : g.concerned act ≠ some id) :
    (g.enact act).portIn? id slot = g.portIn? id slot := by
  rw [portIn?, node?_enact_other hg h, portIn?]

theorem portIn?_modifyNode (hg : g.Identified) (f : Node → Node) (hf : ∀ n : Node, (f n).id = n.id) :
    (g.modifyNode id f).portIn? id slot = (g.node? id).bind fun n => (f n).portAt? slot := by
  cases hn : g.node? id with
  | none => rw [modifyNode_of_none hn, portIn?, hn]; rfl
  | some n =>
    rw [modifyNode_of_some hn, portIn?, node?_evolve, if_pos ((hf n).trans (hg.named hn))]
    rfl

theorem portIn?_reindex (id' : NodeId) : (g.reindex id').portIn? id slot = g.portIn? id slot := by
  rw [portIn?, node?_reindex, portIn?]

/-- Notes about a node leave its ports as they are. -/
theorem portIn?_note (hg : g.Identified) (hact : act.isNote = true) :
    (g.enact act).portIn? id slot = g.portIn? id slot := by
  by_cases hc : g.concerned act = some id
  · cases act with
    | remember _ memory =>
      cases hc
      rw [enact, portIn?_modifyNode hg (fun n => { n with memory }) fun _ => rfl]
      cases slot <;> rfl
    | reset _ =>
      cases hc
      rw [enact, portIn?_modifyNode hg Node.resetStatus fun _ => rfl]
      cases slot <;> rfl
    | publish => cases hc
    | _ => cases hact
  · exact portIn?_other hg hc

/-- The end of an activation leaves all places as they are that its result does not write to. -/
theorem portIn?_settle (hg : g.Identified) {result : Except NodeError Output} (hs : slot ∉ Node.slotsOf result) :
    (g.enact (.settle id result)).portIn? id slot = g.portIn? id slot := by
  cases hn : g.node? id with
  | none => simp only [enact, settle, hn]
  | some n =>
    have hid := (n.evolves_complete result g.supply).id.trans (hg.named hn)
    simp only [enact, settle, hn, portIn?_reindex]
    rw [portIn?_of_node? (by rw [node?_evolve, if_pos hid]), Node.portAt?_complete g.supply hs, portIn?_of_node? hn]

/-- Neutral acts leave the input side as it is. -/
theorem portIn?_neutral (hg : g.Identified) (hact : act.isNeutral = true) (hs : slot.isOutput = false) :
    (g.enact act).portIn? id slot = g.portIn? id slot := by
  by_cases hc : g.concerned act = some id
  · cases act with
    | prepare _ | clear _ | offer _ => cases hact
    | remember | reset | publish => exact portIn?_note hg rfl
    | settle _ result =>
      cases hc
      refine portIn?_settle hg fun h => ?_
      rw [Node.isOutput_of_mem_slotsOf h] at hs
      cases hs
    | take _ =>
      cases hc
      cases hn : g.node? id with
      | none => simp only [enact, take, hn]
      | some n =>
        have hm := marked_takeUnread (hg.ordered hn) (hg.distinct hn) (g.feedingPorts_subset n)
        have hid := (hm.evolves g.supply).id.trans (hg.named hn)
        simp only [enact, take, hn]
        rw [portIn?_of_node? (by rw [node?_setNode, if_pos hid]), hm.portAt? slot hs, portIn?_of_node? hn]
  · exact portIn?_other hg hc

theorem portIn?_prepare (hg : g.Identified) (a : Activation) :
    (g.enact (.prepare a)).portIn? id slot =
      if a.node = id ∧ slot.isTrigger = true then (g.portIn? id slot).map fun p => p.read.2
      else g.portIn? id slot := by
  by_cases hid : a.node = id
  · subst hid
    rw [enact, portIn?_modifyNode hg (fun n => n.prepare.2) fun _ => rfl, portIn?]
    cases g.node? a.node with
    | none => simp
    | some n =>
      simp only [Option.bind_some, n.portAt?_prepare, true_and]
  · have hother : g.concerned (.prepare a) ≠ some id := fun e => hid (Option.some.inj e)
    rw [portIn?_other hg hother, if_neg fun h => hid h.1]

theorem portIn?_clear (hg : g.Identified) (id' : NodeId) :
    (g.enact (.clear id')).portIn? id slot =
      if id' = id ∧ slot.isTrigger = true then (g.portIn? id slot).map Port.clear else g.portIn? id slot := by
  by_cases hid : id' = id
  · subst hid
    rw [enact, portIn?_reindex, portIn?_modifyNode hg Node.clearInputs fun _ => rfl, portIn?]
    cases g.node? id' with
    | none => simp
    | some n =>
      simp only [Option.bind_some, n.portAt?_clearInputs, true_and]
  · have hother : g.concerned (.clear id') ≠ some id := fun e => hid (Option.some.inj e)
    rw [portIn?_other hg hother, if_neg fun h => hid h.1]

/-- An offer changes one port, or nothing. -/
theorem portIn?_offer (hg : g.Identified) (o : Offer) :
    (g.enact (.offer o)).portIn? id slot = g.portIn? id slot ∨
      ∃ w g' p p' s', g.answer? o = some (.ok (w, g')) ∧ g.portIn? id slot = some p ∧
        p.writeAt o.edge.target o.value g.supply = some (.ok (w, p', s')) ∧
        (g.enact (.offer o)).portIn? id slot = some p' := by
  by_cases hstored : ∃ w g', g.answer? o = some (.ok (w, g'))
  · obtain ⟨w, g', hanswer⟩ := hstored
    have hwrite := hanswer
    unfold answer? at hwrite
    split_ifs at hwrite
    obtain ⟨owner, n, n', s', -, hn, hw, hg'⟩ := write_eq_ok (Option.some.inj hwrite)
    obtain ⟨slot', p, p', hp, hpw, rfl⟩ := Node.write_eq_ok hw
    have henact : g.enact (.offer o) = g' := by simp only [enact, hanswer]
    have hnode : ∀ id, g'.node? id = if owner = id then some (n.setPort slot' p') else g.node? id := by
      intro id
      rw [hg', node?_reindex, node?_evolve, Node.setPort_id, hg.named hn]
    rw [henact]
    by_cases hid : owner = id
    · subst hid
      have hafter : g'.portIn? owner slot = if slot' = slot then some p' else g.portIn? owner slot := by
        rw [portIn?_of_node? (by rw [hnode, if_pos rfl]), Node.portAt?_setPort, portIn?_of_node? hn]
      by_cases hslot : slot' = slot
      · subst hslot
        exact Or.inr ⟨w, g', p, p', s', hanswer, by rw [portIn?_of_node? hn, hp], hpw, by rw [hafter, if_pos rfl]⟩
      · exact Or.inl (by rw [hafter, if_neg hslot])
    · refine Or.inl ?_
      rw [portIn?, hnode, if_neg hid, portIn?]
  · refine Or.inl ?_
    have henact : g.enact (.offer o) = g := by
      simp only [enact]
      split
      · rename_i w g' h
        exact absurd ⟨w, g', h⟩ hstored
      · rfl
    rw [henact]

/-- An offer along an edge leaves the output side as it is. -/
theorem portIn?_along (hg : g.Identified) (hd : g.Directed) {o : Offer} (hs : slot.isOutput = true)
    (ho : o.edge.target ∈ g.outgoing o.edge.source) : (g.enact (.offer o)).portIn? id slot = g.portIn? id slot := by
  rcases portIn?_offer hg o with hsame | ⟨w, g', p, p', s', -, hp, hw, -⟩
  · exact hsame
  · obtain ⟨n, hn, htop⟩ := portIn?_eq_some.1 hp
    have hin := (Port.edit_of_writeAt hw).mem_ids
    exact absurd ((Node.mem_outputIds (hg.ordered hn)).2 ⟨slot, p, hs, htop, hin⟩) (hd _ _ id n ho hn)

end PortIn

end Graph

end Dataflow
