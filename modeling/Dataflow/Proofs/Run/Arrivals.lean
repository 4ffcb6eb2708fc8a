import Dataflow.Proofs.Node.Places
import Dataflow.Proofs.Run.Confluence
import Dataflow.Proofs.Run.Transfers

/-!
# Where outputs arrive

Let no port have two edges that end at it, and let every edge end at a top-level port. Then each value that is moved arrives
in a place of its own, and it does not matter in which order values are moved.

* `Graph.Threaded` is the invariant of such graphs;
* `Graph.Carries` are the acts by which outputs are moved, and `Graph.portIn?_replay_output`, `Graph.portIn?_replay_input` say
  which places they leave as they are;
* `Graph.Threaded.portIn?_aimed` and `Graph.Threaded.refuses_aimed`: what an offer does to the port that it is made to;
* `Graph.Threaded.resembles_carry`: graphs look alike after the same outputs were moved, in whatever order.
-/

namespace Dataflow

/-! ### Ports that are written to -/

namespace Port

variable {p p' : Port} {v w : Value} {s s' : Supply}

theorem write_dataType (h : p.write v s = .ok (w, p', s')) : p'.dataType = p.dataType := by
  rcases write_eq_ok h with ⟨-, -, rfl, -⟩ | ⟨-, -, rfl, -⟩
  · rfl
  · rw [place_dataType]; rfl

/-- A write to a port or to one below it leaves its identifier and its type as they are. -/
theorem writeAt_head {target : PortId} (h : p.writeAt target v s = some (.ok (w, p', s'))) :
    p'.id = p.id ∧ p'.dataType = p.dataType := by
  rcases edit_of_writeAt h with ⟨-, hw⟩ | ⟨-, -, -, -⟩
  · exact ⟨write_id hw, write_dataType hw⟩
  · exact ⟨fold_id _, fold_dataType _⟩

/-- The port after an offer: what is not fit to be stored leaves it as it is. -/
def receive (p : Port) (v : Value) (s : Supply) : Port :=
  match p.write v s with
  | .ok (_, p, _) => p
  | .error _ => p

theorem receive_id (p : Port) (v : Value) (s : Supply) : (p.receive v s).id = p.id := by
  unfold receive
  split
  · rename_i h
    exact write_id h
  · rfl

theorem receive_view {t t' : Supply} (p : Port) (v : Value) (ht : s.next ≤ t.next) (ht' : s.next ≤ t'.next) :
    (p.receive v t).rename s.view = (p.receive v t').rename s.view := by
  have hview := write_view (p := p) v ht ht' rfl
  unfold receive
  cases hw : p.write v t with
  | error e =>
    cases hw' : p.write v t' with
    | error e' => rfl
    | ok r => rw [hw, hw'] at hview; cases hview
  | ok r =>
    cases hw' : p.write v t' with
    | error e' => rw [hw, hw'] at hview; cases hview
    | ok r' =>
      rw [hw, hw'] at hview
      exact (Prod.mk.inj (Except.ok.inj hview)).2

/-- Whether a value is refused depends on the type of the port only. -/
theorem write_eq_error {e : ConversionError} : p.write v s = .error e ↔ v.isNull = false ∧ v.convert p.dataType = .error e := by
  unfold write
  cases hv : v.isNull with
  | true => simp
  | false => cases v.convert p.dataType <;> simp [Except.map]

end Port

namespace Graph

variable {s : Supply} {g g' : Graph} {act : Act} {acts : List Act} {id : NodeId} {slot : Slot} {top : Port}

/-- Whatever happens, the places of the input side keep their ports, which keep their types. -/
theorem portIn?_enact (hg : g.Identified) (act : Act) (hs : slot.isOutput = false) (hat : g.portIn? id slot = some top) :
    ∃ top', (g.enact act).portIn? id slot = some top' ∧ top'.id = top.id ∧ top'.dataType = top.dataType := by
  cases hact : act.isNeutral with
  | true => exact ⟨top, by rw [portIn?_neutral hg hact hs, hat], rfl, rfl⟩
  | false =>
    cases act with
    | prepare a =>
      rw [portIn?_prepare hg, hat]
      split_ifs
      · exact ⟨top.read.2, rfl, rfl, rfl⟩
      · exact ⟨top, rfl, rfl, rfl⟩
    | clear k =>
      rw [portIn?_clear hg, hat]
      split_ifs
      · exact ⟨top.clear, rfl, Port.clear_id top, Port.clear_dataType top⟩
      · exact ⟨top, rfl, rfl, rfl⟩
    | offer o =>
      rcases portIn?_offer hg o with hsame | ⟨w, g', p, p', s', -, hp, hw, hafter⟩
      · exact ⟨top, hsame.trans hat, rfl, rfl⟩
      · obtain rfl : p = top := Option.some.inj (hp.symm.trans hat)
        exact ⟨p', hafter, Port.writeAt_head hw⟩
    | _ => cases hact

/-! ### Edges that meet nowhere -/

/-- No two edges end at one port, and every edge ends at a top-level port of the input side. -/
structure Threaded (s : Supply) (g : Graph) : Prop extends Grown s g where
  single : ∀ {p p' q : PortId}, q ∈ g.outgoing p → q ∈ g.outgoing p' → p = p'
  simple : ∀ p, (g.outgoing p).Nodup
  aimed : ∀ {p q : PortId}, q ∈ g.outgoing p →
    ∃ id slot top, slot.isOutput = false ∧ g.portIn? id slot = some top ∧ top.id = q

theorem Threaded.enact (hg : g.Threaded s) (act : Act) : (g.enact act).Threaded s where
  toGrown := hg.toGrown.enact act
  single h h' := hg.single (by rwa [outgoing_enact] at h) (by rwa [outgoing_enact] at h')
  simple p := by
    rw [outgoing_enact]
    exact hg.simple p
  aimed h := by
    rw [outgoing_enact] at h
    obtain ⟨id, slot, top, hs, hat, hid⟩ := hg.aimed h
    obtain ⟨top', hat', hid', -⟩ := portIn?_enact hg.identified act hs hat
    exact ⟨id, slot, top', hs, hat', hid'.trans hid⟩

theorem Threaded.replay (hg : g.Threaded s) (acts : List Act) : (g.replay acts).Threaded s := by
  induction acts generalizing g with
  | nil => exact hg
  | cons act acts ih => exact ih (hg.enact act)

theorem Threaded.directed (hg : g.Threaded s) : g.Directed := by
  intro p q id n hq hn hout
  obtain ⟨k, slot, top, hs, hat, rfl⟩ := hg.aimed hq
  obtain ⟨place, other, hplace, hother, hin⟩ := (Node.mem_outputIds (hg.identified.ordered hn)).1 hout
  have hat' : g.portIn? id place = some other := (portIn?_of_node? hn).trans hother
  obtain ⟨-, rfl⟩ := hg.identified.portIn?_unique hat hat' (Port.id_mem_ids top) hin
  rw [hplace] at hs
  cases hs

/-! ### Moving outputs -/

/-- Acts by which outputs are moved along edges. -/
def Carries (g : Graph) : Act → Prop
  | .take _ | .publish .. => True
  | .offer o => o.edge.target ∈ g.outgoing o.edge.source
  | _ => False

theorem carries_enact (g : Graph) (act act' : Act) : (g.enact act).Carries act' ↔ g.Carries act' := by
  cases act' with
  | offer o => simp only [Carries, outgoing_enact]
  | _ => exact Iff.rfl

theorem carries_replay (g : Graph) (acts : List Act) (act' : Act) : (g.replay acts).Carries act' ↔ g.Carries act' := by
  induction acts generalizing g with
  | nil => exact Iff.rfl
  | cons act acts ih => exact (ih (g.enact act)).trans (carries_enact g act act')

/-- What is moved does not change a node apart from its ports. -/
theorem shell_carry (hg : g.Identified) (hact : g.Carries act) (id : NodeId) :
    ((g.enact act).node? id).map Node.shell = (g.node? id).map Node.shell := by
  cases act with
  | take k =>
    by_cases hk : k = id
    · subst hk
      cases hn : g.node? k with
      | none => simp only [enact, take, hn]
      | some n =>
        have hid := (kept_takeUnread (g.feedingPorts n) n).id.trans (hg.named hn)
        simp only [enact, take, hn, node?_setNode, if_pos hid, Option.map_some, shell_takeUnread]
    · have hother : g.concerned (.take k) ≠ some id := fun e => hk (Option.some.inj e)
      rw [node?_enact_other hg hother]
  | offer o =>
    by_cases hstored : ∃ w g', g.answer? o = some (.ok (w, g'))
    · obtain ⟨w, g', hanswer⟩ := hstored
      have hwrite := hanswer
      unfold answer? at hwrite
      split_ifs at hwrite
      obtain ⟨owner, n, n', s', -, hn, hw, hg'⟩ := write_eq_ok (Option.some.inj hwrite)
      obtain ⟨slot, p, p', -, -, rfl⟩ := Node.write_eq_ok hw
      simp only [enact, hanswer]
      rw [hg', node?_reindex, node?_evolve, Node.setPort_id, hg.named hn]
      split_ifs with hid
      · rw [← hid, hn, Option.map_some, Option.map_some, Node.shell_setPort]
      · rfl
    · have henact : g.enact (.offer o) = g := by
        simp only [enact]
        split
        · rename_i w g' h
          exact absurd ⟨w, g', h⟩ hstored
        · rfl
      rw [henact]
  | publish => rfl
  | _ => cases hact

theorem shell_replay (hg : g.Identified) (hacts : ∀ act ∈ acts, g.Carries act) (id : NodeId) :
    ((g.replay acts).node? id).map Node.shell = (g.node? id).map Node.shell := by
  induction acts generalizing g with
  | nil => rfl
  | cons act acts ih =>
    obtain ⟨hact, hrest⟩ := List.forall_mem_cons.1 hacts
    have hlater := ih (hg.enact act) fun act' h => (carries_enact g act act').2 (hrest act' h)
    exact hlater.trans (shell_carry hg hact id)

/-! ### Places that are left as they are -/

/-- The output side of a node changes only when its outputs are taken. -/
theorem Threaded.portIn?_output (hg : g.Threaded s) (hact : g.Carries act) (hs : slot.isOutput = true) (hne : act ≠ .take id) :
    (g.enact act).portIn? id slot = g.portIn? id slot := by
  cases act with
  | take k => exact portIn?_other hg.identified fun e => hne (congrArg Act.take (Option.some.inj e :))
  | offer o => exact portIn?_along hg.identified hg.directed hs hact
  | publish => rfl
  | _ => cases hact

theorem Threaded.portIn?_replay_output (hg : g.Threaded s) (hacts : ∀ act ∈ acts, g.Carries act) (hs : slot.isOutput = true)
    (hnone : .take id ∉ acts) : (g.replay acts).portIn? id slot = g.portIn? id slot := by
  induction acts generalizing g with
  | nil => rfl
  | cons act acts ih =>
    obtain ⟨hact, hrest⟩ := List.forall_mem_cons.1 hacts
    rw [List.mem_cons, not_or] at hnone
    have hlater := ih (hg.enact act) (fun act' h => (carries_enact g act act').2 (hrest act' h)) hnone.2
    exact hlater.trans (hg.portIn?_output hact hs (Ne.symm hnone.1))

/-- Acts that offer nothing to the port in a place. -/
def Spares (g : Graph) (id : NodeId) (slot : Slot) (acts : List Act) : Prop :=
  ∀ o, .offer o ∈ acts → ∀ top, g.portIn? id slot = some top → o.edge.target ≠ top.id

/-- The input side of a node changes only where something is offered. -/
theorem Threaded.portIn?_input (hg : g.Threaded s) (hact : g.Carries act) (hs : slot.isOutput = false)
    (hspares : g.Spares id slot [act]) : (g.enact act).portIn? id slot = g.portIn? id slot := by
  cases act with
  | take | publish => exact portIn?_neutral hg.identified rfl hs
  | offer o =>
    rcases portIn?_offer hg.identified o with hsame | ⟨w, g', p, p', s', -, hp, hw, -⟩
    · exact hsame
    · -- An offer is made to the top-level port of another place.
      obtain ⟨k, place, top, -, hat, hid⟩ := hg.aimed hact
      have hin : top.id ∈ p.ids := hid ▸ (Port.edit_of_writeAt hw).mem_ids
      obtain ⟨rfl, rfl⟩ := hg.identified.portIn?_unique hat hp (Port.id_mem_ids top) hin
      exact absurd hid.symm (hspares o (List.mem_singleton.2 rfl) top hat)
  | _ => cases hact

theorem Threaded.portIn?_replay_input (hg : g.Threaded s) (hacts : ∀ act ∈ acts, g.Carries act) (hs : slot.isOutput = false)
    (hspares : g.Spares id slot acts) : (g.replay acts).portIn? id slot = g.portIn? id slot := by
  induction acts generalizing g with
  | nil => rfl
  | cons act acts ih =>
    obtain ⟨hact, hrest⟩ := List.forall_mem_cons.1 hacts
    have hfirst := hg.portIn?_input hact hs fun o ho => hspares o (List.mem_cons.2 (Or.inl (List.mem_singleton.1 ho)))
    have hlater := ih (hg.enact act) (fun act' h => (carries_enact g act act').2 (hrest act' h)) fun o ho top htop =>
      hspares o (List.mem_cons_of_mem _ ho) top (hfirst ▸ htop)
    exact hlater.trans hfirst

/-! ### Places that something arrives in -/

section Offer

variable {o : Offer} (hg : g.Threaded s) (hat : g.portIn? id slot = some top) (htarget : o.edge.target = top.id)

include hg hat

/-- A write to a top-level port. -/
theorem Threaded.write_aimed (v : Value) : ∃ n, g.node? id = some n ∧
    g.write top.id v = match top.write v g.supply with
      | .error e => .error (.write top.id e)
      | .ok (w, p, s') => .ok (w, (g.evolve (n.setPort slot p) s').reindex id) := by
  obtain ⟨n, hn, htop⟩ := portIn?_eq_some.1 hat
  have hordered := hg.identified.ordered hn
  have howner : g.ownerOf? top.id = some id :=
    hg.owned.owned.2 ⟨n, hn, (Node.mem_portIds hordered).2 ⟨slot, top, htop, Port.id_mem_ids top⟩⟩
  refine ⟨n, hn, ?_⟩
  unfold write
  simp only [Option.bind_eq_bind, howner, hn, Option.bind_some, Node.write_top hordered (hg.identified.distinct hn) htop]
  cases top.write v g.supply <;> rfl

include htarget

theorem Threaded.skips_aimed : g.skips o.edge = !g.isEdgeValid o.edge := by
  obtain ⟨n, hn, htop⟩ := portIn?_eq_some.1 hat
  have howner : g.ownerOf? top.id = some id := hg.owned.owned.2
    ⟨n, hn, (Node.mem_portIds (hg.identified.ordered hn)).2 ⟨slot, top, htop, Port.id_mem_ids top⟩⟩
  rw [skips, htarget, howner, Option.isNone_some, Bool.or_false]

/-- What an offer does to the port that it is made to. -/
theorem Threaded.portIn?_aimed : (g.enact (.offer o)).portIn? id slot =
    some (if g.isEdgeValid o.edge then top.receive o.value g.supply else top) := by
  have hskips := hg.skips_aimed hat htarget
  obtain ⟨n, hn, hwrite⟩ := hg.write_aimed hat o.value
  simp only [Graph.enact, Graph.answer?]
  cases hvalid : g.isEdgeValid o.edge with
  | false =>
    rw [hvalid] at hskips
    simpa [hskips] using hat
  | true =>
    rw [hvalid] at hskips
    simp only [hskips, Bool.not_true, Bool.false_eq_true, if_false, if_true, htarget, hwrite, Port.receive]
    cases top.write o.value g.supply with
    | error e => exact hat
    | ok r =>
      dsimp only
      rw [portIn?_reindex, portIn?_of_node? (n := n.setPort slot r.2.1), Node.portAt?_setPort, if_pos rfl]
      rw [node?_evolve, Node.setPort_id, if_pos (hg.identified.named hn)]

end Offer

/-- An offer is refused. -/
def Refuses (g : Graph) (o : Offer) : Prop :=
  ∃ e, g.answer? o = some (.error e)

/-- A top-level port refuses what does not convert to its type. -/
theorem Threaded.refuses_aimed {o : Offer} (hg : g.Threaded s) (hat : g.portIn? id slot = some top)
    (htarget : o.edge.target = top.id) : g.Refuses o ↔
      g.isEdgeValid o.edge = true ∧ o.value.isNull = false ∧ ∃ e, o.value.convert top.dataType = .error e := by
  have hskips := hg.skips_aimed hat htarget
  obtain ⟨n, hn, hwrite⟩ := hg.write_aimed hat o.value
  have herror : (∃ e, g.write o.edge.target o.value = .error e) ↔ ∃ e, top.write o.value g.supply = .error e := by
    rw [htarget, hwrite]
    cases top.write o.value g.supply <;> simp
  unfold Refuses answer?
  cases hvalid : g.isEdgeValid o.edge with
  | false => simp [hskips, hvalid]
  | true =>
    simp only [hskips, hvalid, Bool.not_true, Bool.false_eq_true, if_false, Option.some.injEq, herror, Port.write_eq_error,
      exists_and_left, true_and]

/-- **What is refused is refused at any time.** -/
theorem Threaded.refuses_replay {o : Offer} (hg : g.Threaded s) (ho : o.edge.target ∈ g.outgoing o.edge.source)
    (acts : List Act) : (g.replay acts).Refuses o ↔ g.Refuses o := by
  induction acts generalizing g with
  | nil => exact Iff.rfl
  | cons act acts ih =>
    obtain ⟨id, slot, top, hs, hat, hid⟩ := hg.aimed ho
    obtain ⟨top', hat', hid', htype⟩ := portIn?_enact hg.identified act hs hat
    have hlater := ih (hg.enact act) (by rwa [outgoing_enact])
    rw [replay_cons, hlater, (hg.enact act).refuses_aimed hat' (by rw [hid', hid]), hg.refuses_aimed hat hid.symm,
      isEdgeValid_enact, htype]

/-! ### What is taken -/

/-- The same is taken from nodes that have the same output side. -/
theorem take_congr (hg : g.Identified) (hg' : g'.Identified) (hout : ∀ p, g'.outgoing p = g.outgoing p)
    (hsame : ∀ slot, slot.isOutput = true → g'.portIn? id slot = g.portIn? id slot) :
    g'.taken id = g.taken id ∧
      ∀ slot, slot.isOutput = true → (g'.enact (.take id)).portIn? id slot = (g.enact (.take id)).portIn? id slot := by
  have hexecOut := hsame .execOut rfl
  cases hn : g.node? id with
  | none =>
    cases hn' : g'.node? id with
    | none => exact ⟨by simp only [taken, hn, hn'], fun slot hs => by simpa only [enact, take, hn, hn'] using hsame slot hs⟩
    | some n' => rw [portIn?, portIn?, hn, hn'] at hexecOut; cases hexecOut
  | some n =>
    cases hn' : g'.node? id with
    | none => rw [portIn?, portIn?, hn, hn'] at hexecOut; cases hexecOut
    | some n' =>
      have houtputs : n.SameOutputs n' := fun slot hs => by
        rw [← portIn?_of_node? hn, ← portIn?_of_node? hn', hsame slot hs]
      have hports : g'.feedingPorts n' = g.feedingPorts n := by
        simp only [feedingPorts, hout, houtputs.outputIds (hg.ordered hn) (hg'.ordered hn')]
      obtain ⟨hvalues, hlater⟩ := takeUnread_congr houtputs (hg.ordered hn) (hg'.ordered hn') (hg.distinct hn)
        (hg'.distinct hn') (g.feedingPorts_subset n)
      refine ⟨by simp only [taken, hn, hn', hports, hvalues], fun slot hs => ?_⟩
      have hid := (kept_takeUnread (g.feedingPorts n) n).id.trans (hg.named hn)
      have hid' := (kept_takeUnread (g.feedingPorts n) n').id.trans (hg'.named hn')
      simp only [enact, take, hn, hn', hports]
      rw [portIn?_of_node? (by rw [node?_setNode, if_pos hid']), portIn?_of_node? (by rw [node?_setNode, if_pos hid]),
        hlater slot hs]

/-- What was moved from other nodes does not matter to what is taken from a node. -/
theorem Threaded.take_replay (hg : g.Threaded s) (hacts : ∀ act ∈ acts, g.Carries act) (hnone : .take id ∉ acts) :
    (g.replay acts).taken id = g.taken id ∧ ∀ slot, slot.isOutput = true →
      ((g.replay acts).enact (.take id)).portIn? id slot = (g.enact (.take id)).portIn? id slot :=
  take_congr hg.identified (hg.identified.replay acts) (g.outgoing_replay acts) fun _ hs =>
    hg.portIn?_replay_output hacts hs hnone

/-! ### Moving outputs in another order -/

end Graph

/-- Acts that neither take the outputs of one node nor offer anything to one port. -/
def Act.Apart : Act → Act → Prop
  | .take id, .take id' => id ≠ id'
  | .offer o, .offer o' => o.edge.target ≠ o'.edge.target
  | _, _ => True

theorem Act.Apart.symm {act act' : Act} (h : act.Apart act') : act'.Apart act := by
  cases act <;> cases act' <;> first | exact Ne.symm h | trivial

namespace Graph

variable {s : Supply} {g g' : Graph} {acts acts' : List Act} {id : NodeId} {slot : Slot} {top : Port}

/-- What becomes of the output side of a node whose outputs are taken. -/
theorem Threaded.portIn?_taken (hg : g.Threaded s) (hacts : ∀ act ∈ acts, g.Carries act) (hapart : acts.Pairwise Act.Apart)
    (hs : slot.isOutput = true) (htake : .take id ∈ acts) :
    (g.replay acts).portIn? id slot = (g.enact (.take id)).portIn? id slot := by
  obtain ⟨before, after, rfl⟩ := List.append_of_mem htake
  obtain ⟨hbefore, hafter⟩ := List.forall_mem_append.1 hacts
  obtain ⟨-, hrest, hcross⟩ := List.pairwise_append.1 hapart
  have hnone : .take id ∉ before := fun h => hcross _ h (.take id) List.mem_cons_self rfl
  have hnone' : .take id ∉ after := fun h => (List.pairwise_cons.1 hrest).1 _ h rfl
  have hcarries : ∀ act ∈ after, ((g.replay before).enact (.take id)).Carries act := fun act hact =>
    (carries_enact ..).2 ((carries_replay ..).2 (hafter act (List.mem_cons_of_mem _ hact)))
  rw [replay_append, replay_cons, ((hg.replay before).enact (.take id)).portIn?_replay_output hcarries hs hnone',
    (hg.take_replay hbefore hnone).2 slot hs]

/-- What becomes of a port that something is offered to. -/
theorem Threaded.portIn?_received (hg : g.Threaded s) (hacts : ∀ act ∈ acts, g.Carries act)
    (hapart : acts.Pairwise Act.Apart) (hs : slot.isOutput = false) (hat : g.portIn? id slot = some top) {o : Offer}
    (ho : .offer o ∈ acts) (htarget : o.edge.target = top.id) : ∃ t : Supply, s.next ≤ t.next ∧
      (g.replay acts).portIn? id slot = some (if g.isEdgeValid o.edge then top.receive o.value t else top) := by
  obtain ⟨before, after, rfl⟩ := List.append_of_mem ho
  obtain ⟨hbefore, hafter⟩ := List.forall_mem_append.1 hacts
  obtain ⟨-, hrest, hcross⟩ := List.pairwise_append.1 hapart
  have hgb := hg.replay before
  have hspares : g.Spares id slot before := by
    intro o' ho' top' htop' he
    obtain rfl : top' = top := Option.some.inj (htop'.symm.trans hat)
    exact hcross _ ho' (.offer o) List.mem_cons_self (he.trans htarget.symm)
  have hat' : (g.replay before).portIn? id slot = some top := (hg.portIn?_replay_input hbefore hs hspares).trans hat
  have hafter' : ((g.replay before).enact (.offer o)).portIn? id slot =
      some (if g.isEdgeValid o.edge then top.receive o.value (g.replay before).supply else top) := by
    rw [hgb.portIn?_aimed hat' htarget, isEdgeValid_replay]
  have hspares' : ((g.replay before).enact (.offer o)).Spares id slot after := by
    intro o' ho' top' htop' he
    have hid : top'.id = top.id := by
      rw [Option.some.inj (htop'.symm.trans hafter')]
      split_ifs
      · exact Port.receive_id ..
      · rfl
    exact (List.pairwise_cons.1 hrest).1 _ ho' (htarget.trans (hid.symm.trans he.symm))
  have hcarries : ∀ act ∈ after, ((g.replay before).enact (.offer o)).Carries act := fun act hact =>
    (carries_enact ..).2 ((carries_replay ..).2 (hafter act (List.mem_cons_of_mem _ hact)))
  refine ⟨(g.replay before).supply, hgb.le, ?_⟩
  rw [replay_append, replay_cons, (hgb.enact (.offer o)).portIn?_replay_input hcarries hs hspares', hafter']

/-- A place shows the same after the same outputs were moved in another order. -/
theorem Threaded.portIn?_perm (hg : g.Threaded s) (hacts : ∀ act ∈ acts, g.Carries act) (hapart : acts.Pairwise Act.Apart)
    (hperm : acts.Perm acts') (id : NodeId) (slot : Slot) :
    ((g.replay acts').portIn? id slot).map (Port.rename s.view) = ((g.replay acts).portIn? id slot).map (Port.rename s.view) := by
  have hacts' : ∀ act ∈ acts', g.Carries act := fun act hact => hacts act (hperm.mem_iff.2 hact)
  have hapart' : acts'.Pairwise Act.Apart := hperm.pairwise hapart fun h => h.symm
  cases hs : slot.isOutput with
  | true =>
    by_cases htake : .take id ∈ acts
    · rw [hg.portIn?_taken hacts hapart hs htake, hg.portIn?_taken hacts' hapart' hs (hperm.mem_iff.1 htake)]
    · rw [hg.portIn?_replay_output hacts hs htake, hg.portIn?_replay_output hacts' hs fun h => htake (hperm.mem_iff.2 h)]
  | false =>
    by_cases hspares : g.Spares id slot acts
    · have hspares' : g.Spares id slot acts' := fun o ho => hspares o (hperm.mem_iff.2 ho)
      rw [hg.portIn?_replay_input hacts hs hspares, hg.portIn?_replay_input hacts' hs hspares']
    · -- One value arrives here, whichever way.
      unfold Spares at hspares
      push Not at hspares
      obtain ⟨o, ho, top, hat, htarget⟩ := hspares
      obtain ⟨t, ht, hport⟩ := hg.portIn?_received hacts hapart hs hat ho htarget
      obtain ⟨t', ht', hport'⟩ := hg.portIn?_received hacts' hapart' hs hat (hperm.mem_iff.1 ho) htarget
      rw [hport, hport', Option.map_some, Option.map_some]
      split_ifs
      · rw [top.receive_view o.value ht' ht]
      · rfl

/-- **Graphs look alike after the same outputs were moved, in whatever order.** -/
theorem Threaded.resembles_carry (hg : g.Threaded s) (hacts : ∀ act ∈ acts, g.Carries act)
    (hapart : acts.Pairwise Act.Apart) (hperm : acts.Perm acts') : (g.replay acts).Resembles s (g.replay acts') := by
  have hacts' : ∀ act ∈ acts', g.Carries act := fun act hact => hacts act (hperm.mem_iff.2 hact)
  obtain ⟨hedges, hset, hflagged, hout, hin⟩ := frame_replay hg.identified acts
  obtain ⟨hedges', hset', hflagged', hout', hin'⟩ := frame_replay hg.identified acts'
  refine ⟨hg.toGrown.replay acts, hg.toGrown.replay acts', by rw [order_replay, order_replay], hedges'.trans hedges.symm,
    hset'.trans hset.symm, hflagged'.trans hflagged.symm, hout'.trans hout.symm, hin'.trans hin.symm, fun id => ?_⟩
  have hshell := (shell_replay hg.identified hacts' id).trans (shell_replay hg.identified hacts id).symm
  have hports := hg.portIn?_perm hacts hapart hperm id
  cases hn : (g.replay acts).node? id with
  | none =>
    rw [hn, Option.map_none, Option.map_eq_none_iff] at hshell
    rw [view_of_none hn, view_of_none hshell]
  | some n =>
    rw [hn, Option.map_some] at hshell
    obtain ⟨n', hn', hshell⟩ := Option.map_eq_some_iff.1 hshell
    rw [view_of_some hn, view_of_some hn']
    refine congrArg some (Node.ext_places (((hg.replay acts).identified.ordered hn).rename _)
      (((hg.replay acts').identified.ordered hn').rename _) hshell fun slot => ?_)
    rw [Node.portAt?_rename, Node.portAt?_rename, ← portIn?_of_node? hn, ← portIn?_of_node? hn', hports]

end Graph

end Dataflow
