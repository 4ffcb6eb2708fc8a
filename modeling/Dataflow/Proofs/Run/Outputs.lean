import Dataflow.Proofs.Run.Marks
import Dataflow.Proofs.Run.Relays
import Dataflow.Proofs.Run.Transfers

/-!
# When outputs are lost

What an activation writes to an output is offered along the edges of the output by the end of the iteration, unless
the same output is written again before. Then the first value is lost. This happens only to a direct-through node
that takes part in the scan of an iteration and is reached as a relay before its own outputs are moved.

* `Act.Fills` says that an act writes to a place of a node;
* `Graph.portIn?_replay_kept`: an output keeps its value until it is written again or taken;
* `Run.Owes` says that what an activation wrote was not taken yet, `Run.Accounts` says where in the iteration
  it still waits to be moved, and `Run.Leads.accounts` says that every run keeps these accounts;
* `Run.Leads.twice`: only relays of the scan write again before they are taken;
* `Run.Offers` says that a step offers a value along all edges of a port;
* `Run.offered_iff`: exactly when outputs are offered.
-/

namespace Dataflow

/-- An act writes to a place of a node. -/
def Act.Fills (act : Act) (id : NodeId) (slot : Slot) : Prop :=
  ∃ result, act = .settle id result ∧ slot ∈ Node.slotsOf result

/-- The ends of activations. -/
def Act.isSettle : Act → Bool
  | .settle .. => true
  | _ => false

namespace Graph

/-! ### Outputs between writing and taking -/

section Outputs

variable {g : Graph} {act : Act} {id : NodeId} {slot : Slot} {top c : Port}

theorem portIn?_kept (hg : g.Regular) (hs : slot.isOutput = true) (htake : act ≠ .take id)
    (hfills : ¬ act.Fills id slot)
    (halong : ∀ o, act = .offer o → o.edge.target ∈ g.outgoing o.edge.source) :
    (g.enact act).portIn? id slot = g.portIn? id slot := by
  have htrigger : ¬ slot.isTrigger = true := fun h => by
    rw [Slot.isOutput_of_isTrigger h] at hs
    cases hs
  cases act with
  | prepare a => rw [portIn?_prepare hg.toIdentified, if_neg fun h => htrigger h.2]
  | clear id' => rw [portIn?_clear hg.toIdentified, if_neg fun h => htrigger h.2]
  | remember | reset | publish => exact portIn?_note hg.toIdentified rfl
  | offer o => exact portIn?_along hg.toIdentified hg.directed hs (halong o rfl)
  | take id' =>
    refine portIn?_other hg.toIdentified fun h => htake ?_
    rw [Option.some.inj h]
  | settle id' result =>
    by_cases hid : id' = id
    · subst hid
      exact portIn?_settle hg.toIdentified fun h => hfills ⟨result, rfl, h⟩
    · exact portIn?_other hg.toIdentified fun h => hid (Option.some.inj h)

/-- An output keeps its value until it is written again or taken. -/
theorem portIn?_replay_kept {acts : List Act} (hg : g.Regular) (hs : slot.isOutput = true)
    (htake : .take id ∉ acts) (hfills : ∀ act ∈ acts, ¬ act.Fills id slot)
    (halong : ∀ o, .offer o ∈ acts → o.edge.target ∈ g.outgoing o.edge.source) :
    (g.replay acts).portIn? id slot = g.portIn? id slot := by
  induction acts generalizing g with
  | nil => rfl
  | cons act acts ih =>
    rw [List.mem_cons, not_or] at htake
    obtain ⟨hfirst, hrest⟩ := List.forall_mem_cons.1 hfills
    rw [replay_cons, ih (hg.enact act) htake.2 hrest fun o ho => ?_]
    · refine portIn?_kept hg hs (Ne.symm htake.1) hfirst fun o ho => ?_
      exact halong o (ho ▸ List.mem_cons_self)
    · rw [outgoing_enact]
      exact halong o (List.mem_cons_of_mem _ ho)

/-- What an activation wrote is unread. -/
theorem unread_settle (hg : g.Regular) {result : Except NodeError Output} (hok : g.completion id result = .ok ())
    (hslot : slot ∈ Node.slotsOf result) (htop : (g.enact (.settle id result)).portIn? id slot = some top)
    (hc : c ∈ top.flatten) : c.hasNewData = true := by
  cases hn : g.node? id with
  | none =>
    simp only [enact, settle, hn, portIn?, Option.bind_none] at htop
    cases htop
  | some n =>
    have hid := (n.evolves_complete result g.supply).id.trans (hg.named hn)
    simp only [completion, hn] at hok
    simp only [enact, settle, hn, portIn?_reindex] at htop
    rw [portIn?_of_node? (by rw [node?_evolve, if_pos hid])] at htop
    obtain ⟨slots, m, -, hwrites, ⟨status, lastError, heq⟩, hall⟩ := n.writes_complete result g.supply
    obtain ⟨p, hp, hunread⟩ := hwrites.unread (hg.legal hn) (hall hok ▸ hslot)
    have htop' : m.portAt? slot = some top := by
      rw [heq] at htop
      cases slot <;> exact htop
    obtain rfl : p = top := Option.some.inj (hp.symm.trans htop')
    exact (hunread.of_mem hc).self

/-- What is unread at an output with edges is taken. -/
theorem mem_taken (hg : g.Identified) (hs : slot.isOutput = true) (htop : g.portIn? id slot = some top)
    (hc : c ∈ top.flatten) (hnew : c.hasNewData = true) {q : PortId} (hq : q ∈ g.outgoing c.id) :
    (c.id, c.data) ∈ g.taken id := by
  obtain ⟨n, hn, htop⟩ := portIn?_eq_some.1 htop
  have hin : c.id ∈ n.outputIds :=
    (Node.mem_outputIds (hg.ordered hn)).2 ⟨slot, top, hs, htop, Port.mem_ids_iff.2 ⟨c, hc, rfl⟩⟩
  have hfeeding : c.id ∈ g.feedingPorts n := by
    refine List.mem_filter.2 ⟨hin, ?_⟩
    simpa [List.isEmpty_iff] using List.ne_nil_of_mem hq
  simp only [taken, hn]
  exact mem_takeUnread (hg.ordered hn) (hg.distinct hn) (g.feedingPorts_subset n) htop hc hfeeding hnew

/-- A value that was taken is offered along every valid edge, and becomes a transfer if the target is there. -/
theorem offered_of_taken (hg : g.Identified) (hok : (g.transferOutputs id).failure = none) {p q : PortId} {v : Value}
    (htaken : (p, v) ∈ g.taken id) (hq : q ∈ g.outgoing p) (hvalid : g.isEdgeValid ⟨p, q⟩ = true) :
    ∃ earlier later, g.moving id = .take id :: (earlier ++ .offer ⟨⟨p, q⟩, v⟩ :: later) ∧
      ∀ b, (g.replay (.take id :: earlier)).port? q = some b →
        ∃ w, v.convert b.dataType = .ok w ∧ ⟨p, q, w⟩ ∈ (g.transferOutputs id).transfers := by
  have hg' : (g.take id).Identified := hg.enact (.take id)
  rw [transferOutputs_eq] at hok ⊢
  have hout : q ∈ (g.take id).outgoing p := by
    rwa [show g.take id = g.enact (.take id) from rfl, outgoing_enact]
  have hoffer : (⟨⟨p, q⟩, v⟩ : Offer) ∈ (g.take id).offers (g.taken id) := mem_offers.2 ⟨htaken, hout⟩
  obtain ⟨earlier, later, hsplit⟩ := List.append_of_mem hoffer
  refine ⟨earlier.map .offer, later.map .offer ++ if (g.transferOutputs id).transfers.isEmpty then []
    else [.publish id (g.transferOutputs id).transfers], ?_, fun b hb => ?_⟩
  · rw [moving, offering_eq (d := ⟨g.take id, [], [], none⟩) hok, hsplit, List.map_append, List.map_cons]
    simp only [List.cons_append, List.append_assoc]
  · rw [hsplit] at hok ⊢
    have hb' : ((g.take id).replay (earlier.map .offer)).port? q = some b := hb
    -- The edge is valid and its target is there, so that the offer is not passed over.
    have hskips : ((g.take id).replay (earlier.map .offer)).skips ⟨p, q⟩ = false := by
      obtain ⟨owner, _, howner, -, -⟩ := port?_eq_some hb'
      have hvalid' : ((g.take id).replay (earlier.map .offer)).isEdgeValid ⟨p, q⟩ = true := by
        rw [isEdgeValid_replay, show g.take id = g.enact (.take id) from rfl, isEdgeValid_enact, hvalid]
      simp [skips, hvalid', howner]
    obtain ⟨w, g', hw, htransfer⟩ := mem_transfers_deliver hok hskips
    exact ⟨w, convert_of_write (hg'.replay _) hw hb', htransfer⟩

end Outputs

end Graph

namespace Run

/-! ### Outputs that wait to be moved -/

/-- An activation of a node was settled after some acts, and its outputs were not taken since. -/
def Owes (acts before : List Act) (id : NodeId) : Prop :=
  ∃ result after, acts = before ++ .settle id result :: after ∧ .take id ∉ after

/-- After some acts of a run, a node takes part in the scan of an iteration that is not settled yet. -/
def Scanned (r₀ : Run) (before : List Act) (id : NodeId) : Prop :=
  ∃ r batch, Leads r₀ before r ∧ r.phase = .activating batch ∧ id ∈ batch.ready

/-- The outputs of a node are among those that are left to be moved. -/
def Awaits (agenda : Agenda) (id : NodeId) : Prop :=
  id ∈ agenda.origins ∨ ∃ depth, .propagate id depth ∈ agenda.work

/-- All nodes that are left to be activated are relays. -/
def Reaches (r₀ : Run) (work : List Work) : Prop :=
  ∀ id depth, .activate id depth ∈ work → r₀.graph.isRelay id = true

/-- Where the outputs that were not taken yet wait to be moved: first those of the relay that was activated last,
and then those of nodes of the scan. Between iterations there are none. -/
def Accounts (r₀ : Run) (acts : List Act) : Phase → Prop
  | .activating batch => batch.ready.Nodup ∧ (batch.settled ++ batch.pending).Perm batch.ready ∧
      ∀ before id, Owes acts before id → Scanned r₀ before id ∧ id ∈ batch.settled
  | .propagating agenda => Reaches r₀ agenda.work ∧ ∀ before id, Owes acts before id →
      (∃ depth, agenda.work.head? = some (.propagate id depth)) ∨ Scanned r₀ before id ∧ Awaits agenda id
  | .relaying relay _ agenda => r₀.graph.isRelay relay.task.node = true ∧ Reaches r₀ agenda.work ∧
      ∀ before id, Owes acts before id → Scanned r₀ before id ∧ Awaits agenda id
  | .ending _ | .over _ | .broken _ => True
  | _ => ∀ before id, ¬ Owes acts before id

section Accounts

variable {r₀ r r' : Run} {acts acts' before : List Act} {id : NodeId} {p : Phase}

theorem accounts_of_isIdle (hp : p.isIdle = true) : Accounts r₀ acts p ↔ ∀ before id, ¬ Owes acts before id := by
  cases p <;> first | exact Iff.rfl | cases hp

theorem accounts_of_isOver (hp : p.isOver = true) : Accounts r₀ acts p := by
  cases p <;> trivial

theorem Owes.mem (h : Owes acts before id) : ∃ result, .settle id result ∈ acts := by
  obtain ⟨result, after, rfl, -⟩ := h
  exact ⟨result, List.mem_append_right _ List.mem_cons_self⟩

theorem owes_append (h : Owes (acts ++ acts') before id) :
    (Owes acts before id ∧ .take id ∉ acts') ∨ ∃ first, before = acts ++ first ∧ Owes acts' first id := by
  obtain ⟨result, after, heq, htake⟩ := h
  rcases split_append heq with ⟨rest, hacts, rfl⟩ | ⟨first, hbefore, hacts'⟩
  · rw [List.mem_append, not_or] at htake
    exact Or.inl ⟨⟨result, rest, hacts, htake.1⟩, htake.2⟩
  · exact Or.inr ⟨first, hbefore, result, after, hacts', htake⟩

/-- Where nothing is settled, no outputs are added. -/
theorem owes_of_unsettled (hs : ∀ act ∈ acts', act.isSettle = false) (h : Owes (acts ++ acts') before id) :
    Owes acts before id ∧ .take id ∉ acts' := by
  rcases owes_append h with h | ⟨first, -, h⟩
  · exact h
  · obtain ⟨result, hmem⟩ := h.mem
    cases hs _ hmem

theorem isSettle_memories (node : NodeId) (memories : List Memory) :
    ∀ act ∈ memories.map (Act.remember node), act.isSettle = false := by
  intro act hact
  obtain ⟨memory, -, rfl⟩ := List.mem_map.1 hact
  rfl

theorem isSettle_moving (g : Graph) (id : NodeId) : ∀ act ∈ g.moving id, act.isSettle = false := by
  obtain ⟨rest, hmoving, hrest⟩ := g.moving_eq id
  rw [hmoving]
  refine List.forall_mem_cons.2 ⟨rfl, fun act hact => ?_⟩
  rcases hrest act hact with ⟨_, -, rfl⟩ | ⟨_, rfl⟩ <;> rfl

/-- The outputs of a relay come before all others. -/
theorem accounts_carried {node : NodeId} {depth : Nat} {agenda : Agenda} {g : Graph}
    (hcarry : Carried node depth agenda g acts' p) (hrelay : r₀.graph.isRelay node = true)
    (hreaches : Reaches r₀ agenda.work)
    (hawaits : ∀ before id, Owes acts before id → Scanned r₀ before id ∧ Awaits agenda id) :
    Accounts r₀ (acts ++ acts') p := by
  cases hcarry with
  | @asleep memories relay hnode =>
    refine ⟨by rw [hnode]; exact hrelay, hreaches, fun before id h => ?_⟩
    exact hawaits before id (owes_of_unsettled (isSettle_memories _ _) h).1
  | broken => trivial
  | failed => trivial
  | @settled memories result hok =>
    refine ⟨fun id d hd => hreaches id d ((List.mem_cons.1 hd).resolve_left (by simp)), fun before id h => ?_⟩
    rcases owes_append h with ⟨hold, -⟩ | ⟨first, -, hnew⟩
    · obtain ⟨hscanned, hleft⟩ := hawaits before id hold
      exact Or.inr ⟨hscanned, hleft.imp_right fun ⟨d, hd⟩ => ⟨d, List.mem_cons_of_mem _ hd⟩⟩
    · obtain ⟨result', hmem⟩ := hnew.mem
      rcases List.mem_append.1 hmem with hmem | hmem
      · cases isSettle_memories _ _ _ hmem
      · simp only [List.mem_cons, Act.settle.injEq, reduceCtorEq, List.not_mem_nil, or_false] at hmem
        exact Or.inl ⟨depth, by rw [hmem.1]; rfl⟩

/-- While a relay is about to be activated, no outputs of another one are left. -/
theorem awaits_of_activate {relay : NodeId} {depth : Nat} {work : List Work} {origins : List NodeId}
    (h : (∃ d, (Work.activate relay depth :: work).head? = some (.propagate id d)) ∨
      Scanned r₀ before id ∧ Awaits ⟨.activate relay depth :: work, origins⟩ id) :
    Scanned r₀ before id ∧ Awaits ⟨work, origins⟩ id := by
  rcases h with ⟨d, hd⟩ | ⟨hscan, hleft⟩
  · cases hd
  · exact ⟨hscan, hleft.imp_right fun ⟨d, hd⟩ => ⟨d, (List.mem_cons.1 hd).resolve_left (by simp)⟩⟩

/-- An activation of an iteration is settled, and its node awaits that its outputs are moved. -/
theorem accounts_settle {batch : Batch} {f : Finished} {rest : List Finished} {failures : List String}
    (hlead : Leads r₀ acts r) (hp : r.phase = .activating batch) (hf : batch.finished = f :: rest)
    (ha : Accounts r₀ acts (.activating batch)) : Accounts r₀ (acts ++ [.settle f.node f.result])
      (.activating { batch with finished := rest, failures, settled := batch.settled ++ [f.node] }) := by
  obtain ⟨hn, hperm, hscanned⟩ := ha
  refine ⟨hn, (Batch.Whole.settle ⟨hn, hperm⟩ hf failures).parts, fun before id howes => ?_⟩
  rcases owes_append howes with ⟨hold, -⟩ | ⟨first, rfl, result, after, heq, -⟩
  · obtain ⟨hscan, hmem⟩ := hscanned before id hold
    exact ⟨hscan, List.mem_append_left _ hmem⟩
  · -- This activation is the only one that is settled now.
    obtain ⟨rfl, hcons⟩ : first = [] ∧ Act.settle f.node f.result = .settle id result := by
      rcases List.cons_eq_append_iff.1 heq with ⟨rfl, h⟩ | ⟨first', rfl, h⟩
      · exact ⟨rfl, (List.cons.inj h).1.symm⟩
      · exact absurd h (by simp)
    cases hcons
    have hready := hperm.mem_iff.1 (List.mem_append_right _ ((Batch.pending_settle hf).mem_iff.2 List.mem_cons_self))
    exact ⟨⟨r, batch, by rwa [List.append_nil], hp, hready⟩, by simp⟩

/-- The outputs that are moved are not left any more, and the relays that they reach are activated next. -/
theorem accounts_move {depth : Nat} {work : List Work} {origins : List NodeId} (hg : r₀.graph.Identified)
    (hlead : Leads r₀ acts r) (ha : Accounts r₀ acts (.propagating ⟨.propagate id depth :: work, origins⟩)) :
    Accounts r₀ (acts ++ r.graph.moving id) (.propagating ⟨(((r.graph.transferOutputs id).relays.filter
      (r.graph.transferOutputs id).graph.isReady).map fun relay => .activate relay (depth + 1)) ++ work, origins⟩) := by
  have hg' := hlead.identified hg
  obtain ⟨hreaches, hawaits⟩ := ha
  refine ⟨fun id' d hd => ?_, fun before id' howes => ?_⟩
  · rcases List.mem_append.1 hd with hd | hd
    · obtain ⟨relay, hrelay, heq⟩ := List.mem_map.1 hd
      cases heq
      rw [← Graph.isRelay_replay hg.isNamed acts, ← hlead.graph hg]
      exact Graph.isRelay_transferOutputs hg'.isNamed (List.mem_filter.1 hrelay).1
    · exact hreaches id' d (List.mem_cons_of_mem _ hd)
  · obtain ⟨hold, htake⟩ := owes_of_unsettled (isSettle_moving _ _) howes
    obtain ⟨rest, hmoving, -⟩ := r.graph.moving_eq id
    have hne : id ≠ id' := by
      rintro rfl
      rw [hmoving] at htake
      exact htake List.mem_cons_self
    rcases hawaits before id' hold with ⟨d, hd⟩ | ⟨hscan, hleft⟩
    · cases hd
      exact absurd rfl hne
    · refine Or.inr ⟨hscan, hleft.imp_right ?_⟩
      rintro ⟨d, hd⟩
      refine ⟨d, List.mem_append_right _ ((List.mem_cons.1 hd).resolve_left fun heq => ?_)⟩
      cases heq
      exact hne rfl

/-- Every step keeps the accounts. -/
theorem accounts_step {s : Signal} (hg : r₀.graph.Identified) (hlead : Leads r₀ acts r) (h : r.step? s = some r')
    (ha : Accounts r₀ acts r.phase) : Accounts r₀ (acts ++ r.acts s) r'.phase := by
  have hg' := hlead.identified hg
  have hm := step_moves hg'.isNamed h
  generalize r.acts s = acts' at hm
  generalize r'.phase = p at hm
  cases hm with
  | wait => rwa [List.append_nil]
  | turn hp hp' =>
    rcases Bool.or_eq_true_iff.1 hp' with hidle | hover
    · rw [List.append_nil]
      exact (accounts_of_isIdle hidle).2 ((accounts_of_isIdle hp).1 ha)
    · exact accounts_of_isOver hover
  | @begin ready fired tasks hp hready htasks =>
    rw [hp] at ha
    have hn : ready.Nodup := by
      have := nodup_collectReady hg' r.firedSources
      rwa [hready] at this
    refine ⟨hn, by simp [Batch.pending, htasks], fun before id howes => ?_⟩
    have hold := owes_of_unsettled (fun act hact => by obtain ⟨a, rfl⟩ := mem_preparing hact; rfl) howes
    exact absurd hold.1 (ha before id)
  | run hp hready hsettled hfailures hpending =>
    rw [hp] at ha
    obtain ⟨hn, hperm, hscanned⟩ := ha
    obtain ⟨-, hwhole⟩ := Batch.Whole.turned ⟨hn, hperm⟩ ⟨hready, hsettled, hfailures, hpending⟩
    refine ⟨hwhole.apart, hwhole.parts, fun before id howes => ?_⟩
    rw [hsettled]
    exact hscanned before id (owes_of_unsettled (isSettle_memories _ _) howes).1
  | settle hp hf _ => exact accounts_settle hlead hp hf (hp ▸ ha)
  | @pass batch hp hpending _ =>
    rw [hp] at ha
    obtain ⟨hn, hperm, hscanned⟩ := ha
    rw [hpending, List.append_nil] at hperm
    refine ⟨fun id d hd => absurd hd List.not_mem_nil, fun before id howes => ?_⟩
    have hold := owes_of_unsettled (fun act hact => by obtain ⟨id, -, rfl⟩ := List.mem_map.1 hact; rfl) howes
    obtain ⟨hscan, hmem⟩ := hscanned before id hold.1
    exact Or.inr ⟨hscan, Or.inl (hperm.mem_iff.1 hmem)⟩
  | move hp _ => exact accounts_move hg hlead (hp ▸ ha)
  | @skip id depth work origins hp hready =>
    rw [hp] at ha
    obtain ⟨hreaches, hawaits⟩ := ha
    rw [List.append_nil]
    refine ⟨fun id' d hd => hreaches id' d (List.mem_cons_of_mem _ hd), fun before id' howes => ?_⟩
    exact Or.inr (awaits_of_activate (hawaits before id' howes))
  | @relay n depth work origins acts₁ p hp hn _ _ hcarry =>
    rw [hp] at ha
    obtain ⟨hreaches, hawaits⟩ := ha
    rw [List.append_cons]
    refine accounts_carried hcarry (hreaches n.id depth List.mem_cons_self)
      (fun id' d hd => hreaches id' d (List.mem_cons_of_mem _ hd)) fun before id' howes => ?_
    have hold := owes_of_unsettled (fun act hact => by rw [List.mem_singleton.1 hact]; rfl) howes
    exact awaits_of_activate (hawaits before id' hold.1)
  | resume hp hcarry =>
    rw [hp] at ha
    obtain ⟨hrelay, hreaches, hawaits⟩ := ha
    exact accounts_carried hcarry hrelay hreaches hawaits
  | @next id origins hp =>
    rw [hp] at ha
    obtain ⟨-, hawaits⟩ := ha
    rw [List.append_nil]
    refine ⟨fun id' d hd => absurd (List.mem_singleton.1 hd) (by simp), fun before id' howes => ?_⟩
    rcases hawaits before id' howes with ⟨d, hd⟩ | ⟨hscan, hmem | ⟨d, hd⟩⟩
    · cases hd
    · rcases List.mem_cons.1 hmem with rfl | hmem
      · exact Or.inl ⟨0, rfl⟩
      · exact Or.inr ⟨hscan, Or.inl hmem⟩
    · exact absurd hd List.not_mem_nil
  | finish hp hp' =>
    rw [hp] at ha
    obtain ⟨-, hawaits⟩ := ha
    rw [List.append_nil]
    refine (accounts_of_isIdle hp').2 fun before id howes => ?_
    rcases hawaits before id howes with ⟨d, hd⟩ | ⟨-, hmem | ⟨d, hd⟩⟩
    · cases hd
    · exact absurd hmem List.not_mem_nil
    · exact absurd hd List.not_mem_nil
  | report | giveUp => trivial

theorem Leads.accounts (hg : r₀.graph.Identified) (h : Leads r₀ acts r) (hp : r₀.phase.isIdle = true) :
    Accounts r₀ acts r.phase := by
  induction h with
  | refl =>
    refine (accounts_of_isIdle hp).2 fun before id howes => ?_
    obtain ⟨result, hmem⟩ := howes.mem
    exact absurd hmem List.not_mem_nil
  | step hlead hs ih => exact accounts_step hg hlead hs ih

/-! ### Outputs that are written again -/

/-- At most one activation is settled in a step. -/
theorem Moves.settles_once (h : Moves r acts p) : acts.countP Act.isSettle ≤ 1 := by
  have hnone : ∀ {acts : List Act}, (∀ act ∈ acts, act.isSettle = false) → acts.countP Act.isSettle = 0 := by
    intro acts h
    exact List.countP_eq_zero.2 fun act hact => by simp [h act hact]
  have hmemories : ∀ (node : NodeId) (memories : List Memory),
      (memories.map (Act.remember node)).countP Act.isSettle = 0 := fun node memories =>
    hnone (isSettle_memories node memories)
  have hcarried : ∀ {node depth agenda g acts p}, Carried node depth agenda g acts p →
      acts.countP Act.isSettle ≤ 1 := by
    intro node depth agenda g acts p hcarry
    cases hcarry with
    | asleep | broken => rw [hmemories]; omega
    | failed | settled => rw [List.countP_append, hmemories]; simp [List.countP_cons, Act.isSettle]
  cases h with
  | wait | turn | report | skip | next | finish => exact Nat.zero_le 1
  | begin =>
    rw [hnone fun act hact => by obtain ⟨a, rfl⟩ := mem_preparing hact; rfl]
    omega
  | run => rw [hmemories]; omega
  | settle => simp [Act.isSettle]
  | pass =>
    rw [hnone fun act hact => by obtain ⟨id, -, rfl⟩ := List.mem_map.1 hact; rfl]
    omega
  | move => rw [hnone (isSettle_moving _ _)]; omega
  | relay _ _ _ _ hcarry =>
    rw [List.countP_cons_of_neg (by simp [Act.isSettle])]
    exact hcarried hcarry
  | resume _ hcarry => exact hcarried hcarry
  | giveUp h =>
    rcases h.acts_eq with ⟨ids, rfl⟩ | ⟨id, _, _, _, -, rfl⟩
    · rw [hnone fun act hact => by obtain ⟨id, -, rfl⟩ := List.mem_map.1 hact; rfl]
      omega
    · rw [hnone (isSettle_moving _ _)]
      omega

/-- An activation is settled in the iteration that scanned its node, or as that of a relay. -/
theorem Moves.settling {result : Except NodeError Output} (h : Moves r acts p) (hs : .settle id result ∈ acts) :
    (∃ batch f rest, r.phase = .activating batch ∧ batch.finished = f :: rest ∧ f.node = id) ∨
      (∃ depth work origins, r.phase = .propagating ⟨.activate id depth :: work, origins⟩) ∨
        ∃ relay depth agenda, r.phase = .relaying relay depth agenda ∧ relay.task.node = id := by
  have hcarried : ∀ {node depth agenda g acts p}, Carried node depth agenda g acts p → .settle id result ∈ acts →
      node = id := by
    intro node depth agenda g acts p hcarry hmem
    cases hcarry with
    | asleep | broken => cases isSettle_memories _ _ _ hmem
    | failed | settled =>
      rcases List.mem_append.1 hmem with hmem | hmem
      · cases isSettle_memories _ _ _ hmem
      · simp only [List.mem_cons, Act.settle.injEq, reduceCtorEq, List.not_mem_nil, or_false] at hmem
        exact hmem.1.symm
  cases h with
  | wait | turn | report | skip | next | finish => exact absurd hs List.not_mem_nil
  | begin =>
    obtain ⟨a, heq⟩ := mem_preparing hs
    cases heq
  | run => cases isSettle_memories _ _ _ hs
  | @settle batch f rest failures hp hf _ =>
    cases List.mem_singleton.1 hs
    exact Or.inl ⟨batch, f, rest, hp, hf, rfl⟩
  | pass =>
    obtain ⟨id, -, heq⟩ := List.mem_map.1 hs
    cases heq
  | move => cases isSettle_moving _ _ _ hs
  | @relay n depth work origins _ _ hp _ _ _ hcarry =>
    obtain rfl := hcarried hcarry ((List.mem_cons.1 hs).resolve_left (by simp))
    exact Or.inr (Or.inl ⟨depth, work, origins, hp⟩)
  | resume hp hcarry => exact Or.inr (Or.inr ⟨_, _, _, hp, hcarried hcarry hs⟩)
  | giveUp h =>
    rcases h.acts_eq with ⟨ids, rfl⟩ | ⟨id, _, _, _, -, rfl⟩
    · obtain ⟨id, -, heq⟩ := List.mem_map.1 hs
      cases heq
    · cases isSettle_moving _ _ _ hs

/-- A node whose outputs wait to be moved is activated again only as a relay, and only if it takes part in the scan of
the iteration. -/
theorem Accounts.again {result : Except NodeError Output} (ha : Accounts r₀ acts r.phase) (hm : Moves r acts' p)
    (howes : Owes acts before id) (hs : .settle id result ∈ acts') :
    r₀.graph.isRelay id = true ∧ Scanned r₀ before id := by
  rcases hm.settling hs with ⟨batch, f, rest, hp, hf, rfl⟩ | ⟨depth, work, origins, hp⟩ |
    ⟨relay, depth, agenda, hp, rfl⟩
  · -- In the scan no node is settled twice.
    rw [hp] at ha
    obtain ⟨hn, hperm, hscanned⟩ := ha
    have hpending : f.node ∈ batch.pending := (Batch.pending_settle hf).mem_iff.2 List.mem_cons_self
    have hsettled := (hscanned before f.node howes).2
    exact absurd hpending ((List.nodup_append'.1 (hperm.nodup_iff.2 hn)).2.2 hsettled)
  · rw [hp] at ha
    obtain ⟨hreaches, hawaits⟩ := ha
    exact ⟨hreaches id depth List.mem_cons_self, (awaits_of_activate (hawaits before id howes)).1⟩
  · rw [hp] at ha
    obtain ⟨hrelay, -, hawaits⟩ := ha
    exact ⟨hrelay, (hawaits before _ howes).1⟩

/-- Only relays of the scan are settled again before their outputs are taken. -/
theorem Leads.twice (hg : r₀.graph.Identified) (h : Leads r₀ acts r) (hidle : r₀.phase.isIdle = true)
    {between after : List Act} {result result' : Except NodeError Output}
    (hacts : acts = before ++ .settle id result :: between ++ .settle id result' :: after)
    (htake : .take id ∉ between) : r₀.graph.isRelay id = true ∧ Scanned r₀ before id := by
  induction h generalizing after with
  | refl => exact absurd hacts (by simp)
  | @step r₁ r₂ acts s hlead hs ih =>
    have hm := step_moves (hlead.identified hg).isNamed hs
    rcases split_append hacts with ⟨rest, hbefore, -⟩ | ⟨first, hfirst, hstep⟩
    · exact ih hbefore
    · rcases split_append hfirst.symm with ⟨rest, hbefore, rfl⟩ | ⟨first', -, rfl⟩
      · have howes : Owes acts before id :=
          ⟨result, rest, hbefore, fun h => htake (List.mem_append_left _ h)⟩
        have hmem : .settle id result' ∈ r₁.acts s := by
          rw [hstep]
          exact List.mem_append_right _ List.mem_cons_self
        exact (hlead.accounts hg hidle).again hm howes hmem
      · have hcount := hm.settles_once
        rw [hstep] at hcount
        simp only [List.append_assoc, List.cons_append, List.countP_append, List.countP_cons, Act.isSettle,
          if_true] at hcount
        omega

end Accounts

/-! ### Offered or lost -/

/-- The next step of the driver offers a value along all valid edges of a port. Each offer that finds its target
becomes a transfer of the value as the target converts it, and the transfers are published. -/
def Offers (r : Run) (id : NodeId) (p : PortId) (v : Value) : Prop :=
  ∃ r' moved, r.step? .drive = some r' ∧ r.acts .drive = .take id :: moved ∧
    ∀ q, r.graph.isEdgeValid ⟨p, q⟩ = true → ∃ earlier later, moved = earlier ++ .offer ⟨⟨p, q⟩, v⟩ :: later ∧
      ∀ b, (r.graph.replay (.take id :: earlier)).port? q = some b →
        ∃ w transfers, v.convert b.dataType = .ok w ∧ ⟨p, q, w⟩ ∈ transfers ∧
          r'.executor = r.executor.publish (.dataPropagated id transfers)

/-- After some acts of a run, the value of a port is offered before its place is written again. -/
def Offered (r₀ : Run) (before after : List Act) (id : NodeId) (slot : Slot) (c : Port) : Prop :=
  ∃ r between rest, Leads r₀ (before ++ between) r ∧ after = between ++ r.acts .drive ++ rest ∧
    (∀ act ∈ between, ¬ act.Fills id slot) ∧ r.Offers id c.id c.data

/-- A place of a node is written again before the outputs of the node are taken. -/
def Overtaken (after : List Act) (id : NodeId) (slot : Slot) : Prop :=
  ∃ between act rest, after = between ++ act :: rest ∧ act.Fills id slot ∧ .take id ∉ between

theorem not_overtaken_of_offered {r₀ : Run} {before after : List Act} {id : NodeId} {slot : Slot} {c : Port}
    (h : Offered r₀ before after id slot c) : ¬ Overtaken after id slot := by
  rintro ⟨between', act, rest', heq', hfills, htake⟩
  obtain ⟨r, between, rest, -, heq, hkept, -, moved, -, hmoved, -⟩ := h
  rw [hmoved] at heq
  have hsplit : between ++ .take id :: (moved ++ rest) = between' ++ act :: rest' := by
    rw [← heq', heq, List.append_assoc, List.cons_append]
  rcases split_append hsplit with ⟨later, rfl, -⟩ | ⟨first, rfl, hfirst⟩
  · exact hkept act (List.mem_append_right _ List.mem_cons_self) hfills
  · rcases List.cons_eq_append_iff.1 hfirst with ⟨rfl, hact⟩ | ⟨first', rfl, -⟩
    · obtain ⟨result, rfl, -⟩ := hfills
      cases (List.cons.inj hact).1
    · exact htake (List.mem_append_right _ List.mem_cons_self)

/-- **When outputs are offered and when they are lost.** What a successful activation writes to an output is offered
along the edges of the output by the end of the iteration, exactly if the output is not written again before the
outputs of its node are taken. It is written again only if the node is direct-through and was activated in the scan
of the iteration. -/
theorem offered_iff {x : Executor} {g : Graph} {context : Context} {mode : StartMode} {now : Nat} {r₀ r : Run}
    {acts before after : List Act} {id : NodeId} {output : Output} {slot : Slot} {top c : Port} (hg : g.Regular)
    (hstart : start x g context mode now = .ok r₀) (hrun : Leads r₀ acts r) (hend : r.HasProgressed)
    (hacts : acts = before ++ .settle id (.ok output) :: after)
    (hok : (r₀.graph.replay before).completion id (.ok output) = .ok ()) (hslot : slot ∈ output.slots)
    (htop : (r₀.graph.replay (before ++ [.settle id (.ok output)])).portIn? id slot = some top)
    (hc : c ∈ top.flatten) :
    (Offered r₀ (before ++ [.settle id (.ok output)]) after id slot c ↔ ¬ Overtaken after id slot) ∧
      (Overtaken after id slot → r₀.graph.isRelay id = true ∧ Scanned r₀ before id) := by
  have hg₀ := start_regular hg hstart
  have hidle : r₀.phase.isIdle = true := by rw [(start_eq hstart).1]; rfl
  have hslots : slot ∈ Node.slotsOf (.ok output) := hslot
  have hs := Node.isOutput_of_mem_slotsOf hslots
  refine ⟨⟨not_overtaken_of_offered, fun hkept => ?_⟩, fun hover => ?_⟩
  · -- At the end of the iteration no outputs are left, so that they were taken.
    have htake : .take id ∈ after := by
      by_contra htake
      have haccounts := hrun.accounts hg₀.toIdentified hidle
      rw [show r.phase = .propagating ⟨[], []⟩ from hend] at haccounts
      rcases haccounts.2 before id ⟨_, after, hacts, htake⟩ with ⟨d, hd⟩ | ⟨-, hmem | ⟨d, hd⟩⟩
      · cases hd
      · exact absurd hmem List.not_mem_nil
      · exact absurd hd List.not_mem_nil
    obtain ⟨between, later, rfl, hbetween⟩ := List.eq_append_cons_of_mem htake
    have hfills : ∀ act ∈ between, ¬ act.Fills id slot := by
      intro act hact hfills
      obtain ⟨first, last, rfl⟩ := List.append_of_mem hact
      refine hkept ⟨first, act, last ++ .take id :: later, by simp, hfills, fun h => hbetween ?_⟩
      exact List.mem_append_left _ h
    have hacts' : acts = (before ++ [.settle id (.ok output)] ++ between) ++ .take id :: later := by
      rw [hacts]
      simp
    have hover : r.phase.isOver = false := by rw [show r.phase = .propagating ⟨[], []⟩ from hend]; rfl
    obtain ⟨r₁, depth, work, origins, rest, hlead, hp, hmoves, hfailure⟩ := hrun.moved hg₀.toIdentified hover hacts'
    obtain ⟨hstep, hdrive⟩ := drive_moving hp
    obtain ⟨moved, hmoving, -⟩ := r₁.graph.moving_eq id
    refine ⟨r₁, between, rest, hlead, by rw [hdrive, hmoves, List.append_assoc], hfills, _, moved, hstep,
      hdrive.trans hmoving, fun q hvalid => ?_⟩
    have hg₁ := hlead.regular hg₀
    -- The port still holds the value, unread.
    have hnew : c.hasNewData = true := by
      rw [Graph.replay_append] at htop
      exact Graph.unread_settle (hg₀.replay before) hok hslot htop hc
    have htop₁ : r₁.graph.portIn? id slot = some top := by
      rw [hlead.graph hg₀.toIdentified, Graph.replay_append, Graph.portIn?_replay_kept (hg₀.replay _) hs hbetween
        hfills fun o ho => ?_, htop]
      rw [Graph.outgoing_replay]
      refine hrun.along hg₀.toIdentified ?_
      rw [hacts']
      exact List.mem_append_left _ (List.mem_append_right _ ho)
    have hq : q ∈ r₁.graph.outgoing c.id := by
      have hmem : ⟨c.id, q⟩ ∈ r₁.graph.edgeSet := by
        simp only [Graph.isEdgeValid, Bool.and_eq_true, List.contains_iff_mem] at hvalid
        exact hvalid.1
      exact hg₁.linked.2 (hg₁.inSet.1 hmem)
    have htaken := Graph.mem_taken hg₁.toIdentified hs htop₁ hc hnew hq
    obtain ⟨earlier, later', hsplit, htransfer⟩ :=
      Graph.offered_of_taken hg₁.toIdentified hfailure htaken hq hvalid
    refine ⟨earlier, later', (List.cons.inj (hmoving.symm.trans hsplit)).2, fun b hb => ?_⟩
    obtain ⟨w, hconvert, hmem⟩ := htransfer b hb
    exact ⟨w, _, hconvert, hmem, r₁.executor_propagateFrom depth _ (List.ne_nil_of_mem hmem)⟩
  · obtain ⟨between, act, rest, rfl, ⟨result, rfl, -⟩, htake⟩ := hover
    have hacts' : acts = before ++ .settle id (.ok output) :: between ++ .settle id result :: rest := by
      rw [hacts]
      simp
    exact hrun.twice hg₀.toIdentified hidle hacts' htake

theorem offered_iff_signal : ∃ before after top,
    signalStart.trail signalPath = before ++ .settle ⟨1⟩ (.ok .empty) :: after ∧ signalEnd.HasProgressed ∧
      (signalStart.graph.replay (before ++ [.settle ⟨1⟩ (.ok .empty)])).portIn? ⟨1⟩ .execOut = some top ∧
      (Offered signalStart (before ++ [.settle ⟨1⟩ (.ok .empty)]) after ⟨1⟩ .execOut top ↔
        ¬ Overtaken after ⟨1⟩ .execOut) ∧
      (Overtaken after ⟨1⟩ .execOut → signalStart.graph.isRelay ⟨1⟩ = true ∧ Scanned signalStart before ⟨1⟩) := by
  have hsplit : signalStart.trail signalPath = (signalStart.trail signalPath).take 1 ++
      .settle ⟨1⟩ (.ok .empty) :: (signalStart.trail signalPath).drop 2 := rfl
  obtain ⟨top, htop⟩ : ∃ top, (signalStart.graph.replay ((signalStart.trail signalPath).take 1 ++
      [.settle ⟨1⟩ (.ok .empty)])).portIn? ⟨1⟩ .execOut = some top := ⟨_, rfl⟩
  refine ⟨_, _, top, hsplit, rfl, htop, ?_⟩
  exact offered_iff Graph.built_signalPair.regular start_signal leads_signal rfl hsplit rfl
    (List.mem_append_right _ List.mem_cons_self) htop (Port.self_mem_flatten top)

end Run

end Dataflow
