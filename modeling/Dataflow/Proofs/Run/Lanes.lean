import Dataflow.Proofs.Run.PromptRounds
import Dataflow.Proofs.Value.Conversion

/-!
# Ways through relays

In a graph of wires, a value that is moved from a node goes on through the relays that follow it, one after the other and
within the iteration, to the first node that is not activated at once.

* `Node.Relays` says that a node passes on at one port what comes to another, and `Graph.Relayed` that one wire follows
  another at such a node;
* `Run.unfolds_hop`, `Run.unfolds_relay`, `Run.unfolds_exceed` and `Run.unfolds_arrive` are the parts of such a way;
* `Graph.Conveys` says what it comes to in the end, and `Run.unfolds_lane` that a run gets there if the way is not too long;
* `Run.unfolds_lane_exceed`: if it is, the run fails at the first relay that is too deep.
-/

namespace Dataflow

/-- A node that passes on within the iteration whatever comes to one of its ports. -/
structure Node.Relays (n : Node) (input output : String) : Prop where
  direct : n.isDirectThrough = true
  enabled : n.isDisabled = false
  takes : ∀ p, n.portAt? (.input input) = some p → p.dataType = .null
  yields : ∀ n', n.Becomes n' → n'.Ordered → ∀ v, n'.held? (.input input) = some v →
    n'.Yields n'.memory (.single output v)

theorem Node.Relays.becomes {n n' : Node} {input output : String} (h : n.Relays input output) (hn : n.Becomes n') :
    n'.Relays input output where
  direct := by rw [Node.isDirectThrough, hn.behavior]; exact h.direct
  enabled := hn.isDisabled.trans h.enabled
  takes p hp := by
    have hface := hn.faces (.input input)
    rw [hp] at hface
    obtain ⟨p₀, hp₀, heq⟩ := Option.map_eq_some_iff.1 hface.symm
    rw [← (Prod.mk.inj heq).2]
    exact h.takes p₀ hp₀
  yields n'' hn'' := h.yields n'' (hn.trans hn'')

namespace Graph

/-- A wire follows another one at a node that passes on what comes. -/
def Relayed (g : Graph) (w w' : Wire) : Prop :=
  w'.source = w.target ∧ ∃ n, g.node? w.target = some n ∧ n.Relays w.input w'.output

theorem Relayed.becomes {g g' : Graph} {w w' : Wire} (h : g.Relayed w w') (hg : g.Becomes g') : g'.Relayed w w' := by
  obtain ⟨hjoin, n, hn, hrelays⟩ := h
  obtain ⟨n', hn', hbecomes⟩ := hg.members _ n hn
  exact ⟨hjoin, n', hn', hrelays.becomes hbecomes⟩

/-- A value that had come to the end of a wire waits at the beginning of another one, and nothing else has changed. -/
structure Hands (wires : List Wire) (w w' : Wire) (v : Value) (g g' : Graph) : Prop where
  sent : ∀ w'' ∈ wires, g'.sent? w'' = if w'' = w' then some v else g.sent? w''
  received : ∀ w'' ∈ wires, g'.received? w'' = if w'' = w then none else g.received? w''
  memory : ∀ id, g'.memory? id = g.memory? id

theorem received_moving (g : Graph) (id id' : NodeId) : Act.received id' (g.moving id) = [] := by
  obtain ⟨acts, hmoving, hacts⟩ := g.moving_eq id
  rw [hmoving]
  refine List.filterMap_eq_nil_iff.2 (List.forall_mem_cons.2 ⟨rfl, fun act hact => ?_⟩)
  rcases hacts act hact with ⟨o, -, rfl⟩ | ⟨transfers, rfl⟩ <;> rfl

theorem Shifts.memory? {g g' : Graph} {wires : List Wire} {w : Wire} {v : Value} (h : g.Shifts wires w v g')
    (id : NodeId) : g'.memory? id = g.memory? id := by
  have hshell := congrArg (Option.map Node.memory) (h.shells id)
  rwa [Option.map_map, Option.map_map] at hshell

/-- The message by which a relay fails a run that is beyond the limit of the depth. -/
def depthFailure (g : Graph) (limit : Nat) (id : NodeId) : String :=
  g.failureLine id ("direct-through relay depth limit of " ++ toString limit ++ " exceeded")

end Graph

namespace Run

variable {r r' : Run} {wires : List Wire} {limit depth : Nat} {acts : List Act} {w w' : Wire} {v : Value}
  {work : List Work} {origins : List NodeId} {id : NodeId}

/-- The outputs of a node are moved along the wire that begins at it. -/
theorem passes_move (hw : r.Wired wires limit) (hp : r.phase = .propagating ⟨.propagate id depth :: work, origins⟩)
    (hok : (r.graph.transferOutputs id).failure = none) {next : List Work}
    (hnext : (((r.graph.transferOutputs id).relays.filter (r.graph.transferOutputs id).graph.isReady).map
      fun relay => Work.activate relay (depth + 1)) = next)
    {P : List Act → Run → Prop}
    (h : ∀ acts' r', r'.phase = .propagating ⟨next ++ work, origins⟩ → r.Passes wires limit r' →
      r'.graph = (r.graph.transferOutputs id).graph → (∀ id, Act.received id acts' = Act.received id acts) → P acts' r') :
    r.Unfolds P acts := by
  refine .of_drive (by rw [hp]; rfl) (fun ms => by simp [step?, drive?, wait, hp]) fun ms r' hs hsilent => ?_
  have hwait := hw.wait ms
  have hp' : (r.wait ms).phase = .propagating ⟨.propagate id depth :: work, origins⟩ := hp
  obtain ⟨hdrive, hacts⟩ := drive_moving hp'
  have hphase : r'.phase = .propagating ⟨next ++ work, origins⟩ := by
    rw [← Option.some.inj (hdrive.symm.trans hs), propagateFrom_phase]
    rw [show (r.wait ms).graph = r.graph from rfl, hok, ← hnext]
  obtain ⟨hwired, hbecomes, hsteady⟩ := hwait.passes (by rw [hp']; exact Phase.noConfusion) hsilent hs (by rw [hphase]; rfl)
  refine .here (h _ r' hphase ⟨hwired, hbecomes, hsteady.iteration, hsteady.fired⟩ ?_ fun id' => ?_)
  · rw [graph_step hwait.graph.toIdentified.isNamed hs, hacts, Graph.transferOutputs_graph]
    rfl
  · rw [hacts, Act.received_append, Graph.received_moving, List.append_nil]

/-- A value moves to a relay, which is reached by it. -/
theorem unfolds_hop (hw : r.Wired wires limit) (hmem : w ∈ wires) (hrelayed : r.graph.Relayed w w')
    (hsent : r.graph.sent? w = some v)
    (hp : r.phase = .propagating ⟨.propagate w.source depth :: work, origins⟩) :
    r.Unfolds (fun acts' r' => r'.phase = .propagating ⟨.activate w.target (depth + 1) :: work, origins⟩ ∧
      r.Passes wires limit r' ∧ r.graph.Shifts wires w v r'.graph ∧
        ∀ id, Act.received id acts' = Act.received id acts) acts := by
  obtain ⟨-, n, hn, hrelays⟩ := hrelayed
  obtain ⟨hok, hreached, hshifts⟩ := hw.graph.shift hmem hsent hn fun q hq => by
    rw [hrelays.takes q hq]
    exact Value.convert_null (Or.inr rfl)
  rw [if_pos hrelays.direct] at hreached
  have hgraph := hw.graph.replay (r.graph.moving w.source)
  have hbecomes := hw.graph.becomes_replay (r.graph.moving w.source)
  rw [← Graph.transferOutputs_graph] at hgraph hbecomes
  obtain ⟨n', hn', hbecome⟩ := hbecomes.members _ n hn
  have hready : (r.graph.transferOutputs w.source).graph.isReady w.target = true := by
    rw [hgraph.isReady_fed hn' (hbecome.isDisabled.trans hrelays.enabled) hmem rfl, hshifts.received w hmem, if_pos rfl]
    exact Or.inr rfl
  have hnext : ((r.graph.transferOutputs w.source).relays.filter (r.graph.transferOutputs w.source).graph.isReady).map
      (fun relay => Work.activate relay (depth + 1)) = [.activate w.target (depth + 1)] := by
    rw [hreached, List.filter_cons_of_pos hready, List.filter_nil, List.map_singleton]
  refine passes_move hw hp hok hnext fun acts' r' hphase hpasses hmoved hacts => ?_
  exact ⟨hphase, hpasses, hmoved ▸ hshifts, hacts⟩

/-- A value moves to a node that is not activated at once. -/
theorem unfolds_arrive (hw : r.Wired wires limit) (hmem : w ∈ wires) {n : Node} (hn : r.graph.node? w.target = some n)
    (hdirect : n.isDirectThrough = false) (hv : ∀ q, n.portAt? (.input w.input) = some q → v.convert q.dataType = .ok v)
    (hsent : r.graph.sent? w = some v)
    (hp : r.phase = .propagating ⟨.propagate w.source depth :: work, origins⟩) :
    r.Unfolds (fun acts' r' => r'.phase = .propagating ⟨work, origins⟩ ∧ r.Passes wires limit r' ∧
      r.graph.Shifts wires w v r'.graph ∧ ∀ id, Act.received id acts' = Act.received id acts) acts := by
  obtain ⟨hok, hreached, hshifts⟩ := hw.graph.shift hmem hsent hn hv
  rw [hdirect, if_neg Bool.false_ne_true] at hreached
  refine passes_move hw hp hok (by rw [hreached, List.filter_nil, List.map_nil])
    fun acts' r' hphase hpasses hmoved hacts => ?_
  exact ⟨hphase, hpasses, hmoved ▸ hshifts, hacts⟩

/-! ### Relays -/

/-- A relay whose activation has come to an output is turned, and its outputs are next. -/
theorem afterRelay_prompt {n : Node} {memory : Memory} {o : Output} {task : Task} {agenda : Agenda} {g₀ : Graph}
    (hg : r.graph.Identified) (hl : n.Legal) (haccepts : n.Accepts o)
    (hat : r.graph.node? task.node = some { n.prepare.2 with memory }) (hn : g₀.node? task.node = some n)
    (hothers : ∀ id, id ≠ task.node → r.graph.node? id = g₀.node? id) :
    (afterRelay task depth agenda (.finished (.ok o)) r).phase =
        .propagating { agenda with work := .propagate task.node depth :: agenda.work } ∧
      g₀.Turned (fun _ => (memory, o)) [task.node] (afterRelay task depth agenda (.finished (.ok o)) r).graph := by
  obtain ⟨hanswer, hturned⟩ := Node.turned haccepts hl memory r.graph.supply
  have hok : r.graph.completion task.node (.ok o) = .ok () := by simp only [Graph.completion, hat, hanswer]
  have hsettled := Graph.node?_settle hg.isNamed hat (.ok o)
  have hclears := Graph.node?_clears (hg.enact (.settle task.node (.ok o))) (List.nodup_singleton task.node)
  rw [afterRelay, complete_eq, hok]
  refine ⟨rfl, fun id hid m hm => ?_, fun id hid => ?_⟩
  · obtain rfl := List.mem_singleton.1 hid
    obtain rfl : n = m := Option.some.inj (hn.symm.trans hm)
    refine ⟨_, (hclears task.node).trans ?_, hturned⟩
    rw [if_pos hid, Graph.enact, hsettled, if_pos rfl, Option.map_some]
  · refine (hclears id).trans ?_
    rw [if_neg hid, Graph.enact, hsettled, if_neg (fun e => hid (List.mem_singleton.2 e.symm)),
      hothers id fun e => hid (List.mem_singleton.2 e)]

/-- The activation of a relay that ends at once turns its node, whose outputs are next. -/
theorem activateRelay_prompt {n : Node} {memory : Memory} {o : Output} (hg : r.graph.Regular)
    (hn : r.graph.node? n.id = some n) (hc : r.executor.cancelled = false) (h : n.Yields memory o) (depth : Nat)
    (agenda : Agenda) :
    (r.activateRelay n depth agenda).phase = .propagating { agenda with work := .propagate n.id depth :: agenda.work } ∧
      r.graph.Turned (fun _ => (memory, o)) [n.id] (r.activateRelay n depth agenda).graph := by
  set r₁ : Run := ((r.publish (.nodeStarted n.id n.typeId)).prepare n).2 with hr₁
  have hnodes : ∀ id, r₁.graph.node? id = if n.id = id then some n.prepare.2 else r.graph.node? id := fun id =>
    Graph.node?_setNode r.graph n.prepare.2 id
  obtain ⟨hstop, hgraph⟩ := perform_prompt ((hnodes n.id).trans (if_pos rfl)) rfl (h.prompt r.context r.iteration)
  set r₂ := (perform n.id (n.script r.context r.iteration) r₁).2 with hr₂
  have hid : r₂.graph.Identified := by
    have hpublished : (r.publish (.nodeStarted n.id n.typeId)).graph.node? n.id = some n := hn
    rw [hr₂, perform_graph, hr₁, prepare_graph hpublished r.iteration r.context]
    exact (hg.toIdentified.enact _).replay _
  have hnodes₂ : ∀ id, r₂.graph.node? id = if n.id = id then some { n.prepare.2 with memory } else r.graph.node? id :=
    fun id => by
      rw [hgraph, Graph.node?_setNode, hnodes]
      exact if_ctx_congr Iff.rfl (fun _ => rfl) fun hne => if_neg hne
  have hactivate : r.activateRelay n depth agenda =
      afterRelay ⟨n.id, 0, r.now, n.script r.context r.iteration⟩ depth agenda (.finished (.ok o)) r₂ := by
    rw [← hstop]
    exact activateRelay_of_not_cancelled hc n depth agenda
  rw [hactivate]
  exact afterRelay_prompt hid (hg.legal hn) h.accepts ((hnodes₂ n.id).trans (if_pos rfl)) hn fun id hne =>
    (hnodes₂ id).trans (if_neg hne.symm)

/-- When a relay is activated, nothing else is. -/
theorem received_reach {s : Signal} (hg : r.graph.Named)
    (hp : r.phase = .propagating ⟨.activate id depth :: work, origins⟩) (hs : r.step? s = some r') {other : NodeId}
    (hother : other ≠ id) : Act.received other (r.acts s) = [] := by
  have hm := step_moves hg hs
  generalize r.acts s = acts, r'.phase = p at hm
  cases hm with
  | wait | skip => rfl
  | @relay n depth' work' origins' acts p hp' hn _ _ hcarry =>
    rw [hp] at hp'
    cases hp'
    have hrest : Act.received other acts = [] := by
      cases hcarry with
      | asleep | broken => exact Act.received_memories ..
      | failed | settled =>
        rw [Act.received_append, Act.received_memories]
        rfl
    rw [← hrest]
    exact List.filterMap_cons_none (if_neg hother.symm)
  | giveUp h =>
    rcases h.acts_eq with ⟨ids, rfl⟩ | ⟨_, _, _, _, hprop, -⟩
    · exact Act.received_resets ..
    · rw [hp] at hprop
      cases hprop
  | turn hp' | report hp' | begin hp' | run hp' | settle hp' | pass hp' | move hp' | resume hp' | next hp' | finish hp' =>
    rw [hp] at hp'
    cases hp'

/-- What a relay is made of the graph by its activation: the value that had come waits to be moved on. -/
theorem hands_of_turned {g g' : Graph} (hg : g.WiredBy wires) (hmem : w ∈ wires) (hmem' : w' ∈ wires)
    (hjoin : w'.source = w.target) {n : Node} (hn : g.node? w.target = some n)
    (h : g.Turned (fun _ => (n.memory, .single w'.output v)) [w.target] g') : g.Hands wires w w' v g' := by
  refine ⟨fun w'' hw'' => ?_, fun w'' hw'' => ?_, fun id => ?_⟩
  · by_cases hsame : w'' = w'
    · rw [if_pos hsame, hsame]
      exact h.sent_written hg hmem' (List.mem_singleton.2 hjoin) (List.mem_singleton.2 rfl)
    · rw [if_neg hsame]
      refine h.sent_kept hg hw'' fun hid => absurd (hg.eq_of_source hmem' hw'' ?_) hsame
      rw [List.mem_singleton.1 hid, hjoin]
  · rw [h.received? hg hw'']
    refine if_congr ⟨fun hid => hg.eq_of_target hmem hw'' (List.mem_singleton.1 hid), fun hsame => ?_⟩ rfl rfl
    rw [hsame]
    exact List.mem_singleton_self _
  · by_cases hid : id = w.target
    · rw [h.memory? (by rw [hid, hn]; rfl), if_pos (List.mem_singleton.2 hid), hid, Graph.memory?, hn, Option.map_some]
    · rw [Graph.memory?, h.others id fun hmem => hid (List.mem_singleton.1 hmem), Graph.memory?]

/-- A relay within the limit is activated and passes on what has come. -/
theorem unfolds_relay (hw : r.Wired wires limit) (hmem : w ∈ wires) (hmem' : w' ∈ wires)
    (hrelayed : r.graph.Relayed w w') (hreceived : r.graph.received? w = some v) (hdepth : depth ≤ limit)
    (hp : r.phase = .propagating ⟨.activate w.target depth :: work, origins⟩) :
    r.Unfolds (fun acts' r' => r'.phase = .propagating ⟨.propagate w'.source depth :: work, origins⟩ ∧
      r.Passes wires limit r' ∧ r.graph.Hands wires w w' v r'.graph ∧
        ∀ id, id ≠ w.target → Act.received id acts' = Act.received id acts) acts := by
  obtain ⟨hjoin, n, hn, hrelays⟩ := hrelayed
  have hid := hw.graph.named hn
  have hready := (hw.graph.isReady_fed hn hrelays.enabled hmem rfl).2 (Or.inr (by rw [hreceived]; rfl))
  have hheld : n.held? (.input w.input) = some v := by
    rwa [Graph.received?, Graph.portIn?_of_node? hn] at hreceived
  have hyields := hrelays.yields n (.refl n) (hw.graph.ordered hn) v hheld
  refine .of_drive (by rw [hp]; rfl) (fun ms => by simp [step?, drive?, wait, hp]) fun ms r' hs hsilent => ?_
  have hwait := hw.wait ms
  have hp' : (r.wait ms).phase = .propagating ⟨.activate w.target depth :: work, origins⟩ := hp
  obtain rfl : (r.wait ms).activateRelay n depth ⟨work, origins⟩ = r' := by
    have hnode : (r.wait ms).graph.node? w.target = some n := hn
    have hready' : (r.wait ms).graph.isReady w.target = true := hready
    have hlimit : ¬ (r.wait ms).executor.config.maxRelayDepth < depth := by
      rw [hwait.limited]
      exact not_lt.2 hdepth
    simpa only [step?, drive?, hp', propagateNext, reachRelay, hnode, hready', Bool.not_true, Bool.false_eq_true, if_false,
      hlimit, Option.some.injEq] using hs
  obtain ⟨hphase, hturned⟩ := activateRelay_prompt (r := r.wait ms) hw.graph.toRegular (hid.symm ▸ hn)
    hwait.running.cancelled hyields depth ⟨work, origins⟩
  obtain ⟨hwired, hbecomes, hsteady⟩ := hwait.passes (by rw [hp']; exact Phase.noConfusion) hsilent hs (by rw [hphase]; rfl)
  rw [hid, ← hjoin] at hphase
  rw [hid] at hturned
  refine .here ⟨hphase, ⟨hwired, hbecomes, hsteady.iteration, hsteady.fired⟩,
    hands_of_turned hw.graph hmem hmem' hjoin hn hturned, fun id' hother => ?_⟩
  rw [Act.received_append, received_reach hwait.graph.toIdentified.isNamed hp' hs hother, List.append_nil]

/-- A relay beyond the limit fails the run. -/
theorem unfolds_exceed (hw : r.Wired wires limit) (hmem : w ∈ wires) (hrelayed : r.graph.Relayed w w')
    (hreceived : r.graph.received? w = some v) (hdepth : limit < depth)
    (hp : r.phase = .propagating ⟨.activate w.target depth :: work, origins⟩) :
    r.Unfolds (fun acts' r' => r'.IsOver (.failed (r.graph.depthFailure limit w.target)) r.iteration ∧
      ∀ id, id ≠ w.target → Act.received id acts' = Act.received id acts) acts := by
  obtain ⟨-, n, hn, hrelays⟩ := hrelayed
  have hready := (hw.graph.isReady_fed hn hrelays.enabled hmem rfl).2 (Or.inr (by rw [hreceived]; rfl))
  refine .of_drive (by rw [hp]; rfl) (fun ms => by simp [step?, drive?, wait, hp]) fun ms r' hs _ => ?_
  have hwait := hw.wait ms
  have hp' : (r.wait ms).phase = .propagating ⟨.activate w.target depth :: work, origins⟩ := hp
  have hexceeds : (r.wait ms).ExceedsDepth w.target depth :=
    ⟨⟨work, origins, hp'⟩, hready, by rw [hwait.limited]; exact hdepth⟩
  have hmessage : (r.wait ms).depthFailure w.target = r.graph.depthFailure limit w.target := by
    rw [depthFailure, failureLine, labelOf_eq, hwait.limited]
    rfl
  have hend : r'.phase = .ending (.failed (r.graph.depthFailure limit w.target)) ∧ r'.iteration = r.iteration := by
    rw [← Option.some.inj (hexceeds.drive.symm.trans hs), ← hmessage]
    exact ⟨rfl, rfl⟩
  refine (unfolds_ending hend.1).mono fun acts' r'' h => ?_
  obtain ⟨hover, hacts⟩ := h
  refine ⟨hend.2 ▸ hover, fun id hother => ?_⟩
  rw [hacts, Act.received_append, received_reach hwait.graph.toIdentified.isNamed hp' hs hother, List.append_nil]

end Run

/-! ### From the beginning to the end of a way -/

namespace Graph

/-- The end of a wire is a node that is not activated at once, where a value is stored as it is. -/
def Lands (g : Graph) (w : Wire) (v : Value) : Prop :=
  ∃ n, g.node? w.target = some n ∧ n.isDirectThrough = false ∧
    ∀ q, n.portAt? (.input w.input) = some q → v.convert q.dataType = .ok v

theorem Lands.becomes {g g' : Graph} {w : Wire} {v : Value} (h : g.Lands w v) (hg : g.Becomes g') (hw : (g.edge? w).isSome) :
    g'.Lands w v := by
  obtain ⟨n, hn, hdirect, hv⟩ := h
  obtain ⟨n', hn', hbecomes⟩ := hg.members _ n hn
  obtain ⟨e, hends⟩ := Option.isSome_iff_exists.1 hw
  obtain ⟨-, q₀, -, hq₀, -⟩ := edge?_eq_some.1 hends
  rw [portIn?_of_node? hn] at hq₀
  obtain ⟨q', hq', -, htype⟩ := hbecomes.portAt? hq₀
  refine ⟨n', hn', by rwa [Node.isDirectThrough, hbecomes.behavior], fun q hq => ?_⟩
  cases hq.symm.trans hq'
  exact htype ▸ hv q₀ hq₀

theorem Becomes.depthFailure {g g' : Graph} (h : g.Becomes g') {id : NodeId} {n : Node} (hn : g.node? id = some n)
    (limit : Nat) : g'.depthFailure limit id = g.depthFailure limit id := by
  obtain ⟨n', hn', hbecomes⟩ := h.members id n hn
  simp only [Graph.depthFailure, Graph.failureLine, labelOf, hn, hn', hbecomes.label]

/-- A value has gone from the beginning of a wire to the end of the last of the wires that follow, and nothing else has
changed. -/
structure Conveys (wires : List Wire) (w : Wire) (ws : List Wire) (v : Value) (g g' : Graph) : Prop where
  sent : ∀ w' ∈ wires, g'.sent? w' = if w' ∈ w :: ws then none else g.sent? w'
  received : ∀ w' ∈ wires, g'.received? w' =
    if w' = ws.getLastD w then some v else if w' ∈ w :: ws then none else g.received? w'
  memory : ∀ id, g'.memory? id = g.memory? id

theorem Shifts.conveys {g g' : Graph} {wires : List Wire} {w : Wire} {v : Value} (h : g.Shifts wires w v g') :
    g.Conveys wires w [] v g' := by
  refine ⟨fun w' hw' => ?_, fun w' hw' => ?_, h.memory?⟩
  · simp only [h.sent w' hw', List.mem_singleton]
  · rw [h.received w' hw', List.getLastD_nil]
    exact if_ctx_congr Iff.rfl (fun _ => rfl) fun hne => (if_neg (by simpa using hne)).symm

/-- One wire more at the beginning of the way. -/
theorem Conveys.cons {g g₁ g₂ g' : Graph} {wires ws : List Wire} {w w' : Wire} {v : Value}
    (hshifts : g.Shifts wires w v g₁) (hhands : g₁.Hands wires w w' v g₂) (h : g₂.Conveys wires w' ws v g') :
    g.Conveys wires w (w' :: ws) v g' := by
  refine ⟨fun x hx => ?_, fun x hx => ?_, fun id => ?_⟩
  · rw [h.sent x hx, hhands.sent x hx, hshifts.sent x hx]
    simp only [List.mem_cons]
    split_ifs <;> simp_all
  · rw [h.received x hx, hhands.received x hx, hshifts.received x hx, List.getLastD_cons]
    simp only [List.mem_cons]
    split_ifs <;> simp_all
  · rw [h.memory, hhands.memory, hshifts.memory?]

end Graph

namespace Run

variable {r r' : Run} {wires ws : List Wire} {limit depth : Nat} {acts : List Act} {w : Wire} {v : Value}
  {work : List Work} {origins : List NodeId} {id : NodeId}

/-- **A value goes all the way through the relays that follow**, if they are not too many. -/
theorem unfolds_lane (hw : r.Wired wires limit) (hmem : w :: ws ⊆ wires) (hchain : (w :: ws).IsChain r.graph.Relayed)
    (hlands : r.graph.Lands (ws.getLastD w) v) (hsent : r.graph.sent? w = some v) (hdepth : depth + ws.length ≤ limit)
    (hp : r.phase = .propagating ⟨.propagate w.source depth :: work, origins⟩) :
    r.Unfolds (fun acts' r' => r'.phase = .propagating ⟨work, origins⟩ ∧ r.Passes wires limit r' ∧
      r.graph.Conveys wires w ws v r'.graph ∧
        ∀ id, id ∉ ws.map Wire.source → Act.received id acts' = Act.received id acts) acts := by
  -- by induction on the wires that follow, each of which takes the activation of one relay
  induction ws generalizing r acts w depth with
  | nil =>
    obtain ⟨n, hn, hdirect, hv⟩ := hlands
    refine (unfolds_arrive hw (hmem List.mem_cons_self) hn hdirect hv hsent hp).mono fun acts' r' h => ?_
    obtain ⟨hphase, hpasses, hshifts, hacts⟩ := h
    exact ⟨hphase, hpasses, hshifts.conveys, fun id _ => hacts id⟩
  | cons w' ws ih =>
    obtain ⟨hmem₁, hmem⟩ := List.cons_subset.1 hmem
    obtain ⟨hrelayed, hchain⟩ := List.isChain_cons_cons.1 hchain
    have hmem₂ := hmem List.mem_cons_self
    rw [List.length_cons] at hdepth
    refine (unfolds_hop hw hmem₁ hrelayed hsent hp).bind fun acts₁ r₁ ⟨hphase₁, hpasses₁, hshifts, hacts₁⟩ => ?_
    refine (unfolds_relay hpasses₁.wired hmem₁ hmem₂ (hrelayed.becomes hpasses₁.becomes)
      ((hshifts.received w hmem₁).trans (if_pos rfl)) (by omega) hphase₁).bind fun acts₂ r₂ h => ?_
    obtain ⟨hphase₂, hpasses₂, hhands, hacts₂⟩ := h
    have hpasses := hpasses₁.trans hpasses₂
    have hlaid : (r.graph.edge? (ws.getLastD w')).isSome := by
      obtain ⟨e, -, hends⟩ := hw.graph.laid _ (hmem (List.getLastD_mem_cons ..))
      rw [hends]
      rfl
    refine (ih hpasses.wired hmem (hchain.imp fun _ _ h => h.becomes hpasses.becomes)
      (Graph.Lands.becomes (by rwa [List.getLastD_cons] at hlands) hpasses.becomes hlaid)
      ((hhands.sent w' hmem₂).trans (if_pos rfl)) (by omega) hphase₂).mono fun acts₃ r₃ h => ?_
    obtain ⟨hphase₃, hpasses₃, hconveys, hacts₃⟩ := h
    refine ⟨hphase₃, hpasses.trans hpasses₃, .cons hshifts hhands hconveys, fun id hid => ?_⟩
    rw [List.map_cons, List.mem_cons, not_or, hrelayed.1] at hid
    rw [hacts₃ id hid.2, hacts₂ id hid.1, hacts₁]

/-- **If there are too many relays, the run fails at the first one that is too deep.** -/
theorem unfolds_lane_exceed {w' : Wire} (hw : r.Wired wires limit) (hmem : w :: ws ⊆ wires)
    (hchain : (w :: ws).IsChain r.graph.Relayed) (hsent : r.graph.sent? w = some v) (hdepth : depth ≤ limit)
    (hexceeds : ws[limit - depth]? = some w')
    (hp : r.phase = .propagating ⟨.propagate w.source depth :: work, origins⟩) :
    r.Unfolds (fun acts' r' => r'.IsOver (.failed (r.graph.depthFailure limit w'.source)) r.iteration ∧
      ∀ id, id ∉ ws.map Wire.source → Act.received id acts' = Act.received id acts) acts := by
  induction ws generalizing r acts w depth with
  | nil => cases hexceeds
  | cons w₁ ws ih =>
    obtain ⟨hmem₁, hmem⟩ := List.cons_subset.1 hmem
    obtain ⟨hrelayed, hchain⟩ := List.isChain_cons_cons.1 hchain
    have hmem₂ := hmem List.mem_cons_self
    refine (unfolds_hop hw hmem₁ hrelayed hsent hp).bind fun acts₁ r₁ ⟨hphase₁, hpasses₁, hshifts, hacts₁⟩ => ?_
    have hreceived := (hshifts.received w hmem₁).trans (if_pos rfl)
    have hrelayed₁ := hrelayed.becomes hpasses₁.becomes
    rcases Nat.eq_or_lt_of_le hdepth with rfl | hless
    · -- the relay at the end of the first wire is too deep
      rw [Nat.sub_self, List.getElem?_cons_zero] at hexceeds
      obtain rfl := Option.some.inj hexceeds
      obtain ⟨n, hn⟩ := hw.graph.exists_target hmem₁
      refine (unfolds_exceed hpasses₁.wired hmem₁ hrelayed₁ hreceived (Nat.lt_succ_self _) hphase₁).mono
        fun acts₂ r₂ ⟨hover, hacts₂⟩ => ⟨?_, fun id hid => ?_⟩
      · rwa [hpasses₁.becomes.depthFailure hn, ← hrelayed.1, hpasses₁.steady.iteration] at hover
      · rw [List.map_cons, List.mem_cons, not_or, hrelayed.1] at hid
        rw [hacts₂ id hid.1, hacts₁]
    · rw [show limit - depth = limit - (depth + 1) + 1 by omega, List.getElem?_cons_succ] at hexceeds
      refine (unfolds_relay hpasses₁.wired hmem₁ hmem₂ hrelayed₁ hreceived hless hphase₁).bind fun acts₂ r₂ h => ?_
      obtain ⟨hphase₂, hpasses₂, hhands, hacts₂⟩ := h
      have hpasses := hpasses₁.trans hpasses₂
      obtain ⟨n, hn⟩ := hw.graph.exists_source (hmem (List.mem_cons_of_mem _ (List.mem_of_getElem? hexceeds)))
      refine (ih hpasses.wired hmem (hchain.imp fun _ _ h => h.becomes hpasses.becomes)
        ((hhands.sent w₁ hmem₂).trans (if_pos rfl)) hless hexceeds hphase₂).mono
        fun acts₃ r₃ ⟨hover, hacts₃⟩ => ⟨?_, fun id hid => ?_⟩
      · rwa [hpasses.becomes.depthFailure hn, hpasses.steady.iteration] at hover
      · rw [List.map_cons, List.mem_cons, not_or, hrelayed.1] at hid
        rw [hacts₃ id hid.2, hacts₂ id hid.1, hacts₁]

end Run

end Dataflow
