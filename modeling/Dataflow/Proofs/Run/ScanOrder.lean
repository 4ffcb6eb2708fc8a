import Dataflow.Proofs.Run.Courses
import Dataflow.Proofs.Run.Headway

/-!
# The order in which nodes are scanned

Nodes are scanned in the order in which they were inserted. The order does not matter where no two edges end at one port,
every edge ends at a top-level port, and no node is direct-through: then each output has a place of its own to arrive at.

* `Graph.Reorders` says of graphs that they differ only in the order of their nodes, and `Graph.Plain` is what is asked of their
  edges and nodes;
* `Graph.Reordered` says that moreover new element ports may have other identifiers;
* `Run.InStep` is what two runs have in common at any two moments, and `Run.Beside` says that both stand at the same point;
* `Run.KeepsUp` says that runs are always in step, and that one of them comes to any point at which the other one stands;
* `Run.scan_order_immaterial`: runs of such graphs keep up with each other.
-/

namespace Dataflow

namespace Graph

/-! ### Graphs that differ in the order of their nodes -/

/-- Graphs that differ only in the order of their nodes. -/
structure Reorders (g g' : Graph) : Prop where
  order : g'.order.Perm g.order
  nodes : ∀ id, g'.node? id = g.node? id
  edges : g'.edges = g.edges
  edgeSet : g'.edgeSet = g.edgeSet
  flagged : g'.flagged = g.flagged
  outEdges : g'.outEdges = g.outEdges
  inEdges : g'.inEdges = g.inEdges
  supply : g'.supply = g.supply

/-- A graph without direct-through nodes and without fan-in, whose edges end at top-level ports. -/
structure Plain (g : Graph) : Prop where
  unrelayed : ∀ {id : NodeId} {n : Node}, g.node? id = some n → n.isDirectThrough = false
  single : ∀ {e e' : Edge}, e ∈ g.edges → e' ∈ g.edges → e.target = e'.target → e = e'
  top : ∀ {e : Edge}, e ∈ g.edges → ∃ id n, g.node? id = some n ∧ ∃ p ∈ n.ports, p.id = e.target

/-- Graphs that are the same but for the order of their nodes and the identifiers of new element ports. -/
def Reordered (s : Supply) (g g' : Graph) : Prop :=
  g'.order.Perm g.order ∧ ∃ σ, g.Renames s σ (g'.reorder g.order)

variable {s s' : Supply} {g g' : Graph}

theorem Renames.mono {σ : Equiv.Perm PortId} (h : g.Renames s' σ g') (hle : s.next ≤ s'.next) : g.Renames s σ g' :=
  { h with fixes := fun p hp => h.fixes p (hp.mono hle) }

theorem Shuffled.reordered (h : g.Shuffled s' g') (hle : s.next ≤ s'.next) : g.Reordered s g' := by
  obtain ⟨σ, hσ⟩ := h.resembles.renames
  exact ⟨h.perm, σ, hσ.mono hle⟩

/-- Identifiers drawn for something else do no harm. -/
theorem Consistent.draw (hg : g.Consistent) : ({ g with supply := g.supply.draw.2 } : Graph).Consistent :=
  { hg.toIdentified.draw (Nat.le_succ _) with
    agrees := { hg.agrees with }
    proper := hg.proper
    filled := hg.filled }

theorem Plain.isRelay (hp : g.Plain) (id : NodeId) : g.isRelay id = false := by
  unfold Graph.isRelay
  cases hn : g.node? id with
  | none => rfl
  | some n => exact hp.unrelayed hn

/-- In such a graph, every edge has a place of its own to end at. -/
theorem Consistent.threaded (hg : g.Consistent) (hd : g.Directed) (hp : g.Plain) : g.Threaded g.supply where
  toGrown := hg.grown
  single hq hq' := congrArg Edge.source (hp.single (hg.agrees.mem_outgoing.1 hq) (hg.agrees.mem_outgoing.1 hq') rfl)
  simple p := by
    rw [hg.agrees.outgoing]
    refine (hg.agrees.edges.filter _).map_on fun e he e' he' htarget => ?_
    exact hp.single (List.mem_filter.1 he).1 (List.mem_filter.1 he').1 htarget
  aimed {p q} hq := by
    obtain ⟨id, n, hn, top, htop, hid⟩ := hp.top (hg.agrees.mem_outgoing.1 hq)
    rw [Node.ports_eq] at htop
    obtain ⟨⟨slot, top'⟩, hentry, rfl⟩ := List.mem_map.1 htop
    have hat := (Node.mem_entries (hg.ordered hn)).1 hentry
    refine ⟨id, slot, top', ?_, (portIn?_of_node? hn).trans hat, hid⟩
    cases hs : slot.isOutput with
    | false => rfl
    | true =>
      obtain rfl : top'.id = q := hid
      exact absurd ((Node.mem_outputIds (hg.ordered hn)).2 ⟨slot, top', hs, hat, Port.id_mem_ids top'⟩)
        (hd p top'.id id n hq hn)

section Reorder

variable {order : List NodeId}

theorem reorders_reorder (hperm : order.Perm g.order) : g.Reorders (g.reorder order) :=
  ⟨hperm, fun _ => rfl, rfl, rfl, rfl, rfl, rfl, rfl⟩

theorem Hosts.reorder {P : Behavior → Prop} (hg : g.Hosts P) (hperm : order.Perm g.order) : (g.reorder order).Hosts P :=
  ⟨hperm.nodup_iff.2 hg.order, hg.proper, hg.named, hg.behaves⟩

/-- A consistent graph is consistent with its nodes in any order. -/
theorem Consistent.reorder (hg : g.Consistent) (hperm : order.Perm g.order) : (g.reorder order).Consistent where
  toIdentified := (hg.grown.reorder hperm).identified
  agrees := { hg.agrees with
    order := hperm.nodup_iff.2 hg.agrees.order
    listed := fun id => hperm.mem_iff.trans (hg.agrees.listed id) }
  proper := hg.proper
  filled := hg.filled

end Reorder

theorem Reorders.draw (h : g.Reorders g') :
    Reorders { g with supply := g.supply.draw.2 } { g' with supply := g'.supply.draw.2 } :=
  { h with supply := congrArg (fun s : Supply => s.draw.2) h.supply }

theorem Reorders.plain (h : g.Reorders g') (hp : g.Plain) : g'.Plain where
  unrelayed {id n} hn := hp.unrelayed (h.nodes id ▸ hn)
  single he he' := hp.single (h.edges ▸ he) (h.edges ▸ he')
  top he := by
    obtain ⟨id, n, hn, top⟩ := hp.top (h.edges ▸ he)
    exact ⟨id, n, (h.nodes id).trans hn, top⟩

theorem Reorders.directed (h : g.Reorders g') (hd : g.Directed) : g'.Directed := by
  intro p q id n hq hn
  rw [outgoing, h.outEdges, ← outgoing] at hq
  exact hd p q id n hq (h.nodes id ▸ hn)

/-- Graphs that differ in the order of their nodes look alike but for this order. -/
theorem Reorders.shuffled (h : g.Reorders g') (hg : g.Threaded s) (hg' : g'.Threaded s) : g.Shuffled s g' :=
  ⟨hg, hg', h.order, h.edges, h.edgeSet, h.flagged, h.outEdges, h.inEdges, fun id => by rw [view, h.nodes, view]⟩

end Graph

/-- The points at which runs are compared. -/
inductive Station where
  /-- Between iterations. -/
  | between
  /-- While activations are under way. -/
  | iterating
  /-- At the end. -/
  | ended

/-- The point at which a run stands. -/
def Phase.station? : Phase → Option Station
  | .boundary | .parked | .delaying _ => some .between
  | .activating _ => some .iterating
  | .over _ => some .ended
  | .propagating _ | .relaying .. | .ending _ | .broken _ => none

theorem Phase.station?_between {p : Phase} : p.station? = some .between ↔ p.isIdle = true := by
  cases p <;> simp [station?, isIdle]

theorem Phase.station?_iterating {p : Phase} : p.station? = some .iterating ↔ p.isActivating = true := by
  cases p <;> simp [station?, isActivating]

theorem Phase.station?_ended {p : Phase} : p.station? = some .ended ↔ p.isFinal = true := by
  cases p <;> simp [station?, isFinal]

theorem Phase.stage_of_isIdle {p : Phase} (hp : p.isIdle = true) : p.stage = .idle := by
  cases p with
  | boundary | parked | delaying => rfl
  | _ => cases hp

theorem Batch.nodup_pending {batch : Batch} (hp : Table.Proper batch.results) : batch.pending.Nodup := by
  rw [Table.Proper, Batch.keys_results, Batch.pledges, List.map_map, List.map_append, List.map_map] at hp
  exact List.perm_append_comm.nodup_iff.1 hp

namespace Run

/-! ### Runs in step -/

/-- What two runs have in common, wherever they have got to. -/
structure InStep (s : Supply) (r r' : Run) : Prop where
  /-- In the same iteration, the same nodes are activated. -/
  iterating {batch batch' : Batch} (hp : r.phase = .activating batch) (hp' : r'.phase = .activating batch')
    (hiteration : r'.iteration = r.iteration) : batch.ready.Perm batch'.ready
  /-- Between the same iterations, the graphs are the same but for the order of the nodes and new identifiers. -/
  between (hp : r.phase.isIdle = true) (hp' : r'.phase.isIdle = true) (hiteration : r'.iteration = r.iteration) :
    r.graph.Reordered s r'.graph
  /-- They come to the same kind of end after the same number of iterations. -/
  ended {result result' : ExecutionResult} (hp : r.phase = .over result) (hp' : r'.phase = .over result') :
    result'.iterations = result.iterations ∧
      (result.outcome = .completed ∧ result'.outcome = .completed ∧ r.graph.Reordered s r'.graph ∨
        ∃ error error', result.outcome = .failed error ∧ result'.outcome = .failed error')
  /-- The second one does not get further than the first one at its end, nor through an iteration in which that one fails. -/
  last {result : ExecutionResult} (hp : r.phase = .over result) : r'.iteration ≤ result.iterations ∧
    (r'.iteration = result.iterations → r'.phase.isIdle = true → result.outcome = .completed)

/-- A run stands where another one stands, in the same iteration. -/
structure Beside (r r' : Run) : Prop where
  iteration : r'.iteration = r.iteration
  station : r'.phase.station? = r.phase.station?

/-- A run keeps up with another one, as long as neither is cancelled: they are in step at any two moments, and at full speed and
without calls it comes to wherever the other one stands. -/
structure KeepsUp (s : Supply) (r₀ r₀' : Run) : Prop where
  inStep : ∀ signals signals' r r', r₀.follow signals = some r → r₀'.follow signals' = some r' →
    r.executor.cancelled = false → r'.executor.cancelled = false → InStep s r r'
  comes : r₀'.executor.state = .running → ∀ signals r, r₀.follow signals = some r → r.executor.cancelled = false →
    r.phase.station? ≠ none → r₀'.Comes fun r' => r.Beside r' ∧ InStep s r r'

/-! ### The start -/

section Start

variable {x x' : Executor} {g g' : Graph} {context : Context} {mode mode' : StartMode} {now now' : Nat} {r₀ r₀' : Run}

/-- A run of a plain graph starts between iterations, without relays. -/
theorem resting_start (hg : g.Consistent) (hb : g.Hosts Behavior.Determined) (hd : g.Directed) (hplain : g.Plain)
    (h : start x g context mode now = .ok r₀) : r₀.essence.Resting g.supply.draw.2 := by
  have hthreaded := hg.draw.threaded hd { hplain with }
  have hosts : Graph.Hosts (fun _ => True) ({ g with supply := g.supply.draw.2 } : Graph) :=
    (hb.imp fun _ _ => trivial).of_eq rfl rfl
  rw [start_essence h]
  refine ⟨⟨hosts.replay _, hthreaded.replay _⟩, rfl, fun id => ?_⟩
  rw [Graph.isRelay_replay hthreaded.identified.isNamed]
  exact hplain.isRelay id

/-- Runs of plain graphs that differ in the order of their nodes start alike. -/
theorem alike_start (hg : g.Consistent) (hg' : g'.Consistent) (hb : g.Hosts Behavior.Determined)
    (hb' : g'.Hosts Behavior.Determined) (hd : g.Directed) (hplain : g.Plain) (hreorder : g.Reorders g')
    (h : start x g context mode now = .ok r₀) (h' : start x' g' context mode' now' = .ok r₀') :
    r₀.essence.Alike g.supply.draw.2 r₀'.essence := by
  have hrest := resting_start hg hb hd hplain h
  have hrest' := resting_start hg' hb' (hreorder.directed hd) (hreorder.plain hplain) h'
  have hthreaded := hg.draw.threaded hd { hplain with }
  have hthreaded' := hg'.draw.threaded (hreorder.directed hd) { hreorder.plain hplain with }
  rw [show g'.supply = g.supply from hreorder.supply] at hthreaded'
  have hshuffled := hreorder.draw.shuffled hthreaded (by rwa [hreorder.supply])
  have hessence := start_essence h
  have hessence' := start_essence h'
  refine ⟨by rw [hessence, hessence'], by rw [hessence, hessence'], fun id => by rw [hessence, hessence'], hrest.hosts,
    hrest'.hosts, ?_⟩
  rw [hessence, hessence']
  refine hshuffled.replay fun id => ?_
  rw [Graph.view_resets hshuffled.left.identified hg.nodup, Graph.view_resets hshuffled.right.identified hg'.nodup,
    hshuffled.view]
  simp only [hreorder.order.mem_iff]

end Start

/-! ### Any two moments -/

/-- Runs without relays that start alike. -/
structure Paired (s : Supply) (r₀ r₀' : Run) : Prop where
  upright : ∃ d, r₀.Upright false d
  upright' : ∃ d, r₀'.Upright false d
  resting : r₀.essence.Resting s
  resting' : r₀'.essence.Resting s
  alike : r₀.essence.Alike s r₀'.essence

section Moments

variable {s t : Supply} {silent silent' : Bool} {r₀ r₀' r r' : Run} {signals signals' : List Signal}

theorem Paired.symm (h : Paired s r₀ r₀') : Paired s r₀' r₀ :=
  ⟨h.upright', h.upright, h.resting', h.resting, h.alike.symm⟩

/-- **Runs that start alike stay even**, wherever they have got to. -/
theorem Paired.even (h : Paired s r₀ r₀') (hf : r₀.follow signals = some r) (hc : r.executor.cancelled = false)
    (hf' : r₀'.follow signals' = some r') (hc' : r'.executor.cancelled = false) : r.essence.Even s r'.essence := by
  obtain ⟨d, hu⟩ := h.upright
  obtain ⟨d', hu'⟩ := h.upright'
  obtain ⟨f, hpasses, hresting, hamid⟩ := hu.course h.resting hf hc
  obtain ⟨f', hpasses', hresting', hamid'⟩ := hu'.course h.resting' hf' hc'
  exact h.alike.even hpasses hpasses' hresting.idle hresting'.idle hamid hamid'

/-- The graph of a run between iterations is that of its essence. -/
theorem graph_of_isIdle (hp : r.phase.isIdle = true) : r.essence.graph = r.graph := by
  rw [essence_idle rfl (Phase.stage_of_isIdle hp)]

theorem graph_of_over {result : ExecutionResult} (hp : r.phase = .over result) : r.essence.graph = r.graph := by
  rw [essence_eq_of_nil hp rfl]

theorem stage_of_over {result : ExecutionResult} (hp : r.phase = .over result) : r.essence.stage = .ended result.outcome := by
  rw [essence_eq hp]
  rfl

/-- Runs that are even are in step. -/
theorem inStep_of_even (heven : r.essence.Even s r'.essence) (ht : r.Tidy silent) (ht' : r'.Tidy silent')
    (hle : t.next ≤ s.next) : InStep t r r' where
  iterating hp hp' hiteration := heven.settling (by rw [essence_eq hp]; rfl) (by rw [essence_eq hp']; rfl) hiteration
  between hp hp' hiteration := by
    have hshuffled := (heven.idle (Phase.stage_of_isIdle hp) (Phase.stage_of_isIdle hp') hiteration).graph
    rw [graph_of_isIdle hp, graph_of_isIdle hp'] at hshuffled
    exact hshuffled.reordered hle
  ended {result result'} hp hp' := by
    obtain ⟨hiteration, hends⟩ := heven.ended (stage_of_over hp) (stage_of_over hp')
    rw [ht.reported result hp, ht'.reported result' hp']
    refine ⟨hiteration, hends.imp_left fun ⟨ho, ho', hgraph⟩ => ⟨ho, ho', ?_⟩⟩
    rw [graph_of_over hp, graph_of_over hp'] at hgraph
    exact hgraph.reordered hle
  last {result} hp := by
    obtain ⟨hle', hlast⟩ := heven.last (stage_of_over hp)
    rw [ht.reported result hp]
    exact ⟨hle', fun hiteration hp' => hlast hiteration (Phase.stage_of_isIdle hp')⟩

theorem Paired.inStep (h : Paired s r₀ r₀') (hle : t.next ≤ s.next) (hf : r₀.follow signals = some r)
    (hc : r.executor.cancelled = false) (hf' : r₀'.follow signals' = some r') (hc' : r'.executor.cancelled = false) :
    InStep t r r' := by
  obtain ⟨d, hu⟩ := h.upright
  obtain ⟨d', hu'⟩ := h.upright'
  exact inStep_of_even (h.even hf hc hf' hc') (hu.before hf hc).1.tidy (hu'.before hf' hc').1.tidy hle

/-- Without relays, a run that does not wait to be resumed goes on smoothly. -/
theorem smooth_of_amid {e : Essence} (hamid : e.Amid r.essence) (hidle : e.stage = .idle) (hparked : r.phase ≠ .parked) :
    r.phase.Smooth := by
  have hcases := hamid.stage_cases hidle
  unfold essence at hcases
  cases hp : r.phase with
  | parked => exact hparked hp
  | propagating agenda =>
    rw [hp] at hcases
    simpa [Phase.stage, Stage.settled?, Phase.Smooth] using hcases
  | relaying | broken =>
    rw [hp] at hcases
    simp [Phase.stage, Stage.settled?] at hcases
  | _ => trivial

theorem stage_of_isActivating {outcome : Outcome} (hp : r.phase.isActivating = true) : r.phase.stage ≠ .ended outcome := by
  obtain ⟨batch, hbatch⟩ := Phase.isActivating_iff.1 hp
  rw [hbatch]
  exact Stage.noConfusion

/-- A run completes after it has been between iterations. -/
theorem idle_of_completed {signal : Signal} (hg : r.graph.Named) (hs : r.step? signal = some r')
    (hp' : r'.phase.stage = .ended .completed) : r.phase.isIdle = true ∨ r.phase.stage = .ended .completed := by
  have hmoves := step_moves hg hs
  generalize r'.phase = p at hmoves hp'
  generalize r.acts signal = acts at hmoves
  cases hmoves with
  | wait => exact Or.inr hp'
  | turn hp => exact Or.inl hp
  | report hp hresult =>
    rw [hp]
    rw [Phase.stage, hresult] at hp'
    exact Or.inr hp'
  | relay _ _ _ _ hcarry => cases hcarry <;> cases hp'
  | resume _ hcarry => cases hcarry <;> cases hp'
  | finish _ hidle =>
    rw [Phase.stage_of_isIdle hidle] at hp'
    cases hp'
  | giveUp hgives => cases hgives <;> cases hp'
  | _ => cases hp'

/-- A step begins another iteration, or stays in the one that is under way. -/
theorem iteration_step {signal : Signal} (hs : r.step? signal = some r') :
    r'.iteration = r.iteration ∨
      r.phase = .boundary ∧ r'.iteration = r.iteration + 1 ∧ r'.phase.isActivating = true := by
  by_cases hp : r.phase = .boundary
  · rcases boundary_step hp hs with ⟨hsteady, -⟩ | ⟨hsame, -⟩ | ⟨batch, hp', -, -, hnext, -⟩
    · exact Or.inl hsteady.iteration
    · exact Or.inl hsame
    · exact Or.inr ⟨hp, hnext, by rw [hp']; rfl⟩
  · exact Or.inl (steady_step hp hs).iteration

end Moments

/-! ### Coming to where another run stands -/

section Coming

variable {s t : Supply} {bound : Nat} {r₀ r₀' r : Run} {signals : List Signal}

/-- A run without calls and without relays gets to a state of some kind, if an invariant bounds the number of its iterations and
is kept up to such a state, and allows no other end. -/
theorem comes_of_bound {silent : Bool} {d : Nat} {P J : Run → Prop} (hu : r₀.Upright silent d) (hrest : r₀.essence.Resting s) (hrunning : r₀.IsRunning)
    (hp : r₀.phase = .boundary) (hstart : J r₀) (hbound : ∀ r, Unsteered r₀ r → J r → r.iteration ≤ bound)
    (hfinal : ∀ r, Unsteered r₀ r → J r → r.phase.isFinal = true → P r)
    (hkeep : ∀ r ms signal r', Unsteered r₀ r → Unsteered r₀ r' → J r → ¬ P r → (r.wait ms).step? signal = some r' →
      P r' ∨ J r') : r₀.Comes fun r => Unsteered r₀ r ∧ P r := by
  have hupright : ∀ r, Unsteered r₀ r → r.Upright silent d := fun r h => by
    obtain ⟨signals, hf⟩ := h.follow
    exact (hu.before hf h.uncancelled).1
  have hsmooth : ∀ r, Unsteered r₀ r → r.phase.Smooth := fun r h => by
    obtain ⟨signals, hf⟩ := h.follow
    obtain ⟨e, -, hresting, hamid⟩ := hu.course hrest hf h.uncancelled
    exact smooth_of_amid hamid hresting.idle h.unparked
  refine comes_of_invariant (I := fun r => Unsteered r₀ r ∧ J r) bound (fun r ⟨h, hJ⟩ => ?_)
    (fun r ms signal r' ⟨h, hJ⟩ hP hgo hsilent hs => ?_) ⟨.begin hp hrunning, hstart⟩
  · cases hnotFinal : r.phase.isFinal with
    | true => exact Or.inl ⟨h, hfinal r h hJ hnotFinal⟩
    | false =>
      refine Or.inr ((h.running hnotFinal).can_go_on hnotFinal h.unparked fun message hbroken => ?_)
      have hphase := hsmooth r h
      rwa [hbroken] at hphase
  · have h' := h.step hgo hsilent hs
    have hP' : ¬ P r := fun hP' => hP ⟨h, hP'⟩
    refine (hkeep r ms signal r' h h' hJ hP' hs).imp (fun hgoal => ⟨h', hgoal⟩) fun hJ' => ⟨⟨h', hJ'⟩, ?_⟩
    have hnotFinal : r.phase.isFinal = false := by
      cases hfin : r.phase.isFinal with
      | false => rfl
      | true => exact absurd (hfinal r h hJ hfin) hP'
    have hrun := h.running hnotFinal
    exact approaches_step (r := r.wait ms) (hupright r h).tidy.hosts.isNamed ⟨hrun.state, hrun.cancelled, hrun.stepping⟩
      (fun batch hbatch => Batch.nodup_pending ((hupright r h).tidy.apart batch hbatch)) (hsmooth r h) (hsmooth r' h') hgo hs
      h'.uncancelled (hbound r' h' hJ')

section Beside

variable (h : Paired s r₀ r₀') (hf : r₀.follow signals = some r) (hc : r.executor.cancelled = false) (hrunning : r₀'.IsRunning)
  (hp : r₀'.phase = .boundary) (hzero : r₀'.iteration = 0)

include h hf hc hrunning hp hzero

/-- Where another run stands between iterations. -/
theorem comes_between (hidle : r.phase.isIdle = true) : r₀'.Comes fun r' => Unsteered r₀' r' ∧ r.Beside r' := by
  obtain ⟨d', hu'⟩ := h.upright'
  -- Up to where the other one stands, the run does not end.
  refine comes_of_bound (J := fun r' => r'.iteration ≤ r.iteration ∧ ∀ outcome, r'.phase.stage ≠ .ended outcome) hu' h.resting'
    hrunning hp ⟨hzero ▸ Nat.zero_le _, fun _ => by rw [hp]; exact Stage.noConfusion⟩ (fun _ _ hJ => hJ.1)
    (fun r' _ hJ hfinal => ?_) fun r' ms signal r'' h' h'' hJ hP hs => Or.inr ?_
  · obtain ⟨result, hover⟩ := Phase.eq_over_of_isFinal hfinal
    exact absurd (stage_of_over hover) (hJ.2 result.outcome)
  · obtain ⟨signals', hf'⟩ := h'.follow
    obtain ⟨signals'', hf''⟩ := h''.follow
    have hbefore : r'.phase.isIdle = true → r'.iteration ≠ r.iteration := fun hidle' hiteration =>
      hP ⟨hiteration, (Phase.station?_between.2 hidle').trans (Phase.station?_between.2 hidle).symm⟩
    rcases iteration_step hs with hsame | ⟨hboundary, hnext, hactivating⟩
    · refine ⟨hsame.trans_le hJ.1, fun outcome hended => ?_⟩
      have hlast := (h.symm.even hf'' h''.uncancelled hf hc).last hended
      have hiteration : r.iteration = r''.iteration := le_antisymm hlast.1 (hsame.trans_le hJ.1)
      obtain rfl := hlast.2 hiteration (Phase.stage_of_isIdle hidle)
      rcases idle_of_completed (r := r'.wait ms) (hu'.before hf' h'.uncancelled).1.tidy.hosts.isNamed hs hended with
        hidle' | hended'
      · exact hbefore hidle' (hsame.symm.trans hiteration.symm)
      · exact hJ.2 _ hended'
    · have hne := hbefore (by rw [show r'.phase = _ from hboundary]; rfl)
      exact ⟨hnext.trans_le (lt_of_le_of_ne hJ.1 hne), fun outcome => stage_of_isActivating hactivating⟩

/-- Where another run stands with activations under way. -/
theorem comes_iterating (hactivating : r.phase.isActivating = true) : r₀'.Comes fun r' => Unsteered r₀' r' ∧ r.Beside r' := by
  obtain ⟨d, hu⟩ := h.upright
  obtain ⟨d', hu'⟩ := h.upright'
  -- Up to the iteration of the other one, the run does not end.
  refine comes_of_bound (J := fun r' => r'.iteration < r.iteration ∧ ∀ outcome, r'.phase.stage ≠ .ended outcome) hu' h.resting'
    hrunning hp ⟨?_, fun _ => by rw [hp]; exact Stage.noConfusion⟩ (fun _ _ hJ => hJ.1.le) (fun r' _ hJ hfinal => ?_)
    fun r' ms signal r'' h' h'' hJ hP hs => ?_
  · obtain ⟨batch, hbatch⟩ := Phase.isActivating_iff.1 hactivating
    obtain ⟨e, -, hresting, hamid⟩ := hu.course h.resting hf hc
    have hiteration := (hamid.of_settling hresting.idle (by rw [essence_eq hbatch]; rfl)).1
    rw [hzero, show r.iteration = e.iteration + 1 from hiteration]
    exact Nat.succ_pos _
  · obtain ⟨result, hover⟩ := Phase.eq_over_of_isFinal hfinal
    exact absurd (stage_of_over hover) (hJ.2 result.outcome)
  · obtain ⟨signals'', hf''⟩ := h''.follow
    rcases iteration_step hs with hsame | ⟨-, hnext, hactivating'⟩
    · refine Or.inr ⟨hsame.trans_lt hJ.1, fun outcome hended => ?_⟩
      have hlast := ((h.symm.even hf'' h''.uncancelled hf hc).last hended).1
      exact absurd (hsame.trans_lt hJ.1) (not_lt.2 hlast)
    · by_cases hiteration : r''.iteration = r.iteration
      · exact Or.inl ⟨hiteration, (Phase.station?_iterating.2 hactivating').trans (Phase.station?_iterating.2 hactivating).symm⟩
      · exact Or.inr ⟨lt_of_le_of_ne (hnext.trans_le hJ.1) hiteration, fun outcome => stage_of_isActivating hactivating'⟩

omit hzero in
/-- Where another run is at its end. -/
theorem comes_ended (hfinal : r.phase.isFinal = true) : r₀'.Comes fun r' => Unsteered r₀' r' ∧ r.Beside r' := by
  obtain ⟨d', hu'⟩ := h.upright'
  obtain ⟨result, hover⟩ := Phase.eq_over_of_isFinal hfinal
  have heven : ∀ r', Unsteered r₀' r' → r.essence.Even s r'.essence := fun r' h' => by
    obtain ⟨signals', hf'⟩ := h'.follow
    exact h.even hf hc hf' h'.uncancelled
  refine comes_of_bound (J := fun _ => True) hu' h.resting' hrunning hp trivial
    (fun r' h' _ => ((heven r' h').last (stage_of_over hover)).1) (fun r' h' _ hfinal' => ?_)
    fun _ _ _ _ _ _ _ _ _ => Or.inr trivial
  obtain ⟨result', hover'⟩ := Phase.eq_over_of_isFinal hfinal'
  have hiteration := ((heven r' h').ended (stage_of_over hover) (stage_of_over hover')).1
  exact ⟨hiteration, (Phase.station?_ended.2 hfinal').trans (Phase.station?_ended.2 hfinal).symm⟩

/-- **A run comes to where another one stands** that starts alike. -/
theorem comes_beside (hstation : r.phase.station? ≠ none) : r₀'.Comes fun r' => Unsteered r₀' r' ∧ r.Beside r' := by
  obtain ⟨station, hstand⟩ := Option.ne_none_iff_exists'.1 hstation
  cases station with
  | between => exact comes_between h hf hc hrunning hp hzero (Phase.station?_between.1 hstand)
  | iterating => exact comes_iterating h hf hc hrunning hp hzero (Phase.station?_iterating.1 hstand)
  | ended => exact comes_ended h hf hc hrunning hp (Phase.station?_ended.1 hstand)

end Beside

end Coming

/-! ### Two graphs -/

section Order

variable {x x' : Executor} {g g' : Graph} {context : Context} {mode mode' : StartMode} {now now' : Nat} {r₀ r₀' : Run}

theorem paired_start (hg : g.Consistent) (hg' : g'.Consistent) (hb : g.Hosts Behavior.Determined)
    (hb' : g'.Hosts Behavior.Determined) (hd : g.Directed) (hplain : g.Plain) (hreorder : g.Reorders g')
    (h : start x g context mode now = .ok r₀) (h' : start x' g' context mode' now' = .ok r₀') :
    Paired g.supply.draw.2 r₀ r₀' where
  upright := ⟨_, start_upright (hb.imp fun _ hbehaves => hbehaves.tame) h⟩
  upright' := ⟨_, start_upright (hb'.imp fun _ hbehaves => hbehaves.tame) h'⟩
  resting := resting_start hg hb hd hplain h
  resting' := hreorder.supply ▸ resting_start hg' hb' (hreorder.directed hd) (hreorder.plain hplain) h'
  alike := alike_start hg hg' hb hb' hd hplain hreorder h h'

/-- A run that starts like another one keeps up with it. -/
theorem Paired.keepsUp {s t : Supply} (hpaired : Paired s r₀ r₀') (hle : t.next ≤ s.next)
    (h' : start x' g' context mode' now' = .ok r₀') : KeepsUp t r₀ r₀' where
  inStep _ _ _ _ hf hf' hc hc' := hpaired.inStep hle hf hc hf' hc'
  comes hstate signals r hf hc hstation := by
    obtain ⟨-, -, -, -, hcancelled, hstepping⟩ := start_executor h'
    refine (comes_beside hpaired hf hc ⟨hstate, hcancelled, hstepping⟩ (start_eq h').1 (start_iteration h') hstation).mono
      fun r' ⟨hreached, hbeside⟩ => ⟨hbeside, ?_⟩
    obtain ⟨signals', hf'⟩ := hreached.follow
    exact hpaired.inStep hle hf hc hf' hreached.uncancelled

/-- **The order of the nodes does not matter without fan-in.** Let two graphs without direct-through nodes differ only in the
order of their nodes, and let no two edges end at one port, but each at a top-level port of the input side. Let the behaviors be
determined. Then each of the runs keeps up with the other one, unless one is cancelled, which takes a call: the same nodes are
activated in each iteration, which fails in both, or leaves graphs that are the same but for the order of the nodes and the
identifiers of new element ports, and the runs come to the same kind of end after the same number of iterations. -/
theorem scan_order_immaterial (hg : g.Consistent) (hg' : g'.Consistent) (hb : g.Hosts Behavior.Determined)
    (hb' : g'.Hosts Behavior.Determined) (hd : g.Directed) (hplain : g.Plain) (hreorder : g.Reorders g')
    (h : start x g context mode now = .ok r₀) (h' : start x' g' context mode' now' = .ok r₀') :
    KeepsUp g.supply r₀ r₀' ∧ KeepsUp g.supply r₀' r₀ := by
  have hpaired := paired_start hg hg' hb hb' hd hplain hreorder h h'
  exact ⟨hpaired.keepsUp (Nat.le_succ _) h', hpaired.symm.keepsUp (Nat.le_succ _) h⟩

end Order

end Run

/-! ### Two sources in either order -/

namespace Graph

/-- Two sources of lists, one of which is connected to the node that takes its list. -/
def strand : Graph :=
  (lists.removeEdge ⟨15⟩ ⟨18⟩).2

theorem built_strand : strand.Built :=
  .removeEdge built_lists ⟨15⟩ ⟨18⟩

/-- The same graph with the nodes in the opposite order. -/
def strandReversed : Graph :=
  strand.reorder [⟨3⟩, ⟨2⟩, ⟨1⟩]

theorem node?_strand (id : NodeId) : strand.node? id = if (⟨3⟩ : NodeId) = id then some gatherer.1 else
    if (⟨2⟩ : NodeId) = id then some rightList.1 else if (⟨1⟩ : NodeId) = id then some leftList.1 else none := by
  rw [show strand.node? id = Table.find? id (Table.set ⟨3⟩ gatherer.1 (Table.set ⟨2⟩ rightList.1 (Table.set ⟨1⟩ leftList.1 [])))
    from rfl, Table.find?_set, Table.find?_set, Table.find?_set]
  rfl

theorem plain_strand : strand.Plain := by
  have hedges : strand.edges = [⟨⟨12⟩, ⟨18⟩⟩] := rfl
  refine ⟨fun {id n} hn => ?_, fun {e e'} he he' _ => ?_, fun {e} he => ?_⟩
  · rw [node?_strand] at hn
    split_ifs at hn <;> cases hn <;> rfl
  · rw [hedges, List.mem_singleton] at he he'
    rw [he, he']
  · rw [hedges, List.mem_singleton] at he
    subst he
    exact ⟨⟨3⟩, gatherer.1, by rw [node?_strand]; rfl, _, .tail _ (.head _), rfl⟩

end Graph

namespace Run

/-- A run of the two sources, at its start. -/
def strandStart : Run :=
  (start (.create .standard) Graph.strand default .continuous 0).toOption.getD signalStart

@[inherit_doc strandStart]
def strandReversedStart : Run :=
  (start (.create .standard) Graph.strandReversed default .continuous 0).toOption.getD signalStart

/-- The first iteration: both sources end and are settled, and their outputs are moved. -/
def strandPath (first second : NodeId) : List Signal :=
  [.drive, .run first, .run second] ++ List.replicate 8 .drive

/-- The run after its first iteration. -/
def strandNext : Run :=
  (strandStart.follow (strandPath ⟨1⟩ ⟨2⟩)).getD strandStart

@[inherit_doc strandNext]
def strandReversedNext : Run :=
  (strandReversedStart.follow (strandPath ⟨2⟩ ⟨1⟩)).getD strandReversedStart

/-- The element ports of the lists have other identifiers in the opposite order, and nothing else differs. -/
theorem scan_order_immaterial_strand :
    strandNext.graph.Reordered Graph.strand.supply strandReversedNext.graph ∧
      strandNext.graph.portIdsOf ⟨1⟩ ≠ strandReversedNext.graph.portIdsOf ⟨1⟩ ∧
      strandReversedStart.Comes fun r' => strandNext.Beside r' ∧ InStep Graph.strand.supply strandNext r' := by
  have hstart : start (.create .standard) Graph.strand default .continuous 0 = .ok strandStart := rfl
  have hstart' : start (.create .standard) Graph.strandReversed default .continuous 0 = .ok strandReversedStart := rfl
  have hf : strandStart.follow (strandPath ⟨1⟩ ⟨2⟩) = some strandNext := follow_getD (by decide +kernel)
  have hf' : strandReversedStart.follow (strandPath ⟨2⟩ ⟨1⟩) = some strandReversedNext := follow_getD (by decide +kernel)
  have hreached := Graph.built_strand.reached
  have hperm : [⟨3⟩, ⟨2⟩, ⟨1⟩].Perm Graph.strand.order := by decide +kernel
  have hdetermined : Graph.strand.Hosts Behavior.Determined := by
    refine hreached.hosts fun {id n} hn => ?_
    rw [Graph.node?_strand] at hn
    split_ifs at hn <;> cases hn <;> exact fun _ m => Script.Silent.determined .finish m
  obtain ⟨hkeeps, -⟩ := scan_order_immaterial hreached.consistent (hreached.consistent.reorder hperm) hdetermined
    (hdetermined.reorder hperm) hreached.regular.directed Graph.plain_strand (Graph.reorders_reorder hperm) hstart hstart'
  have hc : strandNext.executor.cancelled = false := by decide +kernel
  have hidle : strandNext.phase.isIdle = true := by decide +kernel
  have hidle' : strandReversedNext.phase.isIdle = true := by decide +kernel
  have hiteration : strandReversedNext.iteration = strandNext.iteration := by decide +kernel
  refine ⟨(hkeeps.inStep _ _ _ _ hf hf' hc (by decide +kernel)).between hidle hidle' hiteration, by decide +kernel,
    hkeeps.comes rfl _ _ hf hc ?_⟩
  rw [Phase.station?_between.2 hidle]
  exact Option.some_ne_none _

end Run

end Dataflow
