import Dataflow.Proofs.Graph.RelayCycles
import Dataflow.Proofs.Run.Control
import Dataflow.Proofs.Run.Feeding
import Dataflow.Proofs.Run.Iterations
import Dataflow.Proofs.Run.Outputs
import Dataflow.Proofs.Run.Reached

/-!
# Chains of relays

The depth of a piece of work is counted while outputs are moved. It is the length of a chain of relays that really
triggered one another.

* `Run.Triggers` says that the outputs of a node make a relay ready, and `Run.Chain` that relays triggered one another,
  from a node of the scan on;
* `Run.Traced`: every relay that waits to be activated is the last of a chain as long as its depth says;
* `Run.Chain.linked`: a chain follows the links between relays that the graph had when the run began;
* `Run.relay_depth`: the limit of the depth fails a run only at a chain that is longer by one, so that it never fails one
  in which relays do not lead back to themselves and are not more than the limit allows.
-/

namespace Dataflow.Run

/-! ### Chains -/

/-- A node takes part in the scan of the iteration that is under way. -/
def InScan (r₀ r : Run) (id : NodeId) : Prop :=
  ∃ first r₁ batch acts, Leads r₀ first r₁ ∧ r₁.phase = .activating batch ∧ id ∈ batch.ready ∧ r₁.Within acts r

/-- The outputs of a node are moved next, and a relay that they reach is ready then. -/
structure Triggers (r : Run) (id relay : NodeId) : Prop where
  moves : ∃ depth work origins, r.phase = .propagating ⟨.propagate id depth :: work, origins⟩
  moved : (r.graph.transferOutputs id).failure = none
  reached : relay ∈ (r.graph.transferOutputs id).relays
  ready : (r.graph.transferOutputs id).graph.isReady relay = true

/-- Relays that triggered one another in one iteration, the latest one first. The first of them was triggered by a node
of the scan, and each of the others by the one before it, after this was activated. -/
inductive Chain (r₀ : Run) (origin : NodeId) : List NodeId → Run → Prop
  | scanned {r : Run} {relay : NodeId} (hscan : InScan r₀ r origin) (h : r.Triggers origin relay) :
      Chain r₀ origin [relay] r
  | extend {r r' : Run} {acts : List Act} {id relay : NodeId} {chain : List NodeId} {a : Activation}
      (hc : Chain r₀ origin (id :: chain) r) (hw : r.Within acts r') (ha : .prepare a ∈ acts) (hid : a.node = id)
      (h : r'.Triggers id relay) : Chain r₀ origin (relay :: id :: chain) r'

theorem Leads.trans {r r' r'' : Run} {acts acts' : List Act} (h : Leads r acts r') (h' : Leads r' acts' r'') :
    Leads r (acts ++ acts') r'' := by
  induction h' with
  | refl => rwa [List.append_nil]
  | step _ hs ih =>
    rw [← List.append_assoc]
    exact ih.step hs

section Chain

variable {r₀ r r' : Run} {acts : List Act} {id origin relay : NodeId} {chain : List NodeId} {depth : Nat}

theorem InScan.leads (h : InScan r₀ r id) : ∃ acts, Leads r₀ acts r := by
  obtain ⟨first, r₁, batch, acts, hfirst, -, -, hwithin⟩ := h
  exact ⟨_, hfirst.trans hwithin.leads⟩

theorem InScan.step {s : Signal} (h : InScan r₀ r id) (hp : r.phase ≠ .boundary) (hs : r.step? s = some r') :
    InScan r₀ r' id := by
  obtain ⟨first, r₁, batch, acts, hfirst, hbatch, hid, hwithin⟩ := h
  exact ⟨first, r₁, batch, _, hfirst, hbatch, hid, hwithin.step hp hs⟩

theorem Chain.leads (h : Chain r₀ origin chain r) : ∃ acts, Leads r₀ acts r := by
  induction h with
  | scanned hscan _ => exact hscan.leads
  | extend _ hw _ _ _ ih =>
    obtain ⟨acts, hacts⟩ := ih
    exact ⟨_, hacts.trans hw.leads⟩

/-! ### Chains follow links -/

section Linked

variable {g : Graph} {before : List Act}

/-- A node that triggers a relay was joined to it at the start. -/
theorem Triggers.joined (hg : g.Identified) (ho : g.Owned) (hlinked : ∀ p q, q ∈ g.outgoing p → ⟨p, q⟩ ∈ g.edges)
    (hgraph : r₀.graph = g.replay before) (hlead : Leads r₀ acts r) (h : r.Triggers id relay) :
    relay ∈ g.relays ∧ g.Joined id relay := by
  have hr₀ : r₀.graph.Identified := hgraph ▸ hg.replay before
  have hr : r.graph = g.replay (before ++ acts) := by rw [hlead.graph hr₀, hgraph, Graph.replay_append]
  have hid : r.graph.Identified := hlead.identified hr₀
  refine ⟨(Graph.mem_relays hg).2 ?_, ?_⟩
  · have hrelay := Graph.isRelay_transferOutputs hid.isNamed h.reached
    rw [hr, Graph.isRelay_replay hg.isNamed] at hrelay
    exact (Option.any_eq_true _ _).1 hrelay
  · have hfeeds := Graph.feeds_relay hid h.reached
    rw [hr] at hfeeds
    exact hfeeds.joined hg ho hlinked

/-- **A chain follows the links between relays that the graph had at the start.** -/
theorem Chain.linked (hg : g.Identified) (ho : g.Owned) (hlinked : ∀ p q, q ∈ g.outgoing p → ⟨p, q⟩ ∈ g.edges)
    (hgraph : r₀.graph = g.replay before) (h : Chain r₀ origin chain r) :
    chain ⊆ g.relays ∧ chain.IsChain fun b a => Link.Joins g.relayLinks a b := by
  induction h with
  | scanned hscan ht =>
    obtain ⟨acts, hlead⟩ := hscan.leads
    have hrelay := (ht.joined hg ho hlinked hgraph hlead).1
    exact ⟨List.cons_subset.2 ⟨hrelay, List.nil_subset _⟩, List.IsChain.singleton _⟩
  | extend hc hw _ _ ht ih =>
    obtain ⟨acts, hlead⟩ := hc.leads
    obtain ⟨hrelay, hjoined⟩ := ht.joined hg ho hlinked hgraph (hlead.trans hw.leads)
    obtain ⟨hsub, hchain⟩ := ih
    refine ⟨List.cons_subset.2 ⟨hrelay, hsub⟩, List.isChain_cons_cons.2 ⟨?_, hchain⟩⟩
    exact (Graph.mem_relayLinks ho).2 ⟨hsub List.mem_cons_self, hrelay, hjoined⟩

end Linked

/-! ### The depth of a piece of work -/

/-- A relay was triggered at the end of a chain that is as long as the depth says. -/
def Triggered (r₀ r : Run) (relay : NodeId) (depth : Nat) : Prop :=
  ∃ origin chain r₁ acts, Chain r₀ origin (relay :: chain) r₁ ∧ (relay :: chain).length = depth ∧ r₁.Within acts r

/-- Moreover, it was activated since. -/
def Activated (r₀ r : Run) (relay : NodeId) (depth : Nat) : Prop :=
  ∃ origin chain r₁ acts a, Chain r₀ origin (relay :: chain) r₁ ∧ (relay :: chain).length = depth ∧ r₁.Within acts r ∧
    .prepare a ∈ acts ∧ a.node = relay

/-- Where a piece of work comes from. -/
def Traced (r₀ r : Run) (limit : Nat) : Work → Prop
  | .activate relay depth => depth ≤ limit + 1 ∧ Triggered r₀ r relay depth
  | .propagate id depth => depth ≤ limit ∧ (depth = 0 ∧ InScan r₀ r id ∨ Activated r₀ r id depth)

/-- Where the work of a phase comes from. -/
def TracedAll (r₀ r : Run) (limit : Nat) : Phase → Prop
  | .propagating agenda => (∀ id ∈ agenda.origins, InScan r₀ r id) ∧ ∀ w ∈ agenda.work, Traced r₀ r limit w
  | .relaying relay depth agenda => (depth ≤ limit ∧ Activated r₀ r relay.task.node depth) ∧
      (∀ id ∈ agenda.origins, InScan r₀ r id) ∧ ∀ w ∈ agenda.work, Traced r₀ r limit w
  | _ => True

theorem tracedAll_of_isIdle {limit : Nat} {p : Phase} (h : (p.isIdle || p.isOver) = true) : TracedAll r₀ r limit p := by
  cases p <;> trivial

theorem Activated.step {s : Signal} (h : Activated r₀ r relay depth) (hp : r.phase ≠ .boundary)
    (hs : r.step? s = some r') : Activated r₀ r' relay depth := by
  obtain ⟨origin, chain, r₁, acts, a, hc, hlength, hw, ha, hid⟩ := h
  exact ⟨origin, chain, r₁, _, a, hc, hlength, hw.step hp hs, List.mem_append_left _ ha, hid⟩

theorem Traced.step {limit : Nat} {w : Work} {s : Signal} (h : Traced r₀ r limit w) (hp : r.phase ≠ .boundary)
    (hs : r.step? s = some r') : Traced r₀ r' limit w := by
  cases w with
  | activate relay depth =>
    obtain ⟨hdepth, origin, chain, r₁, acts, hc, hlength, hw⟩ := h
    exact ⟨hdepth, origin, chain, r₁, _, hc, hlength, hw.step hp hs⟩
  | propagate id depth =>
    obtain ⟨hdepth, ⟨hzero, hscan⟩ | hactivated⟩ := h
    · exact ⟨hdepth, Or.inl ⟨hzero, hscan.step hp hs⟩⟩
    · exact ⟨hdepth, Or.inr (hactivated.step hp hs)⟩

/-- A relay that is triggered adds one to the chain. -/
theorem Traced.extend {limit : Nat} (h : Traced r₀ r limit (.propagate id depth)) (ht : r.Triggers id relay) :
    ∃ origin chain, Chain r₀ origin (relay :: chain) r ∧ (relay :: chain).length = depth + 1 := by
  obtain ⟨-, ⟨rfl, hscan⟩ | ⟨origin, chain, r₁, acts, a, hc, hlength, hw, ha, hid⟩⟩ := h
  · exact ⟨id, [], .scanned hscan ht, rfl⟩
  · exact ⟨origin, id :: chain, .extend hc hw ha hid ht, by rw [List.length_cons, hlength]⟩

/-- What is left after a relay was activated. -/
theorem tracedAll_carried {limit : Nat} {agenda : Agenda} {g : Graph} {p : Phase}
    (h : Carried relay depth agenda g acts p) (hdepth : depth ≤ limit) (hrelay : Activated r₀ r relay depth)
    (horigins : ∀ id ∈ agenda.origins, InScan r₀ r id) (hwork : ∀ w ∈ agenda.work, Traced r₀ r limit w) :
    TracedAll r₀ r limit p := by
  cases h with
  | asleep hnode => exact ⟨⟨hdepth, hnode ▸ hrelay⟩, horigins, hwork⟩
  | broken => trivial
  | failed => trivial
  | settled => exact ⟨horigins, List.forall_mem_cons.2 ⟨⟨hdepth, Or.inr hrelay⟩, hwork⟩⟩

/-- **Every step keeps track of where the work comes from.** -/
theorem tracedAll_step {limit : Nat} {s : Signal} (hlead : Leads r₀ acts r) (hg : r.graph.Identified)
    (hlimit : r.executor.config.maxRelayDepth = limit) (hs : r.step? s = some r')
    (h : TracedAll r₀ r limit r.phase) : TracedAll r₀ r' limit r'.phase := by
  have hm := step_moves hg.isNamed hs
  generalize hacts : r.acts s = acts' at hm
  generalize r'.phase = p at hm ⊢
  cases hm with
  | wait =>
    cases hp : r.phase with
    | propagating agenda =>
      rw [hp] at h
      have hne : r.phase ≠ .boundary := by simp [hp]
      exact ⟨fun id hid => (h.1 id hid).step hne hs, fun w hw => (h.2 w hw).step hne hs⟩
    | relaying relay depth agenda =>
      rw [hp] at h
      have hne : r.phase ≠ .boundary := by simp [hp]
      exact ⟨⟨h.1.1, h.1.2.step hne hs⟩, fun id hid => (h.2.1 id hid).step hne hs, fun w hw => (h.2.2 w hw).step hne hs⟩
    | _ => trivial
  | turn _ hp' => exact tracedAll_of_isIdle hp'
  | begin => trivial
  | run => trivial
  | settle => trivial
  | @pass batch hp =>
    have hne : r.phase ≠ .boundary := by simp [hp]
    refine ⟨fun id hid => ?_, fun w hw => absurd hw List.not_mem_nil⟩
    exact ⟨acts, r, batch, _, hlead, hp, hid, (Within.refl r).step hne hs⟩
  | @move id depth work origins hp hok =>
    rw [hp] at h
    have hne : r.phase ≠ .boundary := by simp [hp]
    obtain ⟨hfirst, hrest⟩ := List.forall_mem_cons.1 h.2
    refine ⟨fun id hid => (h.1 id hid).step hne hs,
      List.forall_mem_append.2 ⟨fun w hw => ?_, fun w hw => (hrest w hw).step hne hs⟩⟩
    obtain ⟨relay, hrelay, rfl⟩ := List.mem_map.1 hw
    obtain ⟨hreached, hready⟩ := List.mem_filter.1 hrelay
    obtain ⟨origin, chain, hc, hlength⟩ := hfirst.extend ⟨⟨depth, work, origins, hp⟩, hok, hreached, hready⟩
    exact ⟨Nat.succ_le_succ hfirst.1, origin, chain, r, _, hc, hlength, (Within.refl r).step hne hs⟩
  | skip hp =>
    rw [hp] at h
    have hne : r.phase ≠ .boundary := by simp [hp]
    exact ⟨fun id hid => (h.1 id hid).step hne hs, fun w hw => (h.2 w (List.mem_cons_of_mem _ hw)).step hne hs⟩
  | @relay n depth work origins acts₁ p hp _ _ hdepth hcarry =>
    rw [hp] at h
    have hne : r.phase ≠ .boundary := by simp [hp]
    obtain ⟨⟨-, origin, chain, r₁, acts₂, hc, hlength, hw⟩, hrest⟩ := List.forall_mem_cons.1 h.2
    refine tracedAll_carried hcarry (hlimit ▸ hdepth) ⟨origin, chain, r₁, _, n.activation n.prepare.1 r.iteration r.context,
      hc, hlength, hw.step hne hs, ?_, rfl⟩ (fun id hid => (h.1 id hid).step hne hs) fun w hw =>
      (hrest w hw).step hne hs
    rw [hacts]
    exact List.mem_append_right _ List.mem_cons_self
  | resume hp hcarry =>
    rw [hp] at h
    have hne : r.phase ≠ .boundary := by simp [hp]
    exact tracedAll_carried hcarry h.1.1 (h.1.2.step hne hs) (fun id hid => (h.2.1 id hid).step hne hs)
      fun w hw => (h.2.2 w hw).step hne hs
  | next hp =>
    rw [hp] at h
    have hne : r.phase ≠ .boundary := by simp [hp]
    obtain ⟨hfirst, hrest⟩ := List.forall_mem_cons.1 h.1
    refine ⟨fun id hid => (hrest id hid).step hne hs, List.forall_mem_singleton.2 ?_⟩
    exact ⟨Nat.zero_le _, Or.inl ⟨rfl, hfirst.step hne hs⟩⟩
  | finish _ hp' => exact tracedAll_of_isIdle (by rw [hp', Bool.true_or])
  | report | giveUp => trivial

theorem config_step {s : Signal} (hs : r.step? s = some r') : r'.executor.config = r.executor.config := by
  rw [executor_step hs]
  exact (r.executor.replay_spec _).2.2.2

theorem Leads.config (h : Leads r₀ acts r) : r.executor.config = r₀.executor.config := by
  induction h with
  | refl => rfl
  | step _ hs ih => rw [config_step hs, ih]

theorem Leads.traced (hg : r₀.graph.Identified) (hp : r₀.phase = .boundary) (h : Leads r₀ acts r) :
    TracedAll r₀ r r₀.executor.config.maxRelayDepth r.phase := by
  induction h with
  | refl => exact tracedAll_of_isIdle (by rw [hp]; rfl)
  | step hlead hs ih => exact tracedAll_step hlead (hlead.identified hg) (by rw [hlead.config]) hs ih

end Chain

/-! ### The limit -/

/-- A relay is to be activated next that is ready, and the chain up to it is longer than allowed. -/
structure ExceedsDepth (r : Run) (id : NodeId) (depth : Nat) : Prop where
  next : ∃ work origins, r.phase = .propagating ⟨.activate id depth :: work, origins⟩
  ready : r.graph.isReady id = true
  exceeds : r.executor.config.maxRelayDepth < depth

/-- The driver fails the run then, and says so. -/
theorem ExceedsDepth.drive {r : Run} {id : NodeId} {depth : Nat} (h : r.ExceedsDepth id depth) :
    r.step? .drive = some (r.endWith (.failed (r.depthFailure id))) := by
  obtain ⟨work, origins, hp⟩ := h.next
  simp only [step?, drive?, hp, propagateNext, reachRelay]
  cases hn : r.graph.node? id with
  | none =>
    have hready := h.ready
    simp only [Graph.isReady, hn] at hready
    cases hready
  | some n => simp only [h.ready, Bool.not_true, Bool.false_eq_true, if_false, h.exceeds, if_true]

/-- **Relays fail a run by their depth only at the end of a chain that is longer than allowed by one.** If the relays do
not lead back to themselves when the run begins, and are not more than the limit, then no run fails by it. -/
theorem relay_depth {x : Executor} {g : Graph} {context : Context} {mode : StartMode} {now : Nat} {r₀ r : Run}
    {acts : List Act} (hg : g.Identified) (ha : g.Agrees) (hproper : Table.Proper g.owners)
    (hstart : start x g context mode now = .ok r₀) (hrun : Leads r₀ acts r) :
    (∀ id depth, r.ExceedsDepth id depth → depth = x.config.maxRelayDepth + 1 ∧
      ∃ origin chain r₁ acts', Chain r₀ origin (id :: chain) r₁ ∧
        (id :: chain).length = x.config.maxRelayDepth + 1 ∧ r₁.Within acts' r) ∧
      (g.relayCycles = [] → g.relays.length ≤ x.config.maxRelayDepth → ∀ id depth, ¬ r.ExceedsDepth id depth) := by
  have hconfig : r₀.executor.config = x.config := (start_executor hstart).2.2.2.1
  have hgraph := (start_eq hstart).2
  have hdrawn : ({ g with supply := g.supply.draw.2 } : Graph).Identified := hg.draw (Nat.le_succ _)
  have hchain : ∀ id depth, r.ExceedsDepth id depth → depth = x.config.maxRelayDepth + 1 ∧
      ∃ origin chain r₁ acts', Chain r₀ origin (id :: chain) r₁ ∧
        (id :: chain).length = x.config.maxRelayDepth + 1 ∧ r₁.Within acts' r := by
    intro id depth h
    obtain ⟨work, origins, hp⟩ := h.next
    have htraced := hrun.traced (start_identified hg hstart) (start_eq hstart).1
    rw [hp, hconfig] at htraced
    obtain ⟨hle, origin, chain, r₁, acts', hc, hlength, hw⟩ := (List.forall_mem_cons.1 htraced.2).1
    have hlt := h.exceeds
    rw [hrun.config, hconfig] at hlt
    have hdepth : depth = x.config.maxRelayDepth + 1 := Nat.le_antisymm hle hlt
    exact ⟨hdepth, origin, chain, r₁, acts', hc, hlength.trans hdepth, hw⟩
  refine ⟨hchain, fun hcycles hrelays id depth h => ?_⟩
  obtain ⟨-, origin, chain, r₁, -, hc, hlength, -⟩ := hchain id depth h
  have howned := ha.isOwned hproper
  obtain ⟨hsub, hlinked⟩ := hc.linked (g := { g with supply := g.supply.draw.2 }) hdrawn ⟨howned.proper, howned.owned⟩
    (fun p q hq => ha.mem_outgoing.1 hq) hgraph
  have hle := Graph.length_le_relays (Graph.nodup_relays hg.nodup_ids) hcycles hsub hlinked
  omega

/-- The run of the source and its relay, where relays may not trigger each other at all, when the relay is reached. -/
def strictStart : Run :=
  (start (.create { ExecutorConfig.standard with maxRelayDepth := 0 }) Graph.signalPair default .continuous 0).toOption.getD
    signalStart

def strictEnd : Run :=
  (strictStart.follow [.drive, .run ⟨1⟩, .drive, .drive, .drive, .drive]).getD strictStart

/-- The relay is one too many there, at the end of a chain of one relay. -/
theorem relay_depth_strict : strictEnd.ExceedsDepth ⟨2⟩ 1 ∧
    ∃ origin chain r₁ acts, Chain strictStart origin (⟨2⟩ :: chain) r₁ ∧ (⟨2⟩ :: chain : List NodeId).length = 1 ∧
      r₁.Within acts strictEnd := by
  have hexceeds : strictEnd.ExceedsDepth ⟨2⟩ 1 := ⟨⟨[], [], rfl⟩, by decide +kernel, by decide +kernel⟩
  have hstart : start (.create { ExecutorConfig.standard with maxRelayDepth := 0 }) Graph.signalPair default .continuous 0 =
      .ok strictStart := rfl
  have hfollow : strictStart.follow [.drive, .run ⟨1⟩, .drive, .drive, .drive, .drive] = some strictEnd := rfl
  have hgraph := Graph.built_signalPair.regular
  have hagrees := Graph.built_signalPair.reached.indexes_agree
  have hlead := (Leads.refl strictStart).follow hfollow
  exact ⟨hexceeds, ((relay_depth hgraph.toIdentified hagrees hgraph.proper hstart hlead).1 ⟨2⟩ 1 hexceeds).2⟩

end Dataflow.Run
