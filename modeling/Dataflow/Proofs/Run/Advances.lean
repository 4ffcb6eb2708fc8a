import Dataflow.Proofs.Run.Control
import Dataflow.Proofs.Run.Essence

/-!
# What matters of a run

* `Run.essence` is what matters of the state of a run;
* `Run.Tidy` is the invariant of runs whose behaviors are determined: an activation that is under way has one ending
  only, and no node is activated twice at the same time;
* `Run.Advances` says that a step goes on from the essence of a run to that of another, with the events that matter on
  the way, and keeps the invariant;
* `Run.advances_begin`: the beginning of an iteration does.
-/

namespace Dataflow

/-! ### What matters of the deeds of a step -/

/-- What matters of a deed. -/
def Deed.essence? : Deed → Option EventKind
  | publish kind => kind.essence?
  | call _ | endStep | takeWake | finish _ => none

/-- What matters of some deeds. -/
def Deed.essentials (deeds : List Deed) : List EventKind :=
  deeds.filterMap essence?

theorem Deed.essentials_append (deeds deeds' : List Deed) : essentials (deeds ++ deeds') = essentials deeds ++ essentials deeds' :=
  List.filterMap_append

theorem Deed.essentials_publish (kinds : List EventKind) : essentials (kinds.map .publish) = EventKind.essentials kinds :=
  List.filterMap_map

/-- Changes of state, and reports at the end of a run, do not matter. -/
theorem Deed.essentials_voicesAll (s : ExecutionState) (deeds : List Deed) :
    EventKind.essentials (voicesAll s deeds) = essentials deeds := by
  induction deeds generalizing s with
  | nil => rfl
  | cons d rest ih =>
    have hvoices : EventKind.essentials (d.voices s) = d.essence?.toList := by
      cases d with
      | publish kind =>
        cases hk : kind.essence? <;> simp [voices, EventKind.essentials, essence?, hk]
      | finish result =>
        cases ho : result.outcome <;> simp [voices, EventKind.essentials, essence?, EventKind.essence?, Executor.terminalEvent, ho]
      | call c => cases h : (Deed.call c).transition?.bind s.next? <;> simp [voices, EventKind.essentials, essence?, EventKind.essence?, h]
      | endStep => cases h : Deed.endStep.transition?.bind s.next? <;> simp [voices, EventKind.essentials, essence?, EventKind.essence?, h]
      | takeWake => rfl
    rw [voicesAll, EventKind.essentials_append, hvoices, ih]
    unfold essentials
    cases he : d.essence? <;> simp [he]

namespace Run

/-- What a script says and calls does not matter. -/
@[simp] theorem essentials_performed (node : NodeId) (script : Script) (x : Executor) :
    Deed.essentials (performed node script x) = [] := by
  induction script generalizing x with
  | finish | panic | sleep => rfl
  | emit event rest ih => exact ih _
  | control c rest ih => exact ih _ _ _
  | log entry rest ih => exact ih _
  | remember memory rest ih => exact ih _

/-- How long an activation took does not matter. -/
@[simp] theorem essentials_completed (g : Graph) (id : NodeId) (result : Except NodeError Output) (duration : Nat) :
    Deed.essentials ((completed g id result duration).map .publish) = completed g id result 0 := by
  rw [Deed.essentials_publish]
  unfold completed
  cases g.node? id with
  | none => rfl
  | some n =>
    dsimp only
    cases (n.complete result g.supply).1 <;> rfl

@[simp] theorem essentials_startings (ids : List NodeId) (g : Graph) :
    Deed.essentials ((startings ids g).map .publish) = startings ids g := by
  rw [Deed.essentials_publish]
  induction ids generalizing g with
  | nil => rfl
  | cons id rest ih =>
    unfold startings
    cases g.node? id with
    | none => exact ih g
    | some n => exact congrArg (_ :: ·) (ih _)

end Run

/-! ### What matters of the state of a run -/

/-- The activations that are not at their end. -/
def Batch.pledges (batch : Batch) : List Pledge :=
  (batch.runnable ++ batch.asleep.map Sleeper.task).map Task.pledge

/-- The activations of other nodes that are not at their end, while a node has its turn. -/
def Batch.others (batch : Batch) (node : NodeId) : List Pledge :=
  (batch.runnable.filter (·.node ≠ node) ++ batch.asleep.map Sleeper.task).map Task.pledge

/-- The results of the activations that are not settled, those to come included. -/
def Batch.results (batch : Batch) : Table NodeId (Except NodeError Output) :=
  batch.finished.map (fun f => (f.node, f.result)) ++ promises batch.pledges

/-- The activations that are not at their end. -/
def Phase.pledges : Phase → List Pledge
  | .activating batch => batch.pledges
  | .relaying relay _ _ => [relay.task.pledge]
  | _ => []

/-- What matters of a phase. -/
def Phase.stage : Phase → Stage
  | .boundary | .parked | .delaying _ => .idle
  | .activating batch =>
    .settling batch.ready (fun id => Table.find? id batch.results) batch.settled batch.failures
  | .propagating agenda => .moving agenda
  | .relaying relay depth agenda => .relaying relay.task.node relay.task.script.halt depth agenda
  | .ending outcome => .ended outcome
  | .over result => .ended result.outcome
  | .broken message => .broken message

theorem Batch.keys_results (batch : Batch) :
    batch.results.map Prod.fst = batch.finished.map Finished.node ++ batch.pledges.map Pledge.node := by
  simp only [results, promises, List.map_append, List.map_map]
  rfl

/-- An activation that has ended is not under way any more. -/
theorem Batch.pledgeOf?_finished {batch : Batch} (hp : Table.Proper batch.results) {f : Finished}
    (hf : f ∈ batch.finished) : pledgeOf? f.node batch.pledges = none := by
  rw [Table.Proper, keys_results] at hp
  rw [pledgeOf?_eq_none]
  exact List.disjoint_of_nodup_append hp (List.mem_map_of_mem hf)

theorem Batch.nodup_pledges {batch : Batch} (hp : Table.Proper batch.results) : (batch.pledges.map Pledge.node).Nodup := by
  rw [Table.Proper, keys_results] at hp
  exact hp.of_append_right

theorem Batch.nodup_runnable {batch : Batch} (hp : Table.Proper batch.results) : (batch.runnable.map Task.node).Nodup := by
  have hn := nodup_pledges hp
  rw [pledges, List.map_map, List.map_append] at hn
  exact hn.of_append_left

theorem Batch.nodup_asleep {batch : Batch} (hp : Table.Proper batch.results) :
    (batch.asleep.map fun s => s.task.node).Nodup := by
  have hn := nodup_pledges hp
  rw [pledges, List.map_map, List.map_append, List.map_map] at hn
  exact hn.of_append_right

namespace Run

/-- What matters of the state of a run. -/
def essence (r : Run) : Essence :=
  { context := r.context, graph := r.graph.fulfilled r.phase.pledges, iteration := r.iteration, fired := r.firedSources
    stage := r.phase.stage }

theorem essence_eq {r : Run} {p : Phase} (hp : r.phase = p) :
    r.essence = ⟨r.context, r.graph.fulfilled p.pledges, r.iteration, r.firedSources, p.stage⟩ := by
  rw [essence, hp]

/-- The essence of a run without activations under way. -/
theorem essence_eq_of_nil {r : Run} {p : Phase} (hp : r.phase = p) (hnil : p.pledges = []) :
    r.essence = ⟨r.context, r.graph, r.iteration, r.firedSources, p.stage⟩ := by
  rw [essence_eq hp, hnil, Graph.fulfilled_nil]

/-- What holds of a run whose behaviors are determined. -/
structure Tidy (silent : Bool) (r : Run) : Prop where
  hosts : r.graph.Hosts (Behavior.Tame silent)
  /-- No node is activated twice at the same time. -/
  apart : ∀ batch, r.phase = .activating batch → Table.Proper batch.results
  /-- An activation that is under way has one ending only. -/
  pledged : ∀ p ∈ r.phase.pledges, ∃ n, r.graph.node? p.node = some n ∧ p.script.Tame silent n.memory
  reported : ∀ result, r.phase = .over result → result.iterations = r.iteration

/-- A step with some deeds goes on from what matters of one run to what matters of another. -/
structure Advances (t : Terms) (silent : Bool) (r : Run) (deeds : List Deed) (r' : Run) : Prop where
  leads : Essence.Leads t r.essence (Deed.essentials deeds) r'.essence
  tidy : r'.Tidy silent

section Advance

variable {t : Terms} {silent : Bool} {r : Run}

theorem Tidy.of_nil {p : Phase} (hosts : r.graph.Hosts (Behavior.Tame silent))
    (hp : r.phase = p) (hnil : p.pledges = []) (hbatch : ∀ batch, p ≠ .activating batch) (hover : ∀ result, p ≠ .over result) :
    r.Tidy silent where
  hosts := hosts
  apart batch h := absurd (hp.symm.trans h) (hbatch batch)
  pledged q hq := by
    rw [hp, hnil] at hq
    cases hq
  reported result h := absurd (hp.symm.trans h) (hover result)

/-- A step that only changes the executor or the clock. -/
theorem Tidy.of_same (h : r.Tidy silent) {r' : Run} (hgraph : r'.graph = r.graph)
    (hiteration : r'.iteration = r.iteration) (hphase : r'.phase = r.phase) : r'.Tidy silent where
  hosts := hgraph ▸ h.hosts
  apart batch hp := h.apart batch (hphase.symm.trans hp)
  pledged p hp := by
    rw [hgraph]
    exact h.pledged p (hphase ▸ hp)
  reported result hp := by
    rw [hiteration]
    exact h.reported result (hphase.symm.trans hp)

theorem essence_endWith (r : Run) (outcome : Outcome) :
    (r.endWith outcome).essence = ⟨r.context, r.graph, r.iteration, r.firedSources, .ended outcome⟩ :=
  essence_eq_of_nil rfl rfl

theorem Tidy.endWith {outcome : Outcome} (hosts : r.graph.Hosts (Behavior.Tame silent)) :
    (r.endWith outcome).Tidy silent :=
  .of_nil (p := .ending outcome) hosts rfl rfl (by simp) (by simp)

theorem essence_moving (r : Run) (agenda : Agenda) :
    ({ r with phase := .propagating agenda } : Run).essence = ⟨r.context, r.graph, r.iteration, r.firedSources, .moving agenda⟩ :=
  essence_eq_of_nil rfl rfl

theorem Tidy.moving {agenda : Agenda} (hosts : r.graph.Hosts (Behavior.Tame silent)) :
    Run.Tidy silent { r with phase := .propagating agenda } :=
  .of_nil (p := .propagating agenda) hosts rfl rfl (by simp) (by simp)

/-- Between iterations, no activation is under way. -/
theorem pledges_of_idle {p : Phase} (h : p.stage = .idle) :
    p.pledges = [] ∧ (∀ batch, p ≠ .activating batch) ∧ ∀ result, p ≠ .over result := by
  cases p with
  | boundary | parked | delaying => exact ⟨rfl, by simp, by simp⟩
  | _ => cases h

theorem essence_idle {p : Phase} (hp : r.phase = p) (hstage : p.stage = .idle) :
    r.essence = ⟨r.context, r.graph, r.iteration, r.firedSources, .idle⟩ := by
  rw [essence_eq_of_nil hp (pledges_of_idle hstage).1, hstage]

theorem Tidy.idle {p : Phase} (hosts : r.graph.Hosts (Behavior.Tame silent)) (hp : r.phase = p) (hstage : p.stage = .idle) : r.Tidy silent :=
  .of_nil hosts hp (pledges_of_idle hstage).1 (pledges_of_idle hstage).2.1 (pledges_of_idle hstage).2.2

/-! ### Beginning an iteration -/

/-- The beginning of activations, as far as it matters. -/
theorem spawn_engage (ids : List NodeId) (index : Nat) (r : Run) :
    ((spawn ids index r).1.map Task.pledge, (spawn ids index r).2.graph) =
      Graph.engage r.context r.iteration ids index r.graph := by
  induction ids generalizing index r with
  | nil => rfl
  | cons id rest ih =>
    unfold spawn Graph.engage
    cases hn : r.graph.node? id with
    | none => exact ih index r
    | some n =>
      have ih' := ih (index + 1) ((r.prepare n).2.publish (.nodeStarted id n.typeId))
      rw [Prod.ext_iff] at ih' ⊢
      exact ⟨congrArg (_ :: ·) ih'.1, ih'.2⟩

/-- What activations of distinct nodes are pledged to when they begin. -/
structure Engaged (silent : Bool) (ids : List NodeId) (g : Graph) (pledges : List Pledge) (g' : Graph) : Prop where
  hosts : g'.Hosts (Behavior.Tame silent)
  nodes : (pledges.map Pledge.node).Sublist ids
  others : ∀ id, id ∉ ids → g'.node? id = g.node? id
  pledged : ∀ p ∈ pledges, ∃ n, g'.node? p.node = some n ∧ p.script.Tame silent n.memory

theorem engaged (context : Context) (iteration : Nat) {ids : List NodeId} (index : Nat) {g : Graph}
    (hg : g.Hosts (Behavior.Tame silent)) (hn : ids.Nodup) :
    Engaged silent ids g (g.engage context iteration ids index).1 (g.engage context iteration ids index).2 := by
  induction ids generalizing index g with
  | nil => exact ⟨hg, List.Sublist.refl _, fun _ _ => rfl, fun _ hp => absurd hp List.not_mem_nil⟩
  | cons id rest ih =>
    obtain ⟨hid, hrest⟩ := List.nodup_cons.1 hn
    unfold Graph.engage
    cases hnode : g.node? id with
    | none =>
      -- A node that is gone is passed over, and takes no place in the scan.
      obtain ⟨hosts, hnodes, hothers, hpledged⟩ := ih index hg hrest
      exact ⟨hosts, hnodes.cons _, fun k hk => hothers k fun h => hk (List.mem_cons_of_mem _ h), hpledged⟩
    | some n =>
      have hname : n.id = id := hg.named hnode
      have hset : ∀ k, (g.setNode n.prepare.2).node? k = if id = k then some n.prepare.2 else g.node? k := by
        intro k
        rw [Graph.node?_setNode, show n.prepare.2.id = id from hname]
      have hg' : (g.setNode n.prepare.2).Hosts (Behavior.Tame silent) :=
        hg.setNode (m := n) (by rw [show n.prepare.2.id = id from hname]; exact hnode) rfl
      obtain ⟨hosts, hnodes, hothers, hpledged⟩ := ih (index + 1) hg' hrest
      refine ⟨hosts, hnodes.cons_cons _, fun k hk => ?_, List.forall_mem_cons.2 ⟨?_, hpledged⟩⟩
      · have hne : id ≠ k := fun e => hk (e ▸ List.mem_cons_self)
        rw [hothers k fun h => hk (List.mem_cons_of_mem _ h), hset, if_neg hne]
      · -- The activations after this one do not touch its node.
        refine ⟨n.prepare.2, ?_, hg.behaves hnode _ _⟩
        rw [hothers id hid, hset, if_pos rfl]

end Advance

end Run

namespace Graph

theorem nodeList_sublist {P : Behavior → Prop} {g : Graph} (hg : g.Hosts P) : (g.nodeList.map Node.id).Sublist g.order := by
  unfold nodeList
  induction g.order with
  | nil => exact List.Sublist.refl _
  | cons id rest ih =>
    cases hn : g.node? id with
    | none =>
      rw [List.filterMap_cons_none hn]
      exact ih.cons _
    | some n =>
      rw [List.filterMap_cons_some hn, List.map_cons, hg.named hn]
      exact ih.cons_cons _

end Graph

namespace Run

section Advance

variable {t : Terms} {silent : Bool} {r : Run}

theorem nodup_ready {P : Behavior → Prop} {g : Graph} (hg : g.Hosts P) (fired : List NodeId) :
    (collectReady g g.nodeList fired).1.Nodup :=
  hg.order.sublist ((sublist_collectReady g _ fired).trans (Graph.nodeList_sublist hg))

/-- A run whose next iteration has begun, before any activation. -/
def opened (r : Run) (fired : List NodeId) : Run :=
  publish { r with
    firedSources := fired
    iteration := r.iteration + 1
    stepping := r.executor.state == ExecutionState.stepping } (.iteration (r.iteration + 1))

theorem beginIteration_eq {r : Run} {ready fired : List NodeId}
    (h : collectReady r.graph r.graph.nodeList r.firedSources = (ready, fired)) :
    r.beginIteration = if ready.isEmpty then ({ r with firedSources := fired } : Run).endWith .completed
      else { (spawn ready 0 (r.opened fired)).2 with
        phase := .activating ⟨ready, (spawn ready 0 (r.opened fired)).1, [], [], [], []⟩ } := by
  unfold beginIteration
  rw [h]
  rfl

theorem advances_begin (h : r.Tidy silent) (hp : r.phase = .boundary) : Advances t silent r r.begun r.beginIteration := by
  have hess := essence_eq_of_nil hp rfl
  have hnodup := nodup_ready h.hosts r.firedSources
  have hbegin : r.essence.next? t = some (Essence.begin ⟨r.context, r.graph, r.iteration, r.firedSources, .idle⟩) := by
    rw [hess]
    rfl
  unfold Essence.begin at hbegin
  unfold begun
  rcases hready : collectReady r.graph r.graph.nodeList r.firedSources with ⟨ready, fired⟩
  rw [hready] at hnodup
  rw [beginIteration_eq hready]
  simp only [hready] at hbegin ⊢
  by_cases hempty : ready.isEmpty = true
  · rw [if_pos hempty] at hbegin
    rw [if_pos hempty, if_pos hempty]
    refine ⟨?_, .endWith h.hosts⟩
    rw [essence_endWith]
    exact .single hbegin
  · rw [if_neg hempty] at hbegin
    rw [if_neg hempty, if_neg hempty]
    -- The activations begin in the run as they do in its essence.
    have hspawn := spawn_engage ready 0 (r.opened fired)
    have heq := spawn_eq ready 0 (r.opened fired)
    have hengaged := engaged r.context (r.iteration + 1) 0 h.hosts hnodup
    rw [show (r.opened fired).context = r.context from rfl, show (r.opened fired).iteration = r.iteration + 1 from rfl,
      show (r.opened fired).graph = r.graph from rfl] at hspawn
    rw [← hspawn] at hengaged hbegin
    dsimp only at hengaged hbegin
    generalize spawn ready 0 (r.opened fired) = spawned at *
    obtain ⟨tasks, r₂⟩ := spawned
    dsimp only at heq hengaged hbegin ⊢
    have hcontext : r₂.context = r.context := by rw [heq]; rfl
    have hiteration : r₂.iteration = r.iteration + 1 := by rw [heq]; rfl
    have hfired : r₂.firedSources = fired := by rw [heq]; rfl
    have hpledges : Batch.pledges ⟨ready, tasks, [], [], [], []⟩ = tasks.map Task.pledge := by simp [Batch.pledges]
    have hresults : Batch.results ⟨ready, tasks, [], [], [], []⟩ = promises (tasks.map Task.pledge) := by
      rw [Batch.results, hpledges]
      rfl
    refine ⟨?_, hengaged.hosts, fun batch hbatch => ?_, fun p hmem => ?_, fun result hresult => by cases hresult⟩
    · refine .single (hbegin.trans ?_)
      have hkinds : Deed.essentials ((.iteration (r.iteration + 1) :: startings ready r.graph).map .publish) =
          .iteration (r.iteration + 1) :: startings ready r.graph :=
        congrArg (_ :: ·) (essentials_startings ready r.graph)
      rw [hkinds]
      simp only [essence, Phase.stage, Phase.pledges, hresults, hpledges, hcontext, hiteration, hfired]
    · cases hbatch
      rw [hresults, Table.Proper, promises, List.map_map]
      exact hnodup.sublist hengaged.nodes
    · rw [Phase.pledges, hpledges] at hmem
      exact hengaged.pledged p hmem

end Advance

end Run

end Dataflow
