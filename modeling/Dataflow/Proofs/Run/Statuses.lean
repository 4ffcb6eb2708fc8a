import Dataflow.Proofs.Run.Marks
import Dataflow.Proofs.Run.Telling
import Dataflow.Proofs.Run.Transfers

/-!
# The statuses of the nodes in a run

* `Graph.Tended` connects the statuses of the nodes with the phase of a run: a node is executing only while its
  activation is under way, and has failed only if the run is not going to complete;
* `Run.tended_step`: every step keeps this.
-/

namespace Dataflow

namespace Graph

theorem isMark_moving (g : Graph) (id : NodeId) : ∀ act ∈ g.moving id, act.isMark = false := by
  obtain ⟨rest, hmoving, hrest⟩ := g.moving_eq id
  rw [hmoving]
  refine List.forall_mem_cons.2 ⟨rfl, fun act hact => ?_⟩
  rcases hrest act hact with ⟨o, -, rfl⟩ | ⟨transfers, rfl⟩ <;> rfl

variable {g : Graph} {k id : NodeId} {result : Except NodeError Output}

/-- What is executing after an activation is settled is another node, and was executing before. -/
theorem executing_of_settle (hg : g.Named) (h : (g.settle k result).status? id = some .executing) :
    k ≠ id ∧ g.status? id = some .executing := by
  rw [status?_settle hg, Option.map_eq_some_iff] at h
  obtain ⟨s, hs, h⟩ := h
  split_ifs at h with he
  · cases hc : g.completion k result <;> rw [hc] at h <;> cases h
  · exact ⟨he, h ▸ hs⟩

/-- What has failed after an activation is settled had failed before, or the activation has failed. -/
theorem failed_of_settle (hg : g.Named) (h : (g.settle k result).status? id = some .failed) :
    g.status? id = some .failed ∨ ∃ e, g.completion k result = .error e := by
  rw [status?_settle hg, Option.map_eq_some_iff] at h
  obtain ⟨s, hs, h⟩ := h
  split_ifs at h with he
  · cases hc : g.completion k result with
    | ok =>
      rw [hc] at h
      cases h
    | error e => exact Or.inr ⟨e, rfl⟩
  · exact Or.inl (h ▸ hs)

end Graph

theorem Run.isMark_memories (node : NodeId) (memories : List Memory) :
    ∀ act ∈ memories.map (Act.remember node), act.isMark = false := by
  intro act hact
  obtain ⟨memory, -, rfl⟩ := List.mem_map.1 hact
  rfl

/-! ### Statuses and phases -/

/-- Whether a run is not going to complete. -/
def Phase.isFlawed : Phase → Bool
  | .activating batch => !batch.failures.isEmpty
  | .ending outcome => outcome ≠ .completed
  | .over result => result.outcome ≠ .completed
  | .broken _ => true
  | _ => false

/-- Whether a relay has taken the driver with it. -/
def Phase.isBroken : Phase → Bool
  | .broken _ => true
  | _ => false

/-- What the statuses of the nodes have to do with the phase of a run. -/
structure Graph.Tended (g : Graph) (p : Phase) : Prop where
  /-- A node is executing only while its activation is under way. -/
  executing : ∀ id ∈ g.order, g.status? id = some .executing → id ∈ p.underway ∨ p.isBroken = true
  /-- A node has failed only if the run is not going to complete. -/
  failed : ∀ id ∈ g.order, g.status? id = some .failed → p.isFlawed = true
  whole : ∀ batch, p = .activating batch → batch.Whole

/-- At most one node is executing, and none has failed. -/
def Graph.Minds (g : Graph) (node : NodeId) : Prop :=
  ∀ id ∈ g.order, g.status? id ≠ some .failed ∧ (g.status? id = some .executing → id = node)

namespace Graph

variable {g : Graph} {p p' : Phase} {acts : List Act}

/-- Where no node is marked, a phase may follow in which as much is under way, and which is as flawed. -/
theorem Tended.keep (h : g.Tended p) (hg : g.Rostered) (hacts : ∀ act ∈ acts, act.isMark = false)
    (hunder : ∀ id ∈ p.underway, id ∈ p'.underway) (hbroken : p.isBroken = true → p'.isBroken = true)
    (hflawed : p.isFlawed = true → p'.isFlawed = true)
    (hwhole : ∀ batch, p' = .activating batch → batch.Whole) :
    (g.replay acts).Tended p' where
  executing id hid hexec := by
    rw [order_replay] at hid
    rw [status?_replay_unmarking hg.isNamed hacts] at hexec
    exact (h.executing id hid hexec).imp (hunder id) hbroken
  failed id hid hfailed := by
    rw [order_replay] at hid
    rw [status?_replay_unmarking hg.isNamed hacts] at hfailed
    exact hflawed (h.failed id hid hfailed)
  whole := hwhole

/-- While no activation is under way and nothing is wrong, no node is executing, and none has failed. -/
theorem Tended.minds (h : g.Tended p) (hunder : p.underway = 0) (hbroken : p.isBroken = false) (hflawed : p.isFlawed = false)
    (node : NodeId) : g.Minds node := by
  refine fun id hid => ⟨fun hfailed => ?_, fun hexec => ?_⟩
  · rw [h.failed id hid hfailed] at hflawed
    cases hflawed
  · rcases h.executing id hid hexec with hmem | hb
    · rw [hunder] at hmem
      exact absurd hmem (Multiset.notMem_zero id)
    · rw [hb] at hbroken
      cases hbroken

theorem Minds.prepare {a : Activation} (h : ∀ node, g.Minds node) (hg : g.Rostered) : (g.enact (.prepare a)).Minds a.node := by
  intro id hid
  rw [(edges_enact g _).1] at hid
  rw [status?_enact hg.isNamed]
  cases hs : g.status? id with
  | none => simp
  | some s =>
    obtain ⟨hfailed, hexec⟩ := h a.node id hid
    rw [hs] at hfailed hexec
    simp only [marked, Option.map_some, Option.some.injEq, ne_eq] at hfailed hexec ⊢
    split_ifs with he
    · exact ⟨not_false, fun _ => he.symm⟩
    · exact ⟨hfailed, hexec⟩

/-! ### One lemma for each kind of step -/

/-- Between activations, and while nothing is wrong. -/
theorem Tended.calm (h : g.Tended p) (hg : g.Rostered) (hcalm : p.Calm) (hflawed : p.isFlawed = false)
    (hacts : ∀ act ∈ acts, act.isMark = false) (hp' : ∀ batch, p' ≠ .activating batch) : (g.replay acts).Tended p' := by
  refine h.keep hg hacts (fun id hid => ?_) (fun hb => ?_) (fun hf => ?_) fun batch hbatch => absurd hbatch (hp' batch)
  · rw [hcalm.eq.1] at hid
    exact absurd hid (Multiset.notMem_zero id)
  · cases p <;> simp [Phase.isBroken, Phase.Calm] at hb hcalm
  · rw [hflawed] at hf
    cases hf

/-- When an iteration begins, only the nodes of its scan become executing. -/
theorem Tended.begin {iteration : Nat} {context : Context} {tasks : List Task} (h : g.Tended .boundary) (hg : g.Rostered)
    (hapart : (tasks.map Task.node).Nodup) :
    (g.replay (Run.preparing iteration context (tasks.map Task.node) g)).Tended
      (.activating ⟨tasks.map Task.node, tasks, [], [], [], []⟩) := by
  have hpending : Batch.pending ⟨tasks.map Task.node, tasks, [], [], [], []⟩ = tasks.map Task.node := by
    simp [Batch.pending]
  refine ⟨fun id hid hexec => Or.inl ?_, fun id hid hfailed => ?_, fun batch hbatch => ?_⟩
  · rw [order_replay] at hid
    rw [Phase.underway, hpending, Multiset.mem_coe]
    rcases status?_preparing hg.isNamed hexec with hbefore | ⟨-, hmem⟩
    · rcases h.executing id hid hbefore with hunder | hb
      · exact absurd hunder (Multiset.notMem_zero id)
      · cases hb
    · exact hmem
  · rw [order_replay] at hid
    rcases status?_preparing hg.isNamed hfailed with hbefore | ⟨hs, -⟩
    · cases h.failed id hid hbefore
    · cases hs
  · cases hbatch
    exact ⟨hapart, by rw [hpending]; rfl⟩

/-- An activation has its turn. -/
theorem Tended.run {batch batch' : Batch} (h : g.Tended (.activating batch)) (hg : g.Rostered) (ht : batch.Turned batch')
    (node : NodeId) (memories : List Memory) : (g.replay (memories.map (.remember node))).Tended (.activating batch') := by
  obtain ⟨hperm, hwhole⟩ := (h.whole batch rfl).turned ht
  refine h.keep hg (Run.isMark_memories node memories) (fun id hid => hperm.mem_iff.2 hid) id (fun hf => ?_) fun b hb => ?_
  · rw [Phase.isFlawed, ht.failures]
    exact hf
  · cases hb
    exact hwhole

/-- An activation that has ended is settled. It leaves a failed node only with a line of failure. -/
theorem Tended.settle {batch : Batch} {f : Finished} {rest : List Finished} {failures : List String}
    (h : g.Tended (.activating batch)) (hg : g.Rostered) (hf : batch.finished = f :: rest)
    (hfailures : failures = [] → batch.failures = [] ∧ g.completion f.node f.result = .ok ()) :
    (g.settle f.node f.result).Tended
      (.activating { batch with finished := rest, failures, settled := batch.settled ++ [f.node] }) := by
  have horder : (g.settle f.node f.result).order = g.order := (edges_enact g (.settle f.node f.result)).1
  refine ⟨fun id hid hexec => Or.inl ?_, fun id hid hfailed => ?_, fun b hb => ?_⟩
  · rw [horder] at hid
    obtain ⟨hother, hexec⟩ := executing_of_settle hg.isNamed hexec
    have hunder := (h.executing id hid hexec).resolve_right Bool.false_ne_true
    rw [Phase.underway, Multiset.mem_coe, (Batch.pending_settle hf).mem_iff] at hunder
    exact (List.mem_cons.1 hunder).resolve_left (Ne.symm hother)
  · rw [horder] at hid
    by_contra hcon
    have hnil : failures = [] := by simpa [Phase.isFlawed] using hcon
    obtain ⟨hbefore, hok⟩ := hfailures hnil
    rcases failed_of_settle hg.isNamed hfailed with hfailed | ⟨e, he⟩
    · have hflawed := h.failed id hid hfailed
      rw [Phase.isFlawed, hbefore] at hflawed
      cases hflawed
    · rw [hok] at he
      cases he
  · cases hb
    exact (h.whole batch rfl).settle hf failures

end Graph

namespace Run

variable {g : Graph} {p : Phase} {acts : List Act}

/-- A relay is executing until its activation has ended. If it has failed, the run fails. -/
theorem Carried.tended {node : NodeId} {depth : Nat} {agenda : Agenda} (h : Carried node depth agenda g acts p) (hg : g.Rostered)
    (hminds : g.Minds node) : (g.replay acts).Tended p := by
  have hmemories := fun memories id => Graph.status?_replay_unmarking hg.isNamed (isMark_memories node memories) id
  have hended : ∀ (memories : List Memory) (result : Except NodeError Output), ∀ id ∈ g.order,
      ((g.replay (memories.map (.remember node))).settle node result).status? id ≠ some .executing ∧
        (((g.replay (memories.map (.remember node))).settle node result).status? id = some .failed →
          ∃ e, (g.replay (memories.map (.remember node))).completion node result = .error e) := by
    intro memories result id hid
    obtain ⟨hfailed, hexec⟩ := hminds id hid
    refine ⟨fun h => ?_, fun h => (Graph.failed_of_settle (hg.replay _).isNamed h).resolve_left fun h => ?_⟩
    · obtain ⟨hother, h⟩ := Graph.executing_of_settle (hg.replay _).isNamed h
      rw [hmemories] at h
      exact hother (hexec h).symm
    · rw [hmemories] at h
      exact hfailed h
  cases h with
  | asleep hnode =>
    refine ⟨fun id hid hexec => ?_, fun id hid hfailed => ?_, fun _ => Phase.noConfusion⟩ <;>
      rw [Graph.order_replay] at hid
    · rw [hmemories] at hexec
      exact Or.inl (by simp [Phase.underway, hnode, (hminds id hid).2 hexec])
    · rw [hmemories] at hfailed
      exact absurd hfailed (hminds id hid).1
  | broken => exact ⟨fun _ _ _ => Or.inr rfl, fun _ _ _ => rfl, fun _ => Phase.noConfusion⟩
  | @failed memories result error =>
    refine ⟨fun id hid hexec => ?_, fun _ _ _ => by simp [Phase.isFlawed], fun _ => Phase.noConfusion⟩
    rw [Graph.order_replay] at hid
    rw [Graph.replay_append] at hexec
    exact absurd hexec (hended memories result id hid).1
  | @settled memories result hok =>
    have hsame : ∀ id, (g.replay (memories.map (.remember node) ++ [.settle node result, .clear node])).status? id =
        ((g.replay (memories.map (.remember node))).settle node result).status? id := by
      intro id
      have hclear : (Act.clear node).isMark = false := rfl
      rw [Graph.replay_append]
      exact Graph.status?_enact_unmarking ((hg.replay _).settle node result).isNamed hclear id
    refine ⟨fun id hid hexec => ?_, fun id hid hfailed => ?_, fun _ => Phase.noConfusion⟩ <;>
      rw [Graph.order_replay] at hid
    · rw [hsame] at hexec
      exact absurd hexec (hended memories result id hid).1
    · rw [hsame] at hfailed
      obtain ⟨e, he⟩ := (hended memories result id hid).2 hfailed
      rw [hok] at he
      cases he

/-- When activations are given up, none of their nodes is left executing. -/
theorem GivesUp.tended {r : Run} {outcome : Outcome} (h : GivesUp r acts outcome) (hg : r.graph.Rostered)
    (ht : r.graph.Tended r.phase) : (r.graph.replay acts).Tended (.ending outcome) := by
  -- What was executing is reset.
  have hreset : ∀ ids : List NodeId, (∀ id ∈ r.phase.underway, id ∈ ids) → r.phase.isBroken = false →
      (r.graph.replay (ids.map .reset)).Tended (.ending .cancelled) := by
    intro ids hids hbroken
    refine ⟨fun id hid hexec => ?_, fun _ _ _ => by simp [Phase.isFlawed], fun _ => Phase.noConfusion⟩
    rw [Graph.order_replay] at hid
    rw [Graph.status?_resets hg.isNamed, Option.map_eq_some_iff] at hexec
    obtain ⟨s, hs, hexec⟩ := hexec
    split_ifs at hexec with hmem
    subst hexec
    rcases ht.executing id hid hs with hunder | hb
    · exact absurd (hids id hunder) hmem
    · rw [hb] at hbroken
      cases hbroken
  -- Nothing is executing, and the run fails.
  have hfail : ∀ {acts : List Act} {error : String}, (∀ act ∈ acts, act.isMark = false) → r.phase.underway = 0 →
      r.phase.isBroken = false → (r.graph.replay acts).Tended (.ending (.failed error)) := by
    intro acts error hacts hunder hbroken
    refine ht.keep hg hacts (fun id hid => ?_) (fun hb => ?_) (fun _ => by simp [Phase.isFlawed]) fun _ =>
      Phase.noConfusion
    · rw [hunder] at hid
      exact absurd hid (Multiset.notMem_zero id)
    · rw [hb] at hbroken
      cases hbroken
  have hnone : ∀ act ∈ ([] : List Act), act.isMark = false := fun _ hact => absurd hact List.not_mem_nil
  cases h with
  | @abandon batch hp =>
    obtain ⟨hapart, hparts⟩ := ht.whole batch hp
    refine hreset _ (fun id hid => ?_) (by rw [hp]; rfl)
    rw [hp, Phase.underway, Multiset.mem_coe] at hid
    have hsettled : id ∉ batch.settled := fun h =>
      List.disjoint_of_nodup_append (hparts.nodup_iff.2 hapart) h hid
    exact List.mem_filter.2 ⟨hparts.mem_iff.1 (List.mem_append_right _ hid), by simpa using hsettled⟩
  | @fail batch hp hpending hfailures =>
    exact hfail hnone (by rw [hp, Phase.underway, hpending]; rfl) (by rw [hp]; rfl)
  | @refuse id depth work origins hp =>
    exact hreset [id] (fun k hk => by rw [hp] at hk; exact absurd hk (Multiset.notMem_zero k)) (by rw [hp]; rfl)
  | @leave relay depth agenda hp =>
    refine hreset [relay.task.node] (fun k hk => ?_) (by rw [hp]; rfl)
    rw [hp] at hk
    exact List.mem_singleton.2 (Multiset.mem_singleton.1 hk)
  | exceed hp => exact hfail hnone (by rw [hp]; rfl) (by rw [hp]; rfl)
  | obstruct hp => exact hfail (Graph.isMark_moving _ _) (by rw [hp]; rfl) (by rw [hp]; rfl)

/-- **Every step keeps the statuses and the phase together.** -/
theorem tended_step {r r' : Run} {s : Signal} (hg : r.graph.Rostered) (h : r.graph.Tended r.phase)
    (hs : r.step? s = some r') : r'.graph.Tended r'.phase := by
  have hm := step_moves hg.isNamed hs
  rw [graph_step hg.isNamed hs]
  generalize r.acts s = acts at hm ⊢
  generalize r'.phase = p at hm ⊢
  have hnone : ∀ act ∈ ([] : List Act), act.isMark = false := fun _ hact => absurd hact List.not_mem_nil
  cases hm with
  | wait => exact h
  | @turn _ hp hp' =>
    refine h.calm hg ?_ ?_ hnone fun batch hq => ?_
    · cases hr : r.phase <;> first | trivial | (rw [hr] at hp; cases hp)
    · cases hr : r.phase <;> first | rfl | (rw [hr] at hp; cases hp)
    · rw [hq] at hp'
      cases hp'
  | @report outcome result hp hresult =>
    rw [hp] at h
    refine h.keep hg hnone (fun id hid => hid) id (fun hf => ?_) fun _ => Phase.noConfusion
    rw [Phase.isFlawed, hresult]
    exact hf
  | @begin ready fired tasks hp hready htasks hsome =>
    rw [hp] at h
    have hsub := sublist_collectReady r.graph r.graph.nodeList r.firedSources
    rw [hready, ← htasks] at hsub
    rw [← htasks]
    exact h.begin hg (hg.nodeList.1.sublist hsub)
  | @run batch batch' node memories hp hready hsettled hfailures hpending =>
    rw [hp] at h
    exact h.run hg ⟨hready, hsettled, hfailures, hpending⟩ node memories
  | settle hp hf hfailures =>
    rw [hp] at h
    exact h.settle hg hf hfailures
  | @pass batch hp hpending hfailures =>
    refine h.calm hg (by rw [hp]; exact hpending) (by rw [hp, Phase.isFlawed, hfailures]; rfl) (fun act hact => ?_) fun _ =>
      Phase.noConfusion
    obtain ⟨id, -, rfl⟩ := List.mem_map.1 hact
    rfl
  | move hp =>
    exact h.calm hg (by rw [hp]; trivial) (by rw [hp]; rfl) (Graph.isMark_moving _ _) fun _ => Phase.noConfusion
  | skip hp | next hp => exact h.calm hg (by rw [hp]; trivial) (by rw [hp]; rfl) hnone fun _ => Phase.noConfusion
  | finish hp hp' =>
    refine h.calm hg (by rw [hp]; trivial) (by rw [hp]; rfl) hnone fun batch hq => ?_
    rw [hq] at hp'
    cases hp'
  | @relay n depth work origins acts p hp hn _ _ hcarry =>
    have hminds := h.minds (by rw [hp]; rfl) (by rw [hp]; rfl) (by rw [hp]; rfl)
    exact hcarry.tended (hg.enact _) (Graph.Minds.prepare (a := n.activation n.prepare.1 r.iteration r.context) hminds hg)
  | @resume relay depth agenda acts p hp hcarry =>
    rw [hp] at h
    refine hcarry.tended hg fun id hid => ⟨fun hfailed => ?_, fun hexec => ?_⟩
    · cases h.failed id hid hfailed
    · exact Multiset.mem_singleton.1 ((h.executing id hid hexec).resolve_right Bool.false_ne_true)
  | giveUp hgives => exact hgives.tended hg h

theorem tended_follow {r r' : Run} {signals : List Signal} (hg : r.graph.Rostered) (h : r.graph.Tended r.phase)
    (hf : r.follow signals = some r') : r'.graph.Rostered ∧ r'.graph.Tended r'.phase := by
  induction signals generalizing r with
  | nil =>
    cases hf
    exact ⟨hg, h⟩
  | cons s rest ih =>
    obtain ⟨r₁, hs, hf⟩ := Option.bind_eq_some_iff.1 hf
    refine ih ?_ (tended_step hg h hs) hf
    rw [graph_step hg.isNamed hs]
    exact hg.replay _

/-- At the start all listed nodes are idle. -/
theorem tended_start {x : Executor} {g : Graph} {context : Context} {mode : StartMode} {now : Nat} {r : Run}
    (hg : g.Rostered) (h : start x g context mode now = .ok r) : r.graph.Rostered ∧ r.graph.Tended r.phase := by
  obtain ⟨hp, hgraph⟩ := start_eq h
  have hdrawn : ({ g with supply := g.supply.draw.2 } : Graph).Rostered := Graph.Hosts.of_eq hg rfl rfl
  have hidle : ∀ id ∈ r.graph.order, ∀ s, r.graph.status? id = some s → s = .idle := by
    intro id hid s hs
    rw [hgraph, Graph.order_replay] at hid
    rw [hgraph, Graph.status?_resets hdrawn.isNamed, Option.map_eq_some_iff] at hs
    obtain ⟨s', -, hs⟩ := hs
    rw [if_pos hid] at hs
    exact hs.symm
  refine ⟨hgraph ▸ hdrawn.replay _, fun id hid hexec => ?_, fun id hid hfailed => ?_, fun batch hbatch => ?_⟩
  · cases hidle id hid _ hexec
  · cases hidle id hid _ hfailed
  · rw [hp] at hbatch
    cases hbatch

end Run

end Dataflow
