import Dataflow.Proofs.Run.Advances
import Dataflow.Proofs.Run.Iterations
import Dataflow.Proofs.Run.Journal

/-!
# What the steps of a run tell

* `Graph.Rostered` is all that is asked of the graph: each node is stored once, under its identifier;
* `Phase.underway` are the activations that are under way in a phase, and `Phase.Calm` says that there are none;
* `Run.scan` are the nodes that the next iteration begins with, in the order in which they were added, and
  `Run.collectReady_eq` says that the scan finds these;
* `Run.Tells` lists what a step may tell of iterations and activations, and `Run.step_tells` says that every step tells
  one of these.
-/

namespace Dataflow

/-- Each node is stored once, under its identifier. -/
def Graph.Rostered (g : Graph) : Prop :=
  g.Hosts fun _ => True

/-! ### Nodes stay where they are -/

namespace Graph

theorem isSome_node?_setNode {g : Graph} {id : NodeId} (n : Node) (h : (g.node? id).isSome) :
    ((g.setNode n).node? id).isSome := by
  rw [node?_setNode]
  split_ifs
  · rfl
  · exact h

theorem isSome_node?_modifyNode {g : Graph} {id : NodeId} (other : NodeId) (f : Node → Node) (h : (g.node? id).isSome) :
    ((g.modifyNode other f).node? id).isSome := by
  unfold modifyNode
  cases g.node? other with
  | none => exact h
  | some n => exact isSome_node?_setNode _ h

/-- No act removes a node. -/
theorem isSome_node?_enact {g : Graph} {id : NodeId} (act : Act) (h : (g.node? id).isSome) :
    ((g.enact act).node? id).isSome := by
  cases act with
  | prepare | remember | reset => exact isSome_node?_modifyNode _ _ h
  | clear other =>
    change (((g.modifyNode other Node.clearInputs).reindex other).node? id).isSome
    rw [node?_reindex]
    exact isSome_node?_modifyNode _ _ h
  | settle other result =>
    change ((g.settle other result).node? id).isSome
    unfold settle
    cases g.node? other with
    | none => exact h
    | some n =>
      rw [node?_reindex]
      exact isSome_node?_setNode _ h
  | take other =>
    change ((g.take other).node? id).isSome
    unfold take
    cases g.node? other with
    | none => exact h
    | some n => exact isSome_node?_setNode _ h
  | offer o =>
    unfold enact
    dsimp only
    split
    · rename_i hanswer
      unfold answer? at hanswer
      split_ifs at hanswer
      obtain ⟨owner, n, n', s', -, -, -, rfl⟩ := write_eq_ok (Option.some.inj hanswer)
      rw [node?_reindex]
      exact isSome_node?_setNode _ h
    · exact h
  | publish => exact h

theorem isSome_node?_replay {g : Graph} {id : NodeId} (acts : List Act) (h : (g.node? id).isSome) :
    ((g.replay acts).node? id).isSome := by
  induction acts generalizing g with
  | nil => exact h
  | cons act acts ih => exact ih (isSome_node?_enact act h)

/-- The listed nodes are stored under their identifiers, and no two of them are the same. -/
theorem Rostered.nodeList {g : Graph} (hg : g.Rostered) :
    (g.nodeList.map Node.id).Nodup ∧ ∀ n ∈ g.nodeList, g.node? n.id = some n := by
  refine ⟨hg.order.sublist (nodeList_sublist hg), fun n hn => ?_⟩
  obtain ⟨id, -, hid⟩ := List.mem_filterMap.1 hn
  rwa [hg.named hid]

end Graph

/-! ### The phases of a run -/

/-- The activations that are under way. -/
def Phase.underway : Phase → Multiset NodeId
  | .activating batch => batch.pending
  | .relaying relay _ _ => {relay.task.node}
  | _ => 0

/-- Whether activations that were under way may have been given up. -/
def Phase.isForsaken : Phase → Bool
  | .ending outcome => outcome = .cancelled
  | .over result => result.outcome = .cancelled
  | .broken _ => true
  | _ => false

/-- Whether the driver waits for a relay. -/
def Phase.isRelaying : Phase → Bool
  | .relaying .. => true
  | _ => false

/-- No activation is under way, and none has been given up. -/
def Phase.Calm : Phase → Prop
  | .boundary | .parked | .propagating _ | .delaying _ => True
  | .activating batch => batch.pending = []
  | .ending outcome => outcome ≠ .cancelled
  | .relaying .. | .over _ | .broken _ => False

theorem Phase.Calm.eq {p : Phase} (h : p.Calm) :
    p.underway = 0 ∧ p.isForsaken = false ∧ p.isFinal = false ∧ p.isRelaying = false := by
  cases p with
  | activating batch => exact ⟨congrArg _ h, rfl, rfl, rfl⟩
  | ending outcome => exact ⟨rfl, decide_eq_false h, rfl, rfl⟩
  | boundary | parked | propagating | delaying => exact ⟨rfl, rfl, rfl, rfl⟩
  | _ => exact h.elim

/-! ### What deeds publish -/

theorem isPlain_terminalEvent (result : ExecutionResult) : (Executor.terminalEvent result).isPlain = true := by
  unfold Executor.terminalEvent
  cases result.outcome <;> rfl

namespace Deed

/-- Whether a deed publishes plain events only. -/
def isPlain : Deed → Bool
  | .publish kind => kind.isPlain
  | _ => true

theorem plain_voices {d : Deed} (h : d.isPlain = true) (s : ExecutionState) : EventKind.Plain (d.voices s) := by
  intro kind hkind
  cases d with
  | publish k =>
    rw [List.mem_singleton.1 hkind]
    exact h
  | finish result =>
    rcases List.mem_cons.1 hkind with rfl | hkind
    · rfl
    · rw [List.mem_singleton.1 hkind]
      exact isPlain_terminalEvent result
  | call c =>
    obtain ⟨next, -, rfl⟩ := Option.map_eq_some_iff.1 (Option.mem_toList.1 hkind)
    rfl
  | endStep =>
    obtain ⟨next, -, rfl⟩ := Option.map_eq_some_iff.1 (Option.mem_toList.1 hkind)
    rfl
  | takeWake => cases hkind

theorem plain_voicesAll {deeds : List Deed} (h : ∀ d ∈ deeds, d.isPlain = true) (s : ExecutionState) :
    EventKind.Plain (voicesAll s deeds) := by
  induction deeds generalizing s with
  | nil => exact fun _ hkind => absurd hkind List.not_mem_nil
  | cons d rest ih =>
    obtain ⟨hd, hrest⟩ := List.forall_mem_cons.1 h
    intro kind hkind
    exact (List.mem_append.1 hkind).elim (plain_voices hd s kind) (ih hrest _ kind)

theorem voicesAll_append (s : ExecutionState) (deeds deeds' : List Deed) :
    voicesAll s (deeds ++ deeds') = voicesAll s deeds ++ voicesAll (afterAll s deeds) deeds' := by
  induction deeds generalizing s with
  | nil => rfl
  | cons d rest ih =>
    rw [List.cons_append, voicesAll, ih, voicesAll, List.append_assoc]
    rfl

theorem voicesAll_publish (s : ExecutionState) (kinds : List EventKind) : voicesAll s (kinds.map .publish) = kinds := by
  induction kinds with
  | nil => rfl
  | cons kind rest ih => exact congrArg (kind :: ·) ih

end Deed

namespace Run

theorem plain_performed (node : NodeId) (script : Script) (x : Executor) :
    ∀ d ∈ performed node script x, d.isPlain = true := by
  induction script generalizing x with
  | finish | panic | sleep => exact fun _ hd => absurd hd List.not_mem_nil
  | emit event rest ih => exact List.forall_mem_cons.2 ⟨rfl, ih _⟩
  | control c rest ih => exact List.forall_mem_cons.2 ⟨rfl, ih _ _ _⟩
  | log entry rest ih => exact ih _
  | remember memory rest ih => exact ih _

theorem plain_ended (r : Run) : ∀ d ∈ r.ended, d.isPlain = true := by
  unfold ended
  split_ifs
  · exact List.forall_mem_singleton.2 rfl
  · exact fun _ hd => absurd hd List.not_mem_nil

/-- A node that is there tells that its activation has ended. -/
theorem completed_eq {g : Graph} {id : NodeId} (h : (g.node? id).isSome) (result : Except NodeError Output)
    (duration : Nat) : ∃ success error, completed g id result duration = [.nodeCompleted id success error duration] := by
  obtain ⟨n, hn⟩ := Option.isSome_iff_exists.1 h
  unfold completed
  rw [hn]
  dsimp only
  cases (n.complete result g.supply).1 with
  | ok => exact ⟨true, none, rfl⟩
  | error e => exact ⟨false, some e.message, rfl⟩

/-! ### Scanning -/

/-- The events by which the activations of stored nodes begin. -/
theorem startings_eq {ns : List Node} {g : Graph} (hn : (ns.map Node.id).Nodup) (h : ∀ n ∈ ns, g.node? n.id = some n) :
    startings (ns.map Node.id) g = ns.map fun n => .nodeStarted n.id n.typeId := by
  induction ns generalizing g with
  | nil => rfl
  | cons n rest ih =>
    obtain ⟨hnew, hrest⟩ := List.nodup_cons.1 hn
    obtain ⟨hfirst, hothers⟩ := List.forall_mem_cons.1 h
    have hothers' : ∀ m ∈ rest, (g.setNode n.prepare.2).node? m.id = some m := by
      intro m hm
      have hne : n.prepare.2.id ≠ m.id := fun e => hnew (e ▸ List.mem_map_of_mem hm)
      rw [Graph.node?_setNode, if_neg hne]
      exact hothers m hm
    rw [List.map_cons, startings, hfirst]
    exact congrArg (_ :: ·) (ih hrest hothers')

/-- The nodes that the next iteration begins with. -/
def scan (r : Run) : List Node :=
  r.graph.nodeList.filter (joins r.graph r.firedSources)

theorem scan_nodup {r : Run} (hg : r.graph.Rostered) : (r.scan.map Node.id).Nodup :=
  hg.nodeList.1.sublist (List.filter_sublist.map _)

theorem node?_of_mem_scan {r : Run} (hg : r.graph.Rostered) {n : Node} (hn : n ∈ r.scan) : r.graph.node? n.id = some n :=
  hg.nodeList.2 n (List.mem_of_mem_filter hn)

/-! ### What a step may tell -/

/-- How the activation of a relay may go on in one step: the events, and the phase after them. -/
inductive Closes (id : NodeId) : List EventKind → Phase → Prop
  | asleep {kinds : List EventKind} {relay : Sleeper} {depth : Nat} {agenda : Agenda} (hkinds : EventKind.Plain kinds)
      (hnode : relay.task.node = id) : Closes id kinds (.relaying relay depth agenda)
  | broken {kinds : List EventKind} {message : String} (hkinds : EventKind.Plain kinds) : Closes id kinds (.broken message)
  | cancelled : Closes id [] (.ending .cancelled)
  | failed {kinds : List EventKind} {success : Bool} {error : Option String} {duration : Nat} {message : String}
      (hkinds : EventKind.Plain kinds) :
      Closes id (kinds ++ [.nodeCompleted id success error duration]) (.ending (.failed message))
  | settled {kinds : List EventKind} {success : Bool} {error : Option String} {duration : Nat} {agenda : Agenda}
      (hkinds : EventKind.Plain kinds) :
      Closes id (kinds ++ [.nodeCompleted id success error duration]) (.propagating agenda)

/-- What a step from `r` may tell, with the number of iterations and the phase after it. -/
inductive Tells (r : Run) : List EventKind → Nat → Phase → Prop
  /-- No iteration and no activation begins, and none ends. -/
  | plain {kinds : List EventKind} {p : Phase} (hkinds : EventKind.Plain kinds) (hunder : p.underway = r.phase.underway)
      (hforsaken : p.isForsaken = r.phase.isForsaken) (hfinal : p.isFinal = r.phase.isFinal)
      (hover : r.phase.isOver = true → p.isOver = true) (hrelaying : p.isRelaying = true → r.phase.isRelaying = true) :
      Tells r kinds r.iteration p
  /-- The run is cancelled. -/
  | giveUp (hfinal : r.phase.isFinal = false) : Tells r [] r.iteration (.ending .cancelled)
  /-- An iteration begins, with the activations of the nodes that the scan has found. -/
  | begin {batch : Batch} (hp : r.phase = .boundary) (hscan : r.scan ≠ []) (hpending : batch.pending = r.scan.map Node.id) :
      Tells r (.iteration (r.iteration + 1) :: r.scan.map fun n => .nodeStarted n.id n.typeId) (r.iteration + 1)
        (.activating batch)
  /-- An activation has ended. -/
  | settle {batch : Batch} {f : Finished} {rest : List Finished} {success : Bool} {error : Option String} {duration : Nat}
      {settled : List NodeId} {failures : List String} (hp : r.phase = .activating batch)
      (hf : batch.finished = f :: rest) :
      Tells r [.nodeCompleted f.node success error duration] r.iteration
        (.activating { batch with finished := rest, settled, failures })
  /-- A relay is activated. -/
  | relay {agenda : Agenda} {n : Node} {kinds : List EventKind} {p : Phase} (hp : r.phase = .propagating agenda)
      (hn : r.graph.node? n.id = some n) (hcloses : Closes n.id kinds p) :
      Tells r (.nodeStarted n.id n.typeId :: kinds) r.iteration p
  /-- A relay goes on after a wait. -/
  | resume {relay : Sleeper} {depth : Nat} {agenda : Agenda} {kinds : List EventKind} {p : Phase}
      (hp : r.phase = .relaying relay depth agenda) (hcloses : Closes relay.task.node kinds p) : Tells r kinds r.iteration p
  /-- The run is over. -/
  | report {outcome : Outcome} (hp : r.phase = .ending outcome) :
      Tells r [.stateChanged r.executor.state .idle, Executor.terminalEvent (r.summary outcome)] r.iteration
        (.over (r.summary outcome))

/-! ### Every step tells one of these -/

theorem closes_carry {r : Run} (task : Task) (depth : Nat) (agenda : Agenda) (s : ExecutionState)
    (h : (r.graph.node? task.node).isSome) :
    Closes task.node (Deed.voicesAll s (r.carried task task.script)) (r.carry task depth agenda).phase ∧
      (r.carry task depth agenda).iteration = r.iteration := by
  have hplain := Deed.plain_voicesAll (plain_performed task.node task.script r.executor) s
  have hiteration : (perform task.node task.script r).2.iteration = r.iteration := by rw [perform_eq]
  have hpresent : ((perform task.node task.script r).2.graph.node? task.node).isSome := by
    rw [perform_graph]
    exact Graph.isSome_node?_replay _ h
  rw [carried, carry, Deed.voicesAll_append]
  rcases hperf : perform task.node task.script r with ⟨stop, r₁⟩
  rw [hperf] at hiteration hpresent
  cases stop with
  | finished result =>
    obtain ⟨success, error, hcompleted⟩ := completed_eq hpresent result (r₁.now - task.startedAt)
    have hcomplete : (r₁.complete task.node task.startedAt result).2.iteration = r₁.iteration := by rw [complete_eq]
    rw [closing, Deed.voicesAll_publish, hcompleted, afterRelay]
    rcases hc : r₁.complete task.node task.startedAt result with ⟨completed, r₂⟩
    rw [hc] at hcomplete
    cases completed with
    | ok => exact ⟨.settled hplain, hcomplete.trans hiteration⟩
    | error e => exact ⟨.failed hplain, hcomplete.trans hiteration⟩
  | panicked message =>
    rw [closing, Deed.voicesAll, List.append_nil]
    exact ⟨.broken hplain, hiteration⟩
  | asleep ms rest =>
    rw [closing, Deed.voicesAll, List.append_nil]
    exact ⟨.asleep hplain rfl, hiteration⟩

theorem plain_nil : EventKind.Plain [] :=
  fun _ hkind => absurd hkind List.not_mem_nil

/-- A step between activations, which neither begins nor ends one. -/
theorem tells_calm {r : Run} {kinds : List EventKind} {p q : Phase} (hkinds : EventKind.Plain kinds) (hp : r.phase = q)
    (hq : q.Calm) (hover : q.isOver = false) (hcalm : p.Calm) : Tells r kinds r.iteration p := by
  subst hp
  obtain ⟨hunder, hforsaken, hfinal, -⟩ := hq.eq
  obtain ⟨hunder', hforsaken', hfinal', hrelaying⟩ := hcalm.eq
  exact .plain hkinds (hunder'.trans hunder.symm) (hforsaken'.trans hforsaken.symm) (hfinal'.trans hfinal.symm)
    (fun h => absurd (hover.symm.trans h) Bool.false_ne_true) fun h => absurd (hrelaying.symm.trans h) Bool.false_ne_true

theorem tells_begin {r : Run} (hg : r.graph.Rostered) (hp : r.phase = .boundary) :
    Tells r (Deed.voicesAll r.executor.state r.begun) r.beginIteration.iteration r.beginIteration.phase := by
  have hscan : (collectReady r.graph r.graph.nodeList r.firedSources).1 = r.scan.map Node.id :=
    collectReady_eq hg.nodeList.1 r.firedSources
  unfold begun
  rcases hready : collectReady r.graph r.graph.nodeList r.firedSources with ⟨ready, fired⟩
  rw [hready] at hscan
  rw [beginIteration_eq hready]
  dsimp only at hscan ⊢
  split_ifs with hempty
  · exact tells_calm plain_nil hp trivial rfl Outcome.noConfusion
  · have hiteration : (spawn ready 0 (r.opened fired)).2.iteration = r.iteration + 1 := by
      rw [spawn_eq]
      rfl
    have htasks : (spawn ready 0 (r.opened fired)).1.map Task.node = ready := by
      refine spawn_tasks fun id hid => ?_
      rw [hscan] at hid
      obtain ⟨n, hn, rfl⟩ := List.mem_map.1 hid
      rw [show (r.opened fired).graph = r.graph from rfl, node?_of_mem_scan hg hn]
      rfl
    have hkinds : startings ready r.graph = r.scan.map fun n => .nodeStarted n.id n.typeId := by
      rw [hscan]
      exact startings_eq (scan_nodup hg) fun n hn => node?_of_mem_scan hg hn
    rw [Deed.voicesAll_publish, hkinds]
    dsimp only
    rw [hiteration]
    refine .begin hp (fun hnil => ?_) ?_
    · rw [hnil] at hscan
      rw [hscan] at hempty
      exact hempty rfl
    · rw [← hscan]
      simp only [Batch.pending, htasks, List.map_nil, List.append_nil]

theorem tells_settle {r : Run} {batch : Batch} {f : Finished} {rest : List Finished} (hp : r.phase = .activating batch)
    (hf : batch.finished = f :: rest) (hpresent : ∀ id ∈ r.phase.underway, (r.graph.node? id).isSome) :
    Tells r (Deed.voicesAll r.executor.state ((completed r.graph f.node f.result (r.now - f.startedAt)).map .publish))
      (r.settle batch f rest).iteration (r.settle batch f rest).phase := by
  have hnode : (r.graph.node? f.node).isSome := by
    refine hpresent f.node ?_
    rw [hp, Phase.underway, Multiset.mem_coe]
    exact (Batch.pending_settle hf).mem_iff.2 List.mem_cons_self
  obtain ⟨success, error, hcompleted⟩ := completed_eq hnode f.result (r.now - f.startedAt)
  have hiteration : (r.complete f.node f.startedAt f.result).2.iteration = r.iteration := by rw [complete_eq]
  rw [hcompleted, Deed.voicesAll_publish, Run.settle]
  rcases hc : r.complete f.node f.startedAt f.result with ⟨completed, r₁⟩
  rw [hc] at hiteration
  dsimp only at hiteration ⊢
  rw [hiteration]
  exact .settle hp hf

theorem tells_propagate {r : Run} {agenda : Agenda} {id : NodeId} {depth : Nat} (left : Agenda)
    (hp : r.phase = .propagating agenda) :
    Tells r (Deed.voicesAll r.executor.state (if (r.graph.transferOutputs id).transfers.isEmpty then []
      else [.publish (.dataPropagated id (r.graph.transferOutputs id).transfers)]))
      (r.propagateFrom id depth left).iteration (r.propagateFrom id depth left).phase := by
  have hplain : EventKind.Plain (Deed.voicesAll r.executor.state (if (r.graph.transferOutputs id).transfers.isEmpty then []
      else [.publish (.dataPropagated id (r.graph.transferOutputs id).transfers)])) := by
    refine Deed.plain_voicesAll ?_ _
    split_ifs
    · exact fun _ hd => absurd hd List.not_mem_nil
    · exact List.forall_mem_singleton.2 rfl
  have hiteration : (r.propagateFrom id depth left).iteration = r.iteration := by
    unfold propagateFrom
    dsimp only
    split <;> split_ifs <;> rfl
  rw [hiteration, propagateFrom_phase]
  cases (r.graph.transferOutputs id).failure with
  | some error => exact tells_calm hplain hp trivial rfl Outcome.noConfusion
  | none => exact tells_calm hplain hp trivial rfl trivial

theorem Drives.tells {r r' : Run} {acts : List Act} {deeds : List Deed} (h : r.Drives acts deeds r')
    (hg : r.graph.Rostered) (hpresent : ∀ id ∈ r.phase.underway, (r.graph.node? id).isSome) :
    Tells r (Deed.voicesAll r.executor.state deeds) r'.iteration r'.phase := by
  cases h with
  | desist hp | lose hp | leave hp | quit hp => exact .giveUp (by rw [hp]; rfl)
  | begin hp => exact tells_begin hg hp
  | park hp | look hp | rouse hp => exact tells_calm plain_nil hp trivial rfl trivial
  | abandon hp =>
    rw [abandon_eq]
    exact .giveUp (by rw [hp]; rfl)
  | settle hp _ hf => exact tells_settle hp hf hpresent
  | pass hp _ hf hrunnable hasleep =>
    rw [pass_eq]
    exact tells_calm plain_nil hp (by simp [Phase.Calm, Batch.pending, hf, hrunnable, hasleep]) rfl trivial
  | fail hp _ hf hrunnable hasleep =>
    exact tells_calm plain_nil hp (by simp [Phase.Calm, Batch.pending, hf, hrunnable, hasleep]) rfl Outcome.noConfusion
  | move hp => exact tells_propagate ⟨_, _⟩ hp
  | skip hp | next hp | delay hp => exact tells_calm plain_nil hp trivial rfl trivial
  | exceed hp => exact tells_calm plain_nil hp trivial rfl Outcome.noConfusion
  | refuse hp hn =>
    obtain rfl := hg.named hn
    exact .relay hp hn .cancelled
  | @relay _ n depth work origins hp hn =>
    obtain rfl := hg.named hn
    have hnode : ((r.launch n).2.graph.node? n.id).isSome := by
      rw [launch_graph hn]
      exact Graph.isSome_node?_enact _ (Option.isSome_iff_exists.2 ⟨n, hn⟩)
    obtain ⟨hcloses, hiteration⟩ := closes_carry (r.launch n).1 depth ⟨work, origins⟩ r.executor.state hnode
    rw [hiteration]
    exact .relay hp hn hcloses
  | turn hp | elapse hp => exact tells_calm (Deed.plain_voicesAll r.plain_ended _) hp trivial rfl trivial
  | @resume relay depth agenda hp =>
    have hnode : (r.graph.node? relay.task.node).isSome := hpresent _ (by rw [hp]; simp [Phase.underway])
    obtain ⟨hcloses, hiteration⟩ := closes_carry relay.task depth agenda r.executor.state hnode
    rw [hiteration]
    exact .resume hp hcloses
  | report hp => exact .report hp

/-- **Every step tells one of these.** -/
theorem step_tells {r r' : Run} {s : Signal} (hg : r.graph.Rostered)
    (hpresent : ∀ id ∈ r.phase.underway, (r.graph.node? id).isSome) (hapart : r.phase.underway.Nodup)
    (h : r.step? s = some r') : Tells r (r.voices s) r'.iteration r'.phase := by
  have hturned : ∀ {batch batch' : Batch} {kinds : List EventKind}, r.phase = .activating batch → batch.Turned batch' →
      EventKind.Plain kinds → Tells r kinds r.iteration (.activating batch') := by
    intro batch batch' kinds hp ht hkinds
    rw [hp, Phase.underway, Multiset.coe_nodup] at hapart
    refine .plain hkinds ?_ (by rw [hp]; rfl) (by rw [hp]; rfl) (fun h => by rw [hp] at h; cases h) fun h => by cases h
    rw [hp, Phase.underway, Phase.underway, Multiset.coe_eq_coe]
    exact ht.pending hapart
  have hsame : ∀ {kinds : List EventKind}, EventKind.Plain kinds → Tells r kinds r.iteration r.phase := fun hkinds =>
    .plain hkinds rfl rfl rfl id id
  cases s with
  | drive => exact (drives_of_drive? h).tells hg hpresent
  | run node =>
    obtain ⟨batch, task, batch', hp, htask, rfl, ht⟩ := runNode_turned h
    have hvoices : r.voices (.run node) = Deed.voicesAll r.executor.state (performed task.node task.script r.executor) := by
      simp only [voices, deeds, hp, htask]
    rw [hvoices]
    have hiteration : (perform task.node task.script r).2.iteration = r.iteration := by rw [perform_eq]
    dsimp only
    rw [hiteration]
    exact hturned hp ht (Deed.plain_voicesAll (plain_performed _ _ _) _)
  | wake node =>
    obtain ⟨batch, batch', hp, rfl, ht⟩ := wakeNode_turned h
    exact hturned hp ht plain_nil
  | control c =>
    cases h
    exact hsame (Deed.plain_voicesAll (List.forall_mem_singleton.2 rfl) _)
  | pass ms =>
    cases h
    exact hsame plain_nil

end Run

end Dataflow
