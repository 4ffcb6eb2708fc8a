import Dataflow.Proofs.Run.Barrier
import Dataflow.Proofs.Run.Unattended
import Mathlib.Logic.Hydra

/-!
# Failures stop an iteration before data moves

When an activation of an iteration fails, all others are awaited nevertheless, and then the run fails without having
moved any data in the iteration.

* `Script.Yields` says what a script may come to, and `Batch.StemsFrom` that the activations of an iteration come to what
  their scripts yield;
* `Run.launches_step`: what the scan makes of the nodes, and which activations it begins;
* `Run.Stopped` says how far such an iteration has come;
* `Run.Concludes` says that a run comes to its end unless it is cancelled, even if it is paused or resumed on the way;
* `Run.failure_stops_iteration` puts these together.
-/

namespace Dataflow

/-! ### What scripts come to -/

namespace Script

/-- What is left of a script after its first step. -/
inductive Rest : Script → Script → Prop
  | emit (event : NodeEvent) (rest : Script) : Rest rest (.emit event rest)
  | control (call : Control) (rest : Except TransitionError Unit → ExecutionState → Script)
      (answer : Except TransitionError Unit) (s : ExecutionState) : Rest (rest answer s) (.control call rest)
  | log (entry : Value) (rest : Script) : Rest rest (.log entry rest)
  | remember (memory : Memory) (rest : Script) : Rest rest (.remember memory rest)
  | sleep (ms : Nat) (heedsCancel : Bool) (rest : Script) : Rest rest (.sleep ms heedsCancel rest)

/-- No script goes on forever, whatever its calls are answered. -/
theorem wellFounded_rest : WellFounded Rest := by
  refine ⟨fun script => ?_⟩
  induction script with
  | finish | panic => exact ⟨_, fun _ h => by cases h⟩
  | emit _ _ ih | log _ _ ih | remember _ _ ih | sleep _ _ _ ih => exact ⟨_, fun _ h => by cases h; exact ih⟩
  | control _ _ ih => exact ⟨_, fun _ h => by cases h; exact ih _ _⟩

/-- A script may get to another one. -/
def Leads (script script' : Script) : Prop :=
  Relation.ReflTransGen Rest script' script

/-- What a script may come to that is activated with some place in the scan. -/
def Yields (script : Script) (index : Nat) (result : Except NodeError Output) : Prop :=
  script.Leads (.finish result) ∨ ∃ message, script.Leads (.panic message) ∧ result = .error (Run.panicError index message)

theorem Leads.yields {script script' : Script} (h : script.Leads script') {index : Nat} {result : Except NodeError Output}
    (hy : script'.Yields index result) : script.Yields index result :=
  hy.imp (fun h' => h'.trans h) fun ⟨message, h', he⟩ => ⟨message, h'.trans h, he⟩

end Script

/-- An activation that ends leaves the input side of its node alone. -/
theorem Node.inputs_complete (n : Node) (result : Except NodeError Output) (s : Supply) :
    (n.complete result s).2.1.execIn = n.execIn ∧ (n.complete result s).2.1.inputs = n.inputs ∧
      (n.complete result s).2.1.controlInputs = n.controlInputs := by
  have hwrite : ∀ output, (n.writeOutput output s).2.1.execIn = n.execIn ∧
      (n.writeOutput output s).2.1.inputs = n.inputs ∧ (n.writeOutput output s).2.1.controlInputs = n.controlInputs := by
    intro output
    unfold writeOutput
    split
    · exact ⟨rfl, rfl, rfl⟩
    · split
      · exact ⟨rfl, rfl, rfl⟩
      · split <;> exact ⟨rfl, rfl, rfl⟩
  unfold complete
  cases result with
  | error e => exact ⟨rfl, rfl, rfl⟩
  | ok output =>
    have hkept := hwrite output
    dsimp only
    split <;> rename_i heq <;> rw [heq] at hkept <;> exact hkept

namespace Run

/-- A script that goes on gets to its end, or to what is left after a wait. -/
def Stop.EndOf (script : Script) : Stop → Prop
  | .finished result => script.Leads (.finish result)
  | .panicked message => script.Leads (.panic message)
  | .asleep _ rest => Relation.TransGen Script.Rest rest script

theorem Stop.EndOf.after {script rest : Script} {stop : Stop} (h : stop.EndOf rest) (hrest : rest.Rest script) :
    stop.EndOf script := by
  cases stop with
  | finished result => exact Relation.ReflTransGen.tail h hrest
  | panicked message => exact Relation.ReflTransGen.tail h hrest
  | asleep ms left => exact Relation.TransGen.tail h hrest

/-- Unless the run is cancelled by then, a wait is never cut short. -/
theorem endOf_perform (node : NodeId) (script : Script) (r : Run)
    (hc : (perform node script r).2.executor.cancelled = false) : (perform node script r).1.EndOf script := by
  induction script generalizing r with
  | finish | panic => exact .refl
  | emit event rest ih => exact (ih _ hc).after (.emit event rest)
  | control call rest ih => exact (ih _ _ _ hc).after (.control call rest _ _)
  | log entry rest ih => exact (ih _ hc).after (.log entry rest)
  | remember memory rest ih => exact (ih _ hc).after (.remember memory rest)
  | sleep ms heedsCancel rest =>
    rw [perform_sleep] at hc ⊢
    simp only at hc
    rw [hc, Bool.and_false]
    exact .single (.sleep ms heedsCancel rest)

end Run

/-- A run of some number of iterations reports an outcome, or is about to. -/
def Phase.Reports (outcome : Outcome) (count : Nat) (p : Phase) : Prop :=
  p = .ending outcome ∨ ∃ result, p = .over result ∧ result.outcome = outcome ∧ result.iterations = count

/-- The activations of an iteration come to what the scripts yield that they began with. -/
structure Batch.StemsFrom (begins : NodeId → Nat → Script → Prop) (batch : Batch) : Prop where
  runnable : ∀ t ∈ batch.runnable, ∃ script, begins t.node t.index script ∧ script.Leads t.script
  asleep : ∀ s ∈ batch.asleep, ∃ script, begins s.task.node s.task.index script ∧ script.Leads s.task.script
  finished : ∀ f ∈ batch.finished, ∃ index script, begins f.node index script ∧ script.Yields index f.result

namespace Run

section Activating

variable {r r' : Run} {s : Signal} {batch : Batch} {begins : NodeId → Nat → Script → Prop}

/-- An activation that goes on still comes to what its script yields. -/
theorem stems_run {node : NodeId} (hstems : batch.StemsFrom begins) (hp : r.phase = .activating batch)
    (h : r.runNode? node = some r') (hc : r'.executor.cancelled = false) :
    ∃ batch', r'.phase = .activating batch' ∧ batch'.StemsFrom begins := by
  obtain ⟨b, task, hb, htask, rfl⟩ := runNode?_eq_some.1 h
  cases hp.symm.trans hb
  obtain ⟨script, hbegins, hleads⟩ := hstems.runnable task (List.mem_of_find?_eq_some htask)
  have hrunnable : ∀ t ∈ batch.runnable.filter (·.node ≠ node), ∃ script, begins t.node t.index script ∧ script.Leads t.script :=
    fun t ht => hstems.runnable t (List.mem_filter.1 ht).1
  have hend := endOf_perform task.node task.script r hc
  unfold runTask
  rcases hperf : perform task.node task.script r with ⟨stop, r₁⟩
  rw [hperf] at hend
  have hended : ∀ result, script.Yields task.index result → Batch.StemsFrom begins { batch with
      runnable := batch.runnable.filter (·.node ≠ node)
      finished := batch.finished ++ [⟨task.node, task.startedAt, result⟩] } := by
    refine fun result hyields => ⟨hrunnable, hstems.asleep, fun f hf => ?_⟩
    rcases List.mem_append.1 hf with hf | hf
    · exact hstems.finished f hf
    · rw [List.mem_singleton.1 hf]
      exact ⟨task.index, script, hbegins, hyields⟩
  cases stop with
  | finished result => exact ⟨_, rfl, hended result (hleads.yields (Or.inl hend))⟩
  | panicked message => exact ⟨_, rfl, hended _ (hleads.yields (Or.inr ⟨message, hend, rfl⟩))⟩
  | asleep ms rest =>
    refine ⟨_, rfl, hrunnable, fun s hs => ?_, hstems.finished⟩
    rcases List.mem_append.1 hs with hs | hs
    · exact hstems.asleep s hs
    · rw [List.mem_singleton.1 hs]
      exact ⟨script, hbegins, hend.to_reflTransGen.trans hleads⟩

theorem stems_wake {node : NodeId} (hstems : batch.StemsFrom begins) (hp : r.phase = .activating batch)
    (h : r.wakeNode? node = some r') : ∃ batch', r'.phase = .activating batch' ∧ batch'.StemsFrom begins := by
  obtain ⟨b, sleeper, hb, hsleeper, -, rfl⟩ := wakeNode?_eq_some.1 h
  cases hp.symm.trans hb
  refine ⟨_, rfl, fun t ht => ?_, fun s hs => hstems.asleep s (List.mem_filter.1 hs).1, hstems.finished⟩
  rcases List.mem_append.1 ht with ht | ht
  · exact hstems.runnable t ht
  · rw [List.mem_singleton.1 ht]
    exact hstems.asleep sleeper (List.mem_of_find?_eq_some hsleeper)

/-- A step keeps where the activations stem from, and what it settles stems from there as well. -/
theorem stems_step (hg : r.graph.Named) (hstems : batch.StemsFrom begins) (hp : r.phase = .activating batch)
    (h : r.step? s = some r') (hc : r'.executor.cancelled = false) {batch' : Batch} (hp' : r'.phase = .activating batch') :
    batch'.StemsFrom begins ∧
      ∀ v ∈ r.graph.verdicts (r.acts s), ∃ index script, begins v.node index script ∧ script.Yields index v.result := by
  have hc₀ := uncancelled_step h hc
  have hturned : (∃ b, r'.phase = .activating b ∧ b.StemsFrom begins) → batch'.StemsFrom begins := by
    rintro ⟨b, hb, hstems'⟩
    cases hp'.symm.trans hb
    exact hstems'
  have hnone : ∀ v ∈ r.graph.verdicts [], ∃ index script, begins v.node index script ∧ script.Yields index v.result :=
    fun _ hv => absurd hv List.not_mem_nil
  cases s with
  | drive =>
    simp only [step?, drive?, hp, whileActivating?, hc₀, Bool.false_eq_true, if_false] at h
    cases hf : batch.finished with
    | cons f rest =>
      simp only [hf, Option.some.injEq] at h
      subst h
      have hacts : r.acts .drive = [.settle f.node f.result] := by
        simp only [acts, driving, hp, hc₀, Bool.false_eq_true, if_false, hf]
      have hfinished := hstems.finished
      rw [hf] at hfinished
      obtain ⟨hfirst, hrest⟩ := List.forall_mem_cons.1 hfinished
      cases hp'.symm.trans (settle_phase hg batch f rest)
      rw [hacts]
      exact ⟨⟨hstems.runnable, hstems.asleep, hrest⟩, List.forall_mem_singleton.2 hfirst⟩
    | nil =>
      simp only [hf] at h
      split_ifs at h
      have hleft := r.isActivating_passBarrier batch
      rw [Option.some.inj h, hp'] at hleft
      cases hleft
  | run node =>
    obtain ⟨task, htask⟩ : ∃ task, batch.runnable.find? (·.node = node) = some task := by
      obtain ⟨b, task, hb, htask, -⟩ := runNode?_eq_some.1 h
      cases hp.symm.trans hb
      exact ⟨task, htask⟩
    obtain ⟨memories, hacts⟩ := performing_eq task.node task.script r
    refine ⟨hturned (stems_run hstems hp h hc), ?_⟩
    rw [show r.acts (.run node) = performing task.node task.script r by simp only [acts, hp, htask], hacts,
      Graph.verdicts_memories]
    exact fun _ hv => absurd hv List.not_mem_nil
  | wake node => exact ⟨hturned (stems_wake hstems hp h), hnone⟩
  | control c =>
    cases h
    cases hp.symm.trans hp'
    exact ⟨hstems, hnone⟩
  | pass ms =>
    cases h
    cases hp.symm.trans hp'
    exact ⟨hstems, hnone⟩

theorem Through.stems {signals : List Signal} (hg : r.graph.Named) (hstems : batch.StemsFrom begins)
    (hp : r.phase = .activating batch) (h : r.Through Phase.isActivating signals r') (hc : r'.executor.cancelled = false)
    (hp' : r'.phase.isActivating = true) :
    ∀ v ∈ r.graph.verdicts (r.trail signals), ∃ index script, begins v.node index script ∧ script.Yields index v.result := by
  induction h generalizing batch with
  | done => exact fun _ hv => absurd hv List.not_mem_nil
  | @step r r₁ r' s rest _ hs h ih =>
    have hgraph := graph_step hg hs
    have hc₁ := uncancelled_follow h.follow hc
    have hunder : r₁.phase.isActivating = true := by
      cases h with
      | done => exact hp'
      | step hp₁ => exact hp₁
    obtain ⟨batch₁, hp₁⟩ := Phase.isActivating_iff.1 hunder
    obtain ⟨hstems₁, hfirst⟩ := stems_step hg hstems hp hs hc₁ hp₁
    have hrest := ih (hgraph ▸ hg.replay _) hstems₁ hp₁ hc hp'
    rw [hgraph] at hrest
    rw [trail, hs, Option.elim_some, Graph.verdicts_append]
    exact List.forall_mem_append.2 ⟨hfirst, hrest⟩

end Activating

/-! ### The scan -/

/-- The script that an activation begins with whose node has a place in the scan of the next iteration. -/
def Begins (r : Run) (ready : List NodeId) (id : NodeId) (index : Nat) (script : Script) : Prop :=
  ready[index]? = some id ∧ ∃ n, r.graph.node? id = some n ∧
    script = n.behavior.activate (n.activation n.prepare.1 (r.iteration + 1) r.context) n.memory

/-- The activations that begin have the places of their nodes. -/
theorem spawn_begins {ids : List NodeId} {index : Nat} {r : Run} (hg : r.graph.Named) (hn : ids.Nodup)
    (hpresent : ∀ id ∈ ids, (r.graph.node? id).isSome) :
    ∀ t ∈ (spawn ids index r).1, ∃ place n, t.index = index + place ∧ ids[place]? = some t.node ∧
      r.graph.node? t.node = some n ∧
        t.script = n.behavior.activate (n.activation n.prepare.1 r.iteration r.context) n.memory := by
  induction ids generalizing index r with
  | nil => exact fun _ ht => absurd ht List.not_mem_nil
  | cons id rest ih =>
    obtain ⟨hnew, hrest⟩ := List.nodup_cons.1 hn
    obtain ⟨hfirst, hothers⟩ := List.forall_mem_cons.1 hpresent
    obtain ⟨n, hnode⟩ := Option.isSome_iff_exists.1 hfirst
    obtain rfl := hg id n hnode
    have hsame : ∀ other ∈ rest, (r.graph.setNode n.prepare.2).node? other = r.graph.node? other := by
      intro other hmem
      rw [Graph.node?_setNode, if_neg]
      exact fun e => hnew (e ▸ hmem)
    simp only [spawn, hnode]
    refine List.forall_mem_cons.2 ⟨⟨0, n, rfl, rfl, hnode, rfl⟩, fun t ht => ?_⟩
    obtain ⟨place, m, hindex, hplace, hm, hscript⟩ :=
      ih (r := (r.prepare n).2.publish (.nodeStarted n.id n.typeId)) (hg.setNode _) hrest
        (fun other hmem => by
          change ((r.graph.setNode n.prepare.2).node? other).isSome
          rw [hsame other hmem]
          exact hothers other hmem) t ht
    refine ⟨place + 1, m, by omega, hplace, ?_, hscript⟩
    change (r.graph.setNode n.prepare.2).node? t.node = some m at hm
    rwa [hsame _ (List.mem_of_getElem? hplace)] at hm

theorem node?_preparing {iteration : Nat} {context : Context} {ids : List NodeId} {g : Graph} (hg : g.Named)
    (hn : ids.Nodup) (id : NodeId) : (g.replay (preparing iteration context ids g)).node? id =
      if id ∈ ids then (g.node? id).map fun n => n.prepare.2 else g.node? id := by
  induction ids generalizing g with
  | nil => rfl
  | cons k rest ih =>
    obtain ⟨hnew, hrest⟩ := List.nodup_cons.1 hn
    unfold preparing
    cases hk : g.node? k with
    | none =>
      dsimp only
      rw [ih hg hrest]
      by_cases he : id = k
      · subst he
        simp [hk]
      · simp [he]
    | some n =>
      obtain rfl := hg k n hk
      have henact : g.enact (.prepare (n.activation n.prepare.1 iteration context)) = g.setNode n.prepare.2 := by
        rw [Graph.enact, show (n.activation n.prepare.1 iteration context).node = n.id from rfl,
          Graph.modifyNode_of_some hk]
        rfl
      dsimp only
      rw [Graph.replay_cons, henact, ih (hg.setNode _) hrest, Graph.node?_setNode]
      have hid : n.prepare.2.id = n.id := rfl
      by_cases he : id = n.id
      · subst he
        simp [hid, hnew, hk]
      · simp [hid, he, Ne.symm he]

section Begin

variable {r r₀ : Run} {batch : Batch}

/-- What the beginning of an iteration makes of the nodes, and which activations are under way then. -/
structure Launches (r r₀ : Run) (batch : Batch) : Prop where
  apart : batch.ready.Nodup
  present : ∀ id ∈ batch.ready, (r.graph.node? id).isSome
  pending : batch.pending = batch.ready
  failures : batch.failures = []
  stems : batch.StemsFrom (r.Begins batch.ready)
  iteration : r₀.iteration = r.iteration + 1
  graph : r₀.graph = r.graph.replay (preparing (r.iteration + 1) r.context batch.ready r.graph)
  still : ∀ kind ∈ r.voices .drive, kind.isTransfer = false

/-- The events by which activations begin. -/
theorem mem_startings {ids : List NodeId} {g : Graph} {kind : EventKind} (h : kind ∈ startings ids g) :
    ∃ id typeId, kind = .nodeStarted id typeId := by
  induction ids generalizing g with
  | nil => exact absurd h List.not_mem_nil
  | cons id rest ih =>
    unfold startings at h
    split at h
    · exact ih h
    · rename_i n _
      rcases List.mem_cons.1 h with rfl | h
      · exact ⟨id, n.typeId, rfl⟩
      · exact ih h

/-- A scan that finds nodes begins their activations. -/
theorem launches_begin (hg : r.graph.Identified) (hp₀ : r.beginIteration.phase = .activating batch) :
    batch.ready.Nodup ∧ (∀ id ∈ batch.ready, (r.graph.node? id).isSome) ∧ batch.pending = batch.ready ∧
      batch.failures = [] ∧ batch.StemsFrom (r.Begins batch.ready) ∧ r.beginIteration.iteration = r.iteration + 1 ∧
      r.beginIteration.graph = r.graph.replay (preparing (r.iteration + 1) r.context batch.ready r.graph) := by
  have hnodup := nodup_collectReady hg r.firedSources
  have hgraph := r.beginIteration_graph hg.isNamed
  have hpresent : ∀ id ∈ (collectReady r.graph r.graph.nodeList r.firedSources).1, (r.graph.node? id).isSome := by
    intro id hid
    obtain ⟨n, hn, rfl⟩ := mem_collectReady hid
    rw [(Graph.mem_nodeList hg).1 hn]
    rfl
  rcases hready : collectReady r.graph r.graph.nodeList r.firedSources with ⟨ready, fired⟩
  rw [hready] at hnodup hgraph hpresent
  dsimp only at hnodup hgraph hpresent
  rw [hgraph]
  rw [beginIteration_eq hready] at hp₀ ⊢
  by_cases hempty : ready.isEmpty = true
  · rw [if_pos hempty] at hp₀
    cases hp₀
  · rw [if_neg hempty] at hp₀ ⊢
    cases hp₀
    have htasks : (spawn ready 0 (r.opened fired)).1.map Task.node = ready := spawn_tasks hpresent
    refine ⟨hnodup, hpresent, ?_, rfl, ⟨fun t ht => ?_, fun _ hs => absurd hs List.not_mem_nil,
      fun _ hf => absurd hf List.not_mem_nil⟩, ?_, rfl⟩
    · simp only [Batch.pending, htasks, List.map_nil, List.append_nil]
    · obtain ⟨place, n, hindex, hplace, hn, hscript⟩ :=
        spawn_begins (r := r.opened fired) hg.isNamed hnodup hpresent t ht
      rw [Nat.zero_add] at hindex
      exact ⟨t.script, ⟨hindex ▸ hplace, n, hn, hscript⟩, .refl⟩
    · rw [spawn_eq]
      rfl

/-- The step by which an iteration begins. -/
theorem launches_step (hg : r.graph.Identified) (hp : r.phase = .boundary) (h : r.step? .drive = some r₀)
    (hp₀ : r₀.phase = .activating batch) : r.Launches r₀ batch := by
  have hbegun : ∀ kind ∈ Deed.voicesAll r.executor.state r.begun, kind.isTransfer = false := by
    refine fun kind hkind => (voices_untold (fun kind hmem => ?_) kind hkind).2
    unfold begun at hmem
    dsimp only at hmem
    split_ifs at hmem
    · exact absurd hmem List.not_mem_nil
    · rw [List.mem_map] at hmem
      obtain ⟨k, hk, he⟩ := hmem
      cases he
      rcases List.mem_cons.1 hk with rfl | hk
      · exact ⟨rfl, rfl⟩
      · obtain ⟨id, typeId, rfl⟩ := mem_startings hk
        exact ⟨rfl, rfl⟩
  have hlaunches : r.voices .drive = Deed.voicesAll r.executor.state r.begun → r.beginIteration.phase = .activating batch →
      r.Launches r.beginIteration batch := by
    intro hvoices hphase
    obtain ⟨hapart, hpresent, hpending, hfailures, hstems, hiteration, hgraph⟩ := launches_begin hg hphase
    exact ⟨hapart, hpresent, hpending, hfailures, hstems, hiteration, hgraph, hvoices ▸ hbegun⟩
  simp only [step?, drive?, hp, Option.some.injEq] at h
  unfold atBoundary at h
  by_cases hc : r.executor.cancelled = true
  · rw [if_pos hc] at h
    subst h
    cases hp₀
  · rw [if_neg hc] at h
    cases hs : r.executor.state with
    | running | stepping =>
      rw [hs] at h
      subst h
      exact hlaunches (by simp only [voices, deeds, driven, hp, hc, if_false, hs, Bool.false_eq_true]) hp₀
    | paused | idle =>
      rw [hs] at h
      subst h
      cases hp₀

end Begin

/-! ### After the barrier -/

/-- A run that reports an outcome leaves the graph alone, and tells of no transfer. -/
theorem reports_step {r r' : Run} {s : Signal} {outcome : Outcome} (hp : r.phase.Reports outcome r.iteration)
    (h : r.step? s = some r') : r'.phase.Reports outcome r.iteration ∧ r'.graph = r.graph ∧ r'.iteration = r.iteration ∧
      ∀ kind ∈ r.voices s, kind.isTransfer = false := by
  have hquiet : ∀ deeds : List Deed, (∀ kind, .publish kind ∉ deeds) →
      ∀ kind ∈ Deed.voicesAll r.executor.state deeds, kind.isTransfer = false :=
    fun deeds hdeeds kind hkind => (voices_untold (fun kind hmem => absurd hmem (hdeeds kind)) kind hkind).2
  cases s with
  | drive =>
    rcases hp with hp | ⟨result, hp, -⟩
    · simp only [step?, drive?, hp, Option.some.injEq] at h
      subst h
      refine ⟨Or.inr ⟨_, rfl, rfl, rfl⟩, rfl, rfl, ?_⟩
      simp only [voices, deeds, driven, hp]
      exact hquiet _ (by simp)
    · simp only [step?, drive?, hp, reduceCtorEq] at h
  | run node =>
    obtain ⟨batch, task, hphase, -⟩ := runNode?_eq_some.1 h
    rcases hp with hp | ⟨result, hp, -⟩ <;> cases hp.symm.trans hphase
  | wake node =>
    obtain ⟨batch, sleeper, hphase, -⟩ := wakeNode?_eq_some.1 h
    rcases hp with hp | ⟨result, hp, -⟩ <;> cases hp.symm.trans hphase
  | control c =>
    cases h
    exact ⟨hp, rfl, rfl, hquiet [.call c] (by simp)⟩
  | pass ms =>
    cases h
    exact ⟨hp, rfl, rfl, hquiet [] (by simp)⟩

theorem reports_follow {r r' : Run} {signals : List Signal} {outcome : Outcome} (hp : r.phase.Reports outcome r.iteration)
    (h : r.follow signals = some r') : r'.phase.Reports outcome r.iteration ∧ r'.graph = r.graph ∧ r'.iteration = r.iteration ∧
      ∀ kind ∈ r.events signals, kind.isTransfer = false := by
  induction signals generalizing r with
  | nil =>
    cases h
    exact ⟨hp, rfl, rfl, fun _ hk => absurd hk List.not_mem_nil⟩
  | cons s rest ih =>
    obtain ⟨r₁, hs, h⟩ := Option.bind_eq_some_iff.1 h
    obtain ⟨hp₁, hgraph₁, hiteration₁, hvoices⟩ := reports_step hp hs
    rw [← hiteration₁] at hp₁
    obtain ⟨hp', hgraph, hiteration, hevents⟩ := ih hp₁ h
    refine ⟨hiteration₁ ▸ hp', hgraph.trans hgraph₁, hiteration.trans hiteration₁, ?_⟩
    rw [events, hs, Option.elim_some]
    exact List.forall_mem_append.2 ⟨hvoices, hevents⟩

end Run

/-! ### Every iteration comes to its barrier -/

/-- What is left of the activations of an iteration that have not ended. One that sleeps is further from its end than one
that can go on. -/
def Batch.rests (batch : Batch) : Multiset (Script × Nat) :=
  ↑(batch.runnable.map fun t => (t.script, 1)) + ↑(batch.asleep.map fun s => (s.task.script, 2))

/-- Less is left of one activation, or one more is settled. -/
def Batch.Closer (batch' batch : Batch) : Prop :=
  Prod.Lex (Relation.CutExpand (Prod.Lex (Relation.TransGen Script.Rest) (· < ·))) (· < ·)
    (batch'.rests, batch'.finished.length) (batch.rests, batch.finished.length)

theorem Batch.wellFounded_closer : WellFounded Closer :=
  InvImage.wf _ (WellFounded.prod_lex
    (WellFounded.prod_lex Script.wellFounded_rest.transGen Nat.lt_wfRel.wf).cutExpand Nat.lt_wfRel.wf)

/-- An activation that can go on is taken out. -/
theorem Batch.rests_runnable {batch : Batch} {node : NodeId} {task : Task} (hn : batch.pending.Nodup)
    (h : batch.runnable.find? (·.node = node) = some task) :
    ({ batch with runnable := batch.runnable.filter (·.node ≠ node) } : Batch).rests + {(task.script, 1)} = batch.rests := by
  have hrunnable : (batch.runnable.map Task.node).Nodup :=
    (List.nodup_append'.1 (List.nodup_append'.1 hn).1).1
  obtain ⟨-, hperm⟩ := Run.perm_of_find? Task.node hrunnable h
  have hrests := Multiset.coe_eq_coe.2 (hperm.map fun t : Task => (t.script, 1))
  rw [List.map_cons, ← Multiset.cons_coe, ← Multiset.singleton_add] at hrests
  unfold rests
  rw [← hrests, add_comm, ← add_assoc]

/-- An activation that sleeps is taken out. -/
theorem Batch.rests_asleep {batch : Batch} {node : NodeId} {sleeper : Sleeper} (hn : batch.pending.Nodup)
    (h : batch.asleep.find? (·.task.node = node) = some sleeper) :
    ({ batch with asleep := batch.asleep.filter (·.task.node ≠ node) } : Batch).rests + {(sleeper.task.script, 2)} =
      batch.rests := by
  have hasleep : (batch.asleep.map fun s => s.task.node).Nodup :=
    (List.nodup_append'.1 (List.nodup_append'.1 hn).1).2.1
  obtain ⟨-, hperm⟩ := Run.perm_of_find? (fun s : Sleeper => s.task.node) hasleep h
  have hrests := Multiset.coe_eq_coe.2 (hperm.map fun s : Sleeper => (s.task.script, 2))
  rw [List.map_cons, ← Multiset.cons_coe, ← Multiset.singleton_add] at hrests
  unfold rests
  rw [← hrests, add_assoc, add_comm {(sleeper.task.script, 2)}]

namespace Run

section Closer

variable {r r' : Run} {batch batch' : Batch} {node : NodeId}

theorem closer_run (hn : batch.pending.Nodup) (hp : r.phase = .activating batch) (h : r.runNode? node = some r')
    (hc : r'.executor.cancelled = false) (hp' : r'.phase = .activating batch') : batch'.Closer batch := by
  obtain ⟨b, task, hb, htask, rfl⟩ := runNode?_eq_some.1 h
  cases hp.symm.trans hb
  have hend := endOf_perform task.node task.script r hc
  have hrests := Batch.rests_runnable hn htask
  unfold runTask at hp'
  rcases hperf : perform task.node task.script r with ⟨stop, r₁⟩
  rw [hperf] at hend hp'
  cases stop with
  | finished result =>
    cases hp'
    exact Prod.Lex.left _ _ ⟨0, (task.script, 1), by simp, by rw [add_zero]; exact hrests⟩
  | panicked message =>
    cases hp'
    exact Prod.Lex.left _ _ ⟨0, (task.script, 1), by simp, by rw [add_zero]; exact hrests⟩
  | asleep ms rest =>
    cases hp'
    refine Prod.Lex.left _ _ ⟨{(rest, 2)}, (task.script, 1), fun a ha => ?_, ?_⟩
    · rw [Multiset.mem_singleton.1 ha]
      exact Prod.Lex.left _ _ hend
    · rw [← hrests]
      simp only [Batch.rests, List.map_append, List.map_cons, List.map_nil, ← Multiset.coe_add, Multiset.coe_singleton]
      abel

theorem closer_wake (hn : batch.pending.Nodup) (hp : r.phase = .activating batch) (h : r.wakeNode? node = some r')
    (hp' : r'.phase = .activating batch') : batch'.Closer batch := by
  obtain ⟨b, sleeper, hb, hsleeper, -, rfl⟩ := wakeNode?_eq_some.1 h
  cases hp.symm.trans hb
  have hrests := Batch.rests_asleep hn hsleeper
  cases hp'
  refine Prod.Lex.left _ _ ⟨{(sleeper.task.script, 1)}, (sleeper.task.script, 2), fun a ha => ?_, ?_⟩
  · rw [Multiset.mem_singleton.1 ha]
    exact Prod.Lex.right _ (by decide)
  · rw [← hrests]
    simp only [Batch.rests, List.map_append, List.map_cons, List.map_nil, ← Multiset.coe_add, Multiset.coe_singleton]
    abel

/-- Every step by which an iteration goes on brings it closer to its barrier. -/
theorem closer_step {s : Signal} (hg : r.graph.Named) (hn : batch.pending.Nodup) (hp : r.phase = .activating batch)
    (hs : s.goesOn = true) (h : r.step? s = some r') (hc : r'.executor.cancelled = false)
    (hp' : r'.phase = .activating batch') : batch'.Closer batch := by
  have hc₀ := uncancelled_step h hc
  cases s with
  | drive =>
    simp only [step?, drive?, hp, whileActivating?, hc₀, Bool.false_eq_true, if_false] at h
    cases hf : batch.finished with
    | cons f rest =>
      simp only [hf, Option.some.injEq] at h
      subst h
      cases hp'.symm.trans (settle_phase hg batch f rest)
      have hless : rest.length < batch.finished.length := by rw [hf]; exact Nat.lt_succ_self _
      exact Prod.Lex.right _ hless
    | nil =>
      simp only [hf] at h
      split_ifs at h
      have hleft := r.isActivating_passBarrier batch
      rw [Option.some.inj h, hp'] at hleft
      cases hleft
  | run node => exact closer_run hn hp h hc hp'
  | wake node => exact closer_wake hn hp h hp'
  | control | pass => cases hs

end Closer

/-- Unless it is cancelled, the run comes to its end with a report of some kind, after finitely many steps. Calls may
arrive and time may pass before each of them. Until the end, there always is a step that can come after some time, and can
still come later. -/
inductive Concludes (P : ExecutionResult → Prop) : Run → Prop
  | over {r : Run} {result : ExecutionResult} (hp : r.phase = .over result) (h : P result) : Concludes P r
  | onward {r : Run} (hcan : ∃ s, s.goesOn = true ∧ ∃ ms₀, ∀ ms ≥ ms₀, ((r.wait ms).step? s).isSome)
      (hall : ∀ idle r₁ s r', (∀ t ∈ idle, t.goesOn = false) → r.follow idle = some r₁ → s.goesOn = true →
        r₁.step? s = some r' → r'.executor.cancelled = false → Concludes P r') : Concludes P r

/-- Calls and the passing of time leave a run where it is. -/
theorem follow_idle {r r' : Run} {idle : List Signal} (hidle : ∀ t ∈ idle, t.goesOn = false)
    (h : r.follow idle = some r') : r'.phase = r.phase ∧ r'.graph = r.graph ∧ r'.iteration = r.iteration := by
  induction idle generalizing r with
  | nil =>
    cases h
    exact ⟨rfl, rfl, rfl⟩
  | cons s rest ih =>
    obtain ⟨hs, hrest⟩ := List.forall_mem_cons.1 hidle
    obtain ⟨r₁, hstep, h⟩ := Option.bind_eq_some_iff.1 h
    obtain ⟨hphase, hgraph, hiteration⟩ := ih hrest h
    rw [hphase, hgraph, hiteration]
    cases s with
    | control c => cases hstep; exact ⟨rfl, rfl, rfl⟩
    | pass ms => cases hstep; exact ⟨rfl, rfl, rfl⟩
    | drive | run | wake => cases hs

/-- A run that reports an outcome concludes with it. -/
theorem concludes_of_reports {r : Run} {outcome : Outcome} {P : ExecutionResult → Prop}
    (hp : r.phase.Reports outcome r.iteration)
    (hP : ∀ result : ExecutionResult, result.outcome = outcome → result.iterations = r.iteration → P result) :
    r.Concludes P := by
  rcases hp with hp | ⟨result, hp, ho, hcount⟩
  · refine .onward ⟨.drive, rfl, 0, fun ms _ => by simp [step?, drive?, Run.wait, hp]⟩ fun idle r₁ s r' hidle hf hs hstep _ => ?_
    obtain ⟨hphase, -, hiteration⟩ := follow_idle hidle hf
    rw [hp] at hphase
    cases s with
    | drive =>
      simp only [step?, drive?, hphase, Option.some.injEq] at hstep
      subst hstep
      exact .over rfl (hP _ rfl hiteration)
    | run node =>
      obtain ⟨batch, task, hb, -⟩ := runNode?_eq_some.1 hstep
      cases hphase.symm.trans hb
    | wake node =>
      obtain ⟨batch, sleeper, hb, -⟩ := wakeNode?_eq_some.1 hstep
      cases hphase.symm.trans hb
    | control | pass => cases hs
  · exact .over hp (hP result ho hcount)

/-- An iteration in which an activation has failed comes to its barrier, and then the run fails. -/
theorem concludes_of_failures {r : Run} {batch : Batch} (hg : r.graph.Identified) (hp : r.phase = .activating batch)
    (hn : batch.pending.Nodup) (hfailures : batch.failures ≠ []) :
    r.Concludes fun result => (∃ error, result.outcome = .failed error) ∧ result.iterations = r.iteration := by
  induction batch using Batch.wellFounded_closer.induction generalizing r with
  | h batch ih =>
    refine .onward (can_go_on_activating hp) fun idle r₁ s r' hidle hf hs hstep hc => ?_
    obtain ⟨hphase, hgraph, hiteration⟩ := follow_idle hidle hf
    rw [hp] at hphase
    have hg₁ : r₁.graph.Identified := hgraph ▸ hg
    have hsteady : r'.iteration = r.iteration :=
      (steady_step (by rw [hphase]; exact Phase.noConfusion) hstep).iteration.trans hiteration
    rcases activating_step hg₁.isNamed hphase (uncancelled_step hstep hc) hstep with
      ⟨batch', hp', hsettles⟩ | ⟨-, -, rfl⟩
    · have hn' : batch'.pending.Nodup :=
        (List.nodup_append'.1 ((hsettles.pending hn).nodup_iff.2 hn)).2.1
      have hfailures' : batch'.failures ≠ [] := by
        rw [hsettles.failures]
        exact fun hnil => hfailures (List.append_eq_nil_iff.1 hnil).1
      have hg' : r'.graph.Identified := graph_step hg₁.isNamed hstep ▸ hg₁.replay _
      have hrest := ih batch' (closer_step hg₁.isNamed hn hphase hs hstep hc hp') hg' hp' hn' hfailures'
      rwa [hsteady] at hrest
    · have hending : (r₁.passBarrier batch).phase = .ending (.failed ("; ".intercalate batch.failures)) := by
        rw [passBarrier_phase, if_neg hfailures]
      exact concludes_of_reports (Or.inl hending) fun result ho hcount => ⟨⟨_, ho⟩, hcount.trans hsteady⟩

/-! ### How far such an iteration comes -/

/-- How far an iteration has come whose nodes were scanned in `r`, as long as no output was moved. -/
structure Stopped (r : Run) (ready : List NodeId) (verdicts : List Verdict) (pending : List NodeId) (g : Graph) : Prop where
  /-- Every activation of the scan is settled once, or still awaited. -/
  apart : ready.Nodup
  parts : (verdicts.map Verdict.node ++ pending).Perm ready
  /-- What an activation comes to is settled in its own node. -/
  settled : ∀ v ∈ verdicts, ∃ index script n memory s, r.Begins ready v.node index script ∧ script.Yields index v.result ∧
    r.graph.node? v.node = some n ∧ v.answer = (({ n.prepare.2 with memory } : Node).complete v.result s).1 ∧
      g.node? v.node = some (({ n.prepare.2 with memory } : Node).complete v.result s).2.1
  /-- The inputs of the nodes of the scan count as read, and that is all that changes on any input side. -/
  inputs : ∀ id n, r.graph.node? id = some n → ∃ n', g.node? id = some n' ∧ (id ∉ ready → n' = n) ∧
    (id ∈ ready → n'.execIn = n.execIn.read.2 ∧ n'.inputs = Keyed.mapValues (fun p => p.read.2) n.inputs ∧
      n'.controlInputs = n.controlInputs)

section Stopped

variable {r r₀ r' : Run} {batch : Batch} {verdicts : List Verdict} {pending : List NodeId} {g : Graph}

/-- What is settled after the scan of `r`, seen from before the scan. -/
theorem Launches.stopped (hl : r.Launches r₀ batch) (hg : r.graph.Named) (hb : r₀.graph.Bears verdicts pending g)
    (hparts : (verdicts.map Verdict.node ++ pending).Perm batch.ready)
    (hstems : ∀ v ∈ verdicts, ∃ index script, r.Begins batch.ready v.node index script ∧ script.Yields index v.result) :
    r.Stopped batch.ready verdicts pending g := by
  have hnode : ∀ id ∈ batch.ready, ∀ n, r.graph.node? id = some n → r₀.graph.node? id = some n.prepare.2 := by
    intro id hid n hn
    rw [hl.graph, node?_preparing hg hl.apart, if_pos hid, hn]
    rfl
  refine ⟨hl.apart, hparts, fun v hv => ?_, fun id n hn => ?_⟩
  · have hid : v.node ∈ batch.ready := hparts.mem_iff.1 (List.mem_append_left _ (List.mem_map_of_mem hv))
    obtain ⟨n, hn⟩ := Option.isSome_iff_exists.1 (hl.present v.node hid)
    obtain ⟨index, script, hbegins, hyields⟩ := hstems v hv
    obtain ⟨memory, s, hanswer, hafter⟩ := hb.settled v hv _ (hnode v.node hid n hn)
    exact ⟨index, script, n, memory, s, hbegins, hyields, hn, hanswer, hafter⟩
  · by_cases hid : id ∈ batch.ready
    · have hn₀ := hnode id hid n hn
      rcases List.mem_append.1 (hparts.mem_iff.2 hid) with hmem | hpend
      · obtain ⟨v, hv, rfl⟩ := List.mem_map.1 hmem
        obtain ⟨memory, s, -, hafter⟩ := hb.settled v hv _ hn₀
        exact ⟨_, hafter, absurd hid, fun _ => Node.inputs_complete _ v.result s⟩
      · obtain ⟨memory, hafter⟩ := hb.awaited id hpend _ hn₀
        exact ⟨_, hafter, absurd hid, fun _ => ⟨rfl, rfl, rfl⟩⟩
    · have hother := hb.other id (fun h => hid (hparts.mem_iff.1 (List.mem_append_right _ h))) fun h =>
        hid (hparts.mem_iff.1 (List.mem_append_left _ h))
      refine ⟨n, ?_, fun _ => rfl, fun h => absurd h hid⟩
      rw [hother, hl.graph, node?_preparing hg hl.apart, if_neg hid, hn]

/-- How far an iteration has come that has not passed its barrier. -/
theorem Launches.settled {signals : List Signal} {batch' : Batch} (hl : r.Launches r₀ batch) (hg : r.graph.Identified)
    (hbatch : r₀.phase = .activating batch) (h : r₀.Through Phase.isActivating signals r')
    (hc : r'.executor.cancelled = false) (hp' : r'.phase = .activating batch') :
    r.Stopped batch.ready (r₀.graph.verdicts (r₀.trail signals)) batch'.pending r'.graph ∧
      batch'.failures = r.graph.lines (r₀.graph.verdicts (r₀.trail signals)) ∧ r'.iteration = r.iteration + 1 ∧
      ∀ kind ∈ r₀.events signals, kind.isTransfer = false := by
  have hg₀ : r₀.graph.Identified := hl.graph ▸ hg.replay _
  have hn : batch.pending.Nodup := hl.pending ▸ hl.apart
  have hsettles := h.settles hg₀.isNamed hbatch hn hc hp'
  have hbears := hsettles.bears hn
  rw [← graph_follow hg₀ h.follow] at hbears
  have hlines : r₀.graph.lines = r.graph.lines := by
    rw [hl.graph, Graph.lines_replay hg.isNamed]
  refine ⟨hl.stopped hg.isNamed hbears (hl.pending ▸ hsettles.pending hn)
    (h.stems hg₀.isNamed hl.stems hbatch hc (by rw [hp']; rfl)), ?_, ?_, hsettles.still⟩
  · rw [hsettles.failures, hl.failures, List.nil_append, hlines]
  · exact h.iteration.trans hl.iteration

/-- **A failing activation stops the iteration before any data moves.** If an activation of an iteration fails that is not
cancelled, each activation of the scan is awaited and settled in its own node, with what its script has come to. Until all
of them are, activations are under way; then the run fails, with one line for each activation that has failed. No input is
touched on the way, but that the inputs of the scanned nodes count as read, no data moves, and the run comes to its end. -/
theorem failure_stops_iteration {signals : List Signal} (hg : r.graph.Identified) (hp : r.phase = .boundary)
    (hbegin : r.step? .drive = some r₀) (hbatch : r₀.phase = .activating batch) (h : r₀.follow signals = some r')
    (hc : r'.executor.cancelled = false) (hfail : ∃ v ∈ r₀.verdicts signals, ∃ e, v.answer = .error e) :
    (∃ pending, r.Stopped batch.ready (r₀.verdicts signals) pending r'.graph ∧
      ((∃ batch', r'.phase = .activating batch' ∧ batch'.pending = pending) ∨
        pending = [] ∧ r'.phase.Reports (.failed ("; ".intercalate (r.graph.lines (r₀.verdicts signals))))
          (r.iteration + 1))) ∧
      (∀ kind ∈ r.events (.drive :: signals), kind.isTransfer = false) ∧ r'.iteration = r.iteration + 1 ∧
      r'.Concludes fun result => (∃ error, result.outcome = .failed error) ∧ result.iterations = r.iteration + 1 := by
  have hl := launches_step hg hp hbegin hbatch
  have hg₀ : r₀.graph.Identified := hl.graph ▸ hg.replay _
  have hg' : r'.graph.Identified := graph_follow hg₀ h ▸ hg₀.replay _
  have hlines : ∀ verdicts : List Verdict, (∃ v ∈ verdicts, ∃ e, v.answer = .error e) → r.graph.lines verdicts ≠ [] := by
    rintro verdicts ⟨v, hv, e, he⟩ hnil
    have hnone := List.filterMap_eq_nil_iff.1 hnil v hv
    simp only [Graph.line?, he, reduceCtorEq] at hnone
  rcases follow_activating hg₀.isNamed hbatch h hc with
    ⟨hthrough, hunder⟩ | ⟨before, after, r₁, batch₁, rfl, hthrough, hp₁, hpending, hc₁, hafter⟩
  · -- Some activations may still be awaited.
    obtain ⟨batch', hp'⟩ := Phase.isActivating_iff.1 hunder
    have hverdicts : r₀.verdicts signals = r₀.graph.verdicts (r₀.trail signals) := by
      have happend := hthrough.verdicts hg₀.isNamed []
      rwa [List.append_nil, show r'.verdicts [] = [] from rfl, List.append_nil] at happend
    obtain ⟨hstopped, hfailures, hiteration, hstill⟩ := hl.settled hg hbatch hthrough hc hp'
    rw [hverdicts] at hfail ⊢
    have hnodup : batch'.pending.Nodup := (List.nodup_append'.1 (hstopped.parts.nodup_iff.2 hl.apart)).2.1
    have hconcludes := concludes_of_failures hg' hp' hnodup (hfailures ▸ hlines _ hfail)
    rw [hiteration] at hconcludes
    refine ⟨⟨batch'.pending, hstopped, Or.inl ⟨batch', hp', rfl⟩⟩, ?_, hiteration, hconcludes⟩
    rw [events, hbegin, Option.elim_some]
    exact List.forall_mem_append.2 ⟨hl.still, hstill⟩
  · -- All activations were settled, and then the barrier was passed.
    have hverdicts : r₀.verdicts (before ++ .drive :: after) = r₀.graph.verdicts (r₀.trail before) := by
      rw [hthrough.verdicts hg₀.isNamed, verdicts_pass hp₁ hc₁ hpending, List.append_nil]
    obtain ⟨hstopped, hfailures, hiteration, hstill⟩ := hl.settled hg hbatch hthrough hc₁ hp₁
    rw [hverdicts] at hfail ⊢
    have hsome : batch₁.failures ≠ [] := hfailures ▸ hlines _ hfail
    obtain ⟨hpass, -, hvoices⟩ := step_pass hp₁ hc₁ hpending
    rw [passBarrier_of_ne_nil r₁ hsome] at hafter hpass
    obtain ⟨hreports, hgraph, hcount, hlater⟩ := reports_follow (Or.inl rfl) hafter
    have hcount' : r'.iteration = r.iteration + 1 := hcount.trans hiteration
    have hreports' : r'.phase.Reports (.failed ("; ".intercalate batch₁.failures)) (r.iteration + 1) := by
      rw [← hiteration]
      exact hreports
    refine ⟨⟨[], ?_, Or.inr ⟨rfl, hfailures ▸ hreports'⟩⟩, ?_, hcount', ?_⟩
    · rw [hgraph, ← hpending]
      exact hstopped
    · rw [events, hbegin, Option.elim_some, events_append hthrough.follow, events, hpass, Option.elim_some, hvoices]
      exact List.forall_mem_append.2 ⟨hl.still, List.forall_mem_append.2 ⟨hstill, hlater⟩⟩
    · rw [← hcount'] at hreports' ⊢
      exact concludes_of_reports hreports' fun result ho hn => ⟨⟨_, ho⟩, hn⟩

end Stopped

end Run

/-! ### An iteration in which a node breaks down -/

namespace Graph

/-- A behavior without data that breaks down. -/
def breakdown : Behavior :=
  { typeId := "breakdown", ports := [], activate := fun _ _ => .panic "boom" }

/-- A node that breaks down. -/
def faultyNode : Node × Supply :=
  Node.create ⟨3⟩ "bad" breakdown [] signalRelay.2

/-- A source with a relay, and a node that breaks down beside them. -/
def faulty : Graph :=
  (({ signalPair with supply := faultyNode.2 } : Graph).addNode faultyNode.1).toOption.getD signalPair

theorem built_faulty : faulty.Built := by
  have h : ({ signalPair with supply := faultyNode.2 } : Graph).addNode faultyNode.1 = .ok faulty := rfl
  exact .create built_signalPair h

end Graph

namespace Run

/-- A run in which a node breaks down, at its start. -/
def faultyStart : Run :=
  (start (.create .standard) Graph.faulty default .continuous 0).toOption.getD signalStart

/-- The run when its first iteration is under way. -/
def faultyBegun : Run :=
  (faultyStart.step? .drive).getD faultyStart

/-- The signals of this iteration: both activations end and are settled, and the run fails. -/
def faultyPath : List Signal :=
  [.run ⟨3⟩, .drive, .run ⟨1⟩, .drive, .drive, .drive]

theorem failure_stops_iteration_faulty :
    (∃ v ∈ faultyBegun.verdicts faultyPath, ∃ e, v.answer = .error e) ∧
      ∀ kind ∈ faultyStart.events (.drive :: faultyPath), kind.isTransfer = false := by
  have hstart : start (.create .standard) Graph.faulty default .continuous 0 = .ok faultyStart := rfl
  have hfail : ∃ v ∈ faultyBegun.verdicts faultyPath, ∃ e, v.answer = .error e :=
    ⟨⟨⟨3⟩, .error (panicError 1 "boom"), .error (panicError 1 "boom")⟩, List.Mem.head _, _, rfl⟩
  have hbegin : faultyStart.step? .drive = some faultyBegun := rfl
  obtain ⟨batch, hbatch⟩ := Phase.isActivating_iff.1 (show faultyBegun.phase.isActivating = true from rfl)
  obtain ⟨r', hfollow⟩ := Option.isSome_iff_exists.1 (show (faultyBegun.follow faultyPath).isSome = true from rfl)
  have hc : r'.executor.cancelled = false := by
    have h : ((faultyBegun.follow faultyPath).elim true fun r => r.executor.cancelled) = false := rfl
    rwa [hfollow] at h
  exact ⟨hfail, (failure_stops_iteration (start_identified Graph.built_faulty.regular.toIdentified hstart) rfl hbegin
    hbatch hfollow hc hfail).2.1⟩

end Run

end Dataflow
