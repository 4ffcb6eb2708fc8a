import Dataflow.Proofs.Run.Demand
import Dataflow.Proofs.Run.Pauses
import Mathlib.Data.Multiset.DershowitzManna
import Mathlib.Data.Prod.Lex

/-!
# Runs that nobody steers

As long as no call is made, a run that was started at full speed goes on without a pause, and every step brings it
nearer to its end. What is left to do is a heap of chores: each step replaces some of them by smaller ones, or goes on to
a later part of the iteration, or begins one of the iterations that are left.

* `Script.Unbroken` is a script that does not break down, and `Script.waits` counts its waits;
* `Run.Unattended` is the invariant of such a run, and `Run.Unattended.can_go_on` says that it never waits in vain;
* `Run.Nearer` says that a state is nearer to the end than another one, which is well-founded;
* `Run.Unattended.strides`: the state after a step is nearer to the end, and `Run.Unattended.step`: the step keeps the
  invariant.
-/

namespace Dataflow

/-! ### Scripts that settle -/

namespace Script

/-- A script that does not break down, whatever its calls are answered. -/
inductive Unbroken : Script → Prop
  | finish {result : Except NodeError Output} : Unbroken (finish result)
  | emit {event : NodeEvent} {rest : Script} (hrest : Unbroken rest) : Unbroken (emit event rest)
  | control {c : Control} {rest : Except TransitionError Unit → ExecutionState → Script}
      (hrest : ∀ answer s, Unbroken (rest answer s)) : Unbroken (control c rest)
  | log {entry : Value} {rest : Script} (hrest : Unbroken rest) : Unbroken (log entry rest)
  | remember {m : Memory} {rest : Script} (hrest : Unbroken rest) : Unbroken (remember m rest)
  | sleep {ms : Nat} {heedsCancel : Bool} {rest : Script} (hrest : Unbroken rest) : Unbroken (sleep ms heedsCancel rest)

/-- How often a script waits before it ends or makes a call. -/
def waits : Script → Nat
  | finish _ | panic _ | control .. => 0
  | emit _ rest | log _ rest | remember _ rest => rest.waits
  | sleep _ _ rest => rest.waits + 1

end Script

/-- A behavior whose activations do not break down. -/
def Behavior.Unbroken (b : Behavior) : Prop :=
  ∀ a m, (b.activate a m).Unbroken

/-- Deeds without any call. -/
def Deed.Silent (deeds : List Deed) : Prop :=
  ∀ c, Deed.call c ∉ deeds

/-- Deeds that leave the state of an executor as it is, and do not cancel the run. -/
def Deed.Plain (deeds : List Deed) : Prop :=
  ∀ d ∈ deeds, (∃ kind, d = .publish kind) ∨ d = .takeWake

theorem Deed.Quiet.plain {deeds : List Deed} (hq : Quiet deeds) (hs : Silent deeds) : Plain deeds := by
  intro d hd
  cases d with
  | publish kind => exact Or.inl ⟨kind, rfl⟩
  | call c => exact absurd hd (hs c)
  | endStep => cases hq _ hd
  | takeWake => exact Or.inr rfl
  | finish result => cases hq _ hd

theorem Executor.replay_plain {x : Executor} {deeds : List Deed} (h : Deed.Plain deeds) :
    (x.replay deeds).state = x.state ∧ (x.replay deeds).cancelled = x.cancelled := by
  induction deeds generalizing x with
  | nil => exact ⟨rfl, rfl⟩
  | cons d rest ih =>
    obtain ⟨hd, hrest⟩ := List.forall_mem_cons.1 h
    obtain ⟨hstate, hcancelled⟩ := ih (x := x.enact d) hrest
    have hsame : (x.enact d).state = x.state ∧ (x.enact d).cancelled = x.cancelled := by
      rcases hd with ⟨kind, rfl⟩ | rfl <;> exact ⟨rfl, rfl⟩
    exact ⟨hstate.trans hsame.1, hcancelled.trans hsame.2⟩

/-- An activation has got nearer to its end: it has settled, or it waits and there are less waits left. -/
def Run.Stop.Nears (script : Script) : Run.Stop → Prop
  | .finished _ => True
  | .panicked _ => False
  | .asleep _ rest => rest.Unbroken ∧ rest.waits < script.waits

theorem Script.Unbroken.perform {script : Script} (h : script.Unbroken) {node : NodeId} {r : Run}
    (hs : Deed.Silent (Run.performed node script r.executor)) : (Run.perform node script r).1.Nears script := by
  induction h generalizing r with
  | finish => trivial
  | emit _ ih => exact ih (r := r.publish _) fun c hc => hs c (List.mem_cons_of_mem _ hc)
  | control => exact absurd List.mem_cons_self (hs _)
  | log _ ih => exact ih (r := { r with log := _ }) hs
  | remember _ ih => exact ih (r := r.modifyNode _ _) hs
  | sleep hrest =>
    rw [Run.perform_sleep]
    dsimp only
    split_ifs
    · trivial
    · exact ⟨hrest, Nat.lt_succ_self _⟩

/-- The activations under way do not break down, the run is not made to wait, and it does not end as cancelled. -/
def Phase.Sturdy (iteration : Nat) : Phase → Prop
  | .activating batch => (∀ task ∈ batch.runnable, task.script.Unbroken) ∧ ∀ s ∈ batch.asleep, s.task.script.Unbroken
  | .relaying relay _ _ => relay.task.script.Unbroken
  | .ending outcome => outcome ≠ .cancelled
  | .over result => result.outcome ≠ .cancelled ∧ result.iterations = iteration
  | .parked | .broken _ => False
  | .boundary | .propagating _ | .delaying _ => True

/-! ### Chores -/

/-- How far a phase is from the end of the run, if no other iteration begins. -/
def Phase.distance : Phase → Nat
  | .activating _ => 5
  | .propagating _ | .relaying .. => 4
  | .delaying _ => 3
  | .boundary => 2
  | .ending _ => 1
  | .parked | .over _ | .broken _ => 0

/-- A chore, by its weight. The first number is for what is done node by node, the second one for what is done wait by
wait. -/
abbrev Chore : Type := Nat ×ₗ Nat

def Task.chore (t : Task) : Chore :=
  toLex (0, 2 * t.script.waits + 1)

def Sleeper.chore (s : Sleeper) : Chore :=
  toLex (0, 2 * s.task.script.waits + 2)

/-- A relay is activated, and then its outputs are moved, which may activate other relays at a lower height. -/
def Work.chore (height : NodeId → Nat) : Work → Chore
  | .activate id _ => toLex (3 * height id + 2, 0)
  | .propagate id _ => toLex (3 * height id, 0)

def Agenda.chores (height : NodeId → Nat) (agenda : Agenda) : List Chore :=
  agenda.work.map (Work.chore height) ++ agenda.origins.map fun id => toLex (3 * height id + 1, 0)

def Batch.chores (batch : Batch) : List Chore :=
  batch.runnable.map Task.chore ++ (batch.asleep.map Sleeper.chore ++ batch.finished.map fun _ => toLex (0, 0))

/-- Taking out what has a key. -/
theorem perm_filter_key {α κ : Type} [DecidableEq κ] (key : α → κ) (k : κ) (list : List α) :
    list.Perm (list.filter (fun a => key a = k) ++ list.filter fun a => key a ≠ k) := by
  have hnot : (fun a => decide (key a ≠ k)) = fun a => !decide (key a = k) := funext fun a => by simp
  rw [hnot]
  exact (List.filter_append_perm _ list).symm

namespace Batch

variable (batch : Batch) (node : NodeId)

/-- The activations of a node that can go on are taken out. -/
theorem chores_runnable : batch.chores.Perm ((batch.runnable.filter (·.node = node)).map Task.chore ++
    { batch with runnable := batch.runnable.filter (·.node ≠ node) }.chores) := by
  have hsplit := (perm_filter_key Task.node node batch.runnable).map Task.chore
  rw [List.map_append] at hsplit
  exact (hsplit.append_right _).trans (.of_eq (List.append_assoc ..))

/-- The activations of a node that sleep are taken out. -/
theorem chores_sleeping : batch.chores.Perm ((batch.asleep.filter (·.task.node = node)).map Sleeper.chore ++
    { batch with asleep := batch.asleep.filter (·.task.node ≠ node) }.chores) := by
  have hsplit := (perm_filter_key (fun s : Sleeper => s.task.node) node batch.asleep).map Sleeper.chore
  rw [List.map_append] at hsplit
  refine ((hsplit.append_right _).append_left _).trans ?_
  rw [List.append_assoc]
  exact List.perm_append_comm_assoc ..

theorem chores_run (task : Task) :
    { batch with runnable := batch.runnable ++ [task] }.chores.Perm (task.chore :: batch.chores) := by
  unfold chores
  rw [List.map_append, List.append_assoc]
  exact List.perm_middle

theorem chores_sleep (s : Sleeper) :
    { batch with asleep := batch.asleep ++ [s] }.chores.Perm (s.chore :: batch.chores) := by
  unfold chores
  rw [List.map_append, List.append_assoc, ← List.append_assoc, ← List.append_assoc (batch.runnable.map _)]
  exact List.perm_middle

theorem chores_finish (f : Finished) :
    { batch with finished := batch.finished ++ [f] }.chores.Perm (toLex (0, 0) :: batch.chores) := by
  unfold chores
  rw [List.map_append, ← List.append_assoc, ← List.append_assoc, ← List.append_assoc]
  exact List.perm_append_singleton _ _

/-- An activation that has ended is settled. -/
theorem chores_settle {f : Finished} {rest : List Finished} (hf : batch.finished = f :: rest) :
    batch.chores.Perm (toLex (0, 0) :: { batch with finished := rest }.chores) := by
  unfold chores
  rw [hf, ← List.append_assoc, ← List.append_assoc]
  exact List.perm_middle

end Batch

/-- What is left to do in a phase. -/
def Phase.chores (height : NodeId → Nat) : Phase → List Chore
  | .activating batch => batch.chores
  | .propagating agenda => agenda.chores height
  | .relaying relay _ agenda => toLex (3 * height relay.task.node + 1, relay.task.script.waits) :: agenda.chores height
  | _ => []

namespace Run

/-! ### Runs without calls -/

/-- Signals by which a run goes on by itself. -/
def Signal.goesOn : Signal → Bool
  | .drive | .run _ | .wake _ => true
  | .control _ | .pass _ => false

/-- The run after some time. -/
def wait (r : Run) (ms : Nat) : Run :=
  { r with now := r.now + ms }

/-- The executor of a run that is neither paused, nor cancelled, nor made to step. -/
structure IsRunning (r : Run) : Prop where
  state : r.executor.state = .running
  cancelled : r.executor.cancelled = false
  stepping : r.stepping = false

/-- Without calls, a run goes on running. -/
theorem IsRunning.step {r r' : Run} {s : Signal} (h : r.IsRunning) (hsilent : Deed.Silent (r.deeds s))
    (hs : r.step? s = some r') (hfinal : r'.phase.isFinal = false) : r'.IsRunning := by
  have hexecutor := executor_step hs
  have hplain : Deed.Plain (r.deeds s) ∧ r'.stepping = false := by
    cases step_turns hs with
    | quiet hdeeds hstepping _ _ => exact ⟨hdeeds.plain hsilent, hstepping.trans h.stepping⟩
    | begin _ _ hdeeds hrest hstepping _ _ =>
      rw [hdeeds] at hsilent ⊢
      have hrest' := Deed.Quiet.plain hrest fun c hc => hsilent c (List.mem_cons_of_mem _ hc)
      refine ⟨List.forall_mem_cons.2 ⟨Or.inl ⟨_, rfl⟩, hrest'⟩, ?_⟩
      rw [hstepping, h.state]
      rfl
    | finish _ hdeeds hstepping _ =>
      have hnone : r.ended = [] := by rw [ended, if_neg (by rw [h.stepping]; decide)]
      rw [hdeeds, hnone]
      exact ⟨fun _ hd => absurd hd List.not_mem_nil, hstepping⟩
    | report _ _ hp' =>
      rw [hp'] at hfinal
      cases hfinal
  obtain ⟨hstate, hcancelled⟩ := Executor.replay_plain (x := r.executor) hplain.1
  exact ⟨by rw [hexecutor, hstate, h.state], by rw [hexecutor, hcancelled, h.cancelled], hplain.2⟩

/-! ### Nearer to the end -/

section Nearer

variable {bound : Nat} {height : NodeId → Nat} {r r' : Run}

/-- What is still ahead of a run: the parts of iterations that are left, and the chores of the part under way. -/
def ahead (bound : Nat) (height : NodeId → Nat) (r : Run) : Nat × Multiset Chore :=
  (6 * (bound - r.iteration) + r.phase.distance, r.phase.chores height)

/-- Less parts are left, or some chores of the same part have been done and only smaller ones have come instead. -/
def Nearer (bound : Nat) (height : NodeId → Nat) (r' r : Run) : Prop :=
  Prod.Lex (· < ·) Multiset.IsDershowitzMannaLT (r'.ahead bound height) (r.ahead bound height)

theorem wellFounded_nearer (bound : Nat) (height : NodeId → Nat) : WellFounded (Nearer bound height) :=
  InvImage.wf _ (WellFounded.prod_lex Nat.lt_wfRel.wf Multiset.wellFounded_isDershowitzMannaLT)

/-- The next iteration begins. -/
theorem Nearer.of_next (hiteration : r'.iteration = r.iteration + 1) (hbound : r'.iteration ≤ bound)
    (hp : r.phase = .boundary) : Nearer bound height r' r := by
  have hdistance : r'.phase.distance ≤ 5 := by cases r'.phase <;> simp [Phase.distance]
  refine Prod.Lex.left _ _ ?_
  rw [hp, Phase.distance]
  omega

/-- A later part of the iteration begins. -/
theorem Nearer.of_distance (hiteration : r'.iteration = r.iteration) (h : r'.phase.distance < r.phase.distance) :
    Nearer bound height r' r := by
  refine Prod.Lex.left _ _ ?_
  rw [hiteration]
  omega

/-- Some chores are done, and smaller ones come instead. -/
theorem Nearer.of_chores (done new : List Chore) {kept : List Chore} (hiteration : r'.iteration = r.iteration)
    (hdistance : r'.phase.distance = r.phase.distance) (hbefore : (r.phase.chores height).Perm (done ++ kept))
    (hafter : (r'.phase.chores height).Perm (new ++ kept)) (hdone : done ≠ [])
    (hnew : ∀ c ∈ new, ∃ d ∈ done, c < d) : Nearer bound height r' r := by
  unfold Nearer ahead
  rw [hiteration, hdistance]
  refine Prod.Lex.right _ ⟨kept, new, done, by simpa using hdone, ?_, ?_, by simpa using hnew⟩
  · rw [Multiset.coe_add, Multiset.coe_eq_coe]
    exact hafter.trans List.perm_append_comm
  · rw [Multiset.coe_add, Multiset.coe_eq_coe]
    exact hbefore.trans List.perm_append_comm

/-- The first chore is done, and smaller ones come instead. -/
theorem Nearer.of_chore (chore : Chore) (new kept : List Chore) (hiteration : r'.iteration = r.iteration)
    (hdistance : r'.phase.distance = r.phase.distance) (hbefore : r.phase.chores height = chore :: kept)
    (hafter : r'.phase.chores height = new ++ kept) (hnew : ∀ c ∈ new, c < chore) : Nearer bound height r' r :=
  .of_chores [chore] new hiteration hdistance (.of_eq hbefore) (.of_eq hafter) (List.cons_ne_nil chore []) fun c hc =>
    ⟨chore, List.mem_singleton_self chore, hnew c hc⟩

end Nearer

/-! ### Every step -/

/-- A run that nobody steers. -/
structure Unattended (r : Run) : Prop where
  behaves : r.graph.Behaves Behavior.Unbroken
  running : r.phase.isFinal = false → r.IsRunning
  sturdy : r.phase.Sturdy r.iteration

/-- A step keeps what is asked of the phase, and leads nearer to the end. -/
structure Strides (bound : Nat) (height : NodeId → Nat) (r r' : Run) : Prop where
  sturdy : r'.phase.Sturdy r'.iteration
  nearer : Nearer bound height r' r

section Strides

variable {bound : Nat} {height : NodeId → Nat} {r r' : Run}

/-- All activations of an iteration begin with scripts that do not break down. -/
theorem spawn_unbroken {ids : List NodeId} {index : Nat} (hb : r.graph.Behaves Behavior.Unbroken) :
    ∀ task ∈ (spawn ids index r).1, task.script.Unbroken := by
  induction ids generalizing index r with
  | nil => exact fun _ ht => absurd ht List.not_mem_nil
  | cons id rest ih =>
    cases hn : r.graph.node? id with
    | none =>
      simp only [spawn, hn]
      exact ih hb
    | some n =>
      simp only [spawn, hn]
      refine List.forall_mem_cons.2 ⟨hb id n hn _ _, ih fun id' n' hn' => ?_⟩
      rw [show ((r.prepare n).2.publish (.nodeStarted id n.typeId)).graph = r.graph.setNode n.prepare.2 from rfl,
        Graph.node?_setNode] at hn'
      split_ifs at hn'
      · cases hn'
        exact hb id n hn
      · exact hb id' n' hn'

theorem strides_begin (hb : r.graph.Behaves Behavior.Unbroken) (hp : r.phase = .boundary)
    (hbound : r.beginIteration.iteration ≤ bound) : Strides bound height r r.beginIteration := by
  rcases hready : collectReady r.graph r.graph.nodeList r.firedSources with ⟨ready, fired⟩
  rw [beginIteration_eq hready] at hbound ⊢
  split_ifs at hbound ⊢ with hempty
  · exact ⟨by simp [Phase.Sturdy, endWith], .of_distance rfl (by simp [endWith, hp, Phase.distance])⟩
  · have hiteration : (spawn ready 0 (r.opened fired)).2.iteration = r.iteration + 1 := by
      rw [spawn_eq]
      rfl
    exact ⟨⟨spawn_unbroken hb, fun _ hs => absurd hs List.not_mem_nil⟩, .of_next hiteration hbound hp⟩

theorem strides_settle {batch : Batch} {f : Finished} {rest : List Finished} (hp : r.phase = .activating batch)
    (hf : batch.finished = f :: rest) (hsturdy : r.phase.Sturdy r.iteration)
    (hiteration : (r.settle batch f rest).iteration = r.iteration) : Strides bound height r (r.settle batch f rest) := by
  rw [hp] at hsturdy
  refine ⟨hsturdy, .of_chores [toLex (0, 0)] [] hiteration (by rw [hp]; rfl) ?_ (.refl _) (List.cons_ne_nil _ _)
    fun c hc => absurd hc List.not_mem_nil⟩
  rw [hp]
  exact batch.chores_settle hf

/-- How far an activation of a relay gets that does not break down. -/
theorem carry_cases (task : Task) (depth : Nat) (agenda : Agenda) (r : Run)
    (h : (perform task.node task.script r).1.Nears task.script) :
    (∃ error, (r.carry task depth agenda).phase = .ending (.failed error)) ∨
      (r.carry task depth agenda).phase = .propagating { agenda with work := .propagate task.node depth :: agenda.work } ∨
      ∃ wakeAt rest, (r.carry task depth agenda).phase = .relaying ⟨wakeAt, { task with script := rest }⟩ depth agenda ∧
        rest.Unbroken ∧ rest.waits < task.script.waits := by
  unfold carry
  rcases hperf : perform task.node task.script r with ⟨stop, r₁⟩
  rw [hperf] at h
  cases stop with
  | finished result =>
    rcases hc : r₁.complete task.node task.startedAt result with ⟨completed, r₂⟩
    simp only [afterRelay, hc]
    cases completed with
    | ok => exact Or.inr (Or.inl rfl)
    | error e => exact Or.inl ⟨_, rfl⟩
  | panicked message => exact h.elim
  | asleep ms rest => exact Or.inr (Or.inr ⟨_, rest, rfl, h⟩)

/-- The activation of a relay goes on. Before that, it is a chore between the activation and the outputs of the
relay. -/
theorem strides_carry {q : Run} {task : Task} {depth : Nat} {agenda : Agenda} {chore : Chore}
    (h : (perform task.node task.script q).1.Nears task.script)
    (hchores : r.phase.chores height = chore :: agenda.chores height) (hdistance : r.phase.distance = 4)
    (houtputs : toLex (3 * height task.node, 0) < chore)
    (hwaits : ∀ waits < task.script.waits, toLex (3 * height task.node + 1, waits) < chore)
    (hiteration : (q.carry task depth agenda).iteration = r.iteration) :
    Strides bound height r (q.carry task depth agenda) := by
  rcases carry_cases task depth agenda q h with ⟨error, hp⟩ | hp | ⟨wakeAt, rest, hp, hrest, hlt⟩
  · exact ⟨by simp [hp, Phase.Sturdy], .of_distance hiteration (by rw [hp, hdistance, Phase.distance]; omega)⟩
  · refine ⟨by simp [hp, Phase.Sturdy], .of_chore chore [toLex (3 * height task.node, 0)] (agenda.chores height)
      hiteration (by rw [hp, hdistance]; rfl) hchores (by rw [hp]; rfl) ?_⟩
    simpa using houtputs
  · refine ⟨by rw [hp]; exact hrest, .of_chore chore [toLex (3 * height task.node + 1, rest.waits)]
      (agenda.chores height)
      hiteration (by rw [hp, hdistance]; rfl) hchores (by rw [hp]; rfl) ?_⟩
    simpa using hwaits _ hlt

/-- The outputs of a node are moved. The relays that they reach are lower than the node. -/
theorem strides_propagate {id : NodeId} {depth : Nat} {work : List Work} {origins : List NodeId}
    (hrelays : ∀ relay ∈ (r.graph.transferOutputs id).relays, height relay < height id)
    (hp : r.phase = .propagating ⟨.propagate id depth :: work, origins⟩)
    (hiteration : (r.propagateFrom id depth ⟨work, origins⟩).iteration = r.iteration) :
    Strides bound height r (r.propagateFrom id depth ⟨work, origins⟩) := by
  have hp' := r.propagateFrom_phase id depth ⟨work, origins⟩
  cases hf : (r.graph.transferOutputs id).failure with
  | some error =>
    simp only [hf] at hp'
    exact ⟨by simp [hp', Phase.Sturdy], .of_distance hiteration (by simp [hp, hp', Phase.distance])⟩
  | none =>
    simp only [hf] at hp'
    refine ⟨by simp [hp', Phase.Sturdy], .of_chore (toLex (3 * height id, 0))
      ((((r.graph.transferOutputs id).relays.filter (r.graph.transferOutputs id).graph.isReady).map
        fun relay => Work.activate relay (depth + 1)).map (Work.chore height)) (Agenda.chores height ⟨work, origins⟩)
      hiteration (by rw [hp, hp']; rfl) (by rw [hp]; rfl) ?_ ?_⟩
    · rw [hp', Phase.chores, Agenda.chores, List.map_append, List.append_assoc]
      rfl
    intro c hc
    obtain ⟨w, hw, rfl⟩ := List.mem_map.1 hc
    obtain ⟨relay, hrelay, rfl⟩ := List.mem_map.1 hw
    have hlower := hrelays relay (List.mem_filter.1 hrelay).1
    exact Prod.Lex.left _ _ (by omega)

/-- **Every step of the driver leads nearer to the end.** -/
theorem Drives.strides {acts : List Act} {deeds : List Deed} (hd : r.Drives acts deeds r') (h : r.Unattended)
    (hg : r.graph.Named) (hrelays : ∀ id, ∀ relay ∈ (r.graph.transferOutputs id).relays, height relay < height id)
    (hbound : r'.iteration ≤ bound) (hsilent : Deed.Silent deeds) : Strides bound height r r' := by
  have hrunning : ∀ {p : Phase}, r.phase = p → p.isFinal = false → r.IsRunning := fun hp hfinal =>
    h.running (hp ▸ hfinal)
  have hcalm : ∀ {p : Phase}, r.phase = p → p.isFinal = false → r.executor.cancelled ≠ true := fun hp hfinal => by
    simp [(hrunning hp hfinal).cancelled]
  have hsteady : ∀ {p : Phase}, r.phase = p → p ≠ .boundary → r'.iteration = r.iteration := fun hp hne =>
    (hd.steady (hp ▸ hne)).iteration
  have hsturdy := h.sturdy
  cases hd with
  | desist hp hc | abandon hp hc | refuse hp _ _ _ hc | leave hp hc | quit hp hc => exact absurd hc (hcalm hp rfl)
  | begin hp => exact strides_begin h.behaves hp hbound
  | park hp _ hstate | lose hp _ hstate =>
    rw [(hrunning hp rfl).state] at hstate
    cases hstate
  | rouse hp | look hp =>
    rw [hp] at hsturdy
    exact hsturdy.elim
  | settle hp _ hf => exact strides_settle hp hf hsturdy (hsteady hp Phase.noConfusion)
  | pass hp =>
    exact ⟨trivial, .of_distance (hsteady hp Phase.noConfusion) (by simp [hp, Run.pass, Phase.distance])⟩
  | fail hp | exceed hp =>
    exact ⟨by simp [Phase.Sturdy, endWith], .of_distance rfl (by simp [endWith, hp, Phase.distance])⟩
  | move hp => exact strides_propagate (hrelays _) hp (hsteady hp Phase.noConfusion)
  | @skip id _ work origins hp =>
    exact ⟨trivial, .of_chore (toLex (3 * height id + 2, 0)) [] (Agenda.chores height ⟨work, origins⟩) rfl
      (by rw [hp]; rfl) (by rw [hp]; rfl) rfl fun c hc => absurd hc List.not_mem_nil⟩
  | @relay _ n _ _ _ hp hn =>
    obtain rfl := hg _ _ hn
    have hstop : (perform n.id (r.launch n).1.script (r.launch n).2).1.Nears (r.launch n).1.script :=
      (h.behaves _ _ hn _ _).perform fun c hcall => hsilent c (List.mem_cons_of_mem _ (List.mem_append_left _ hcall))
    refine strides_carry hstop (by rw [hp]; rfl) (by rw [hp]; rfl) ?_ ?_ (hsteady hp Phase.noConfusion)
    · exact Prod.Lex.left _ _ (by dsimp only [launch]; omega)
    · exact fun waits _ => Prod.Lex.left _ _ (by dsimp only [launch]; omega)
  | @next id origins hp =>
    refine ⟨trivial, .of_chore (toLex (3 * height id + 1, 0)) [toLex (3 * height id, 0)] _ rfl (by rw [hp]; rfl)
      (by rw [hp]; rfl) rfl fun c hc => ?_⟩
    rw [List.mem_singleton.1 hc]
    exact Prod.Lex.left _ _ (Nat.lt_succ_self _)
  | delay hp => exact ⟨trivial, .of_distance rfl (by rw [hp]; simp [Phase.distance])⟩
  | turn hp => exact ⟨trivial, .of_distance rfl (by rw [hp]; simp [endIteration, Phase.distance])⟩
  | resume hp =>
    rw [hp] at hsturdy
    have hstop := Script.Unbroken.perform hsturdy fun c hcall => hsilent c (List.mem_append_left _ hcall)
    refine strides_carry hstop (by rw [hp]; rfl) (by rw [hp]; rfl) ?_ ?_ (hsteady hp Phase.noConfusion)
    · exact Prod.Lex.left _ _ (Nat.lt_succ_self _)
    · exact fun waits hlt => Prod.Lex.right _ hlt
  | elapse hp => exact ⟨trivial, .of_distance rfl (by rw [hp, Phase.distance]; exact Nat.lt_succ_self 2)⟩
  | report hp =>
    rw [hp] at hsturdy
    exact ⟨⟨hsturdy, rfl⟩, .of_distance rfl (by rw [hp]; exact Nat.zero_lt_one)⟩

section Turn

variable {batch batch' : Batch} {node : NodeId}

/-- An activation of an iteration has its turn: it is taken out, and a smaller chore is put in instead. -/
theorem strides_turn {done kept : List Chore} {chore : Chore} (new : Chore) (hp : r.phase = .activating batch)
    (hp' : r'.phase = .activating batch') (hiteration : r'.iteration = r.iteration)
    (hsturdy : (Phase.activating batch').Sturdy r'.iteration) (hbefore : batch.chores.Perm (done ++ kept))
    (hafter : batch'.chores.Perm (new :: kept)) (hdone : chore ∈ done) (hlt : new < chore) :
    Strides bound height r r' := by
  refine ⟨by rwa [hp'], .of_chores done [new] hiteration (by rw [hp, hp']; rfl) (by rwa [hp]) (by rwa [hp'])
    (List.ne_nil_of_mem hdone) fun c hc => ⟨chore, hdone, ?_⟩⟩
  rwa [List.mem_singleton.1 hc]

/-- An activation goes on. -/
theorem strides_run (h : r.Unattended) (hsilent : Deed.Silent (r.deeds (.run node))) (hs : r.runNode? node = some r')
    (hiteration : r'.iteration = r.iteration) : Strides bound height r r' := by
  obtain ⟨batch, task, hp, htask, rfl⟩ := runNode?_eq_some.1 hs
  have hsturdy := h.sturdy
  rw [hp] at hsturdy
  have hmem := List.mem_of_find?_eq_some htask
  have hnode : task.node = node := by simpa using List.find?_some htask
  have hstop := (hsturdy.1 task hmem).perform (by simpa only [deeds, hp, htask] using hsilent)
  have hleft : ∀ t ∈ batch.runnable.filter (·.node ≠ node), t.script.Unbroken := fun t ht =>
    hsturdy.1 t (List.mem_filter.1 ht).1
  have hdone : task.chore ∈ (batch.runnable.filter (·.node = node)).map Task.chore :=
    List.mem_map_of_mem (List.mem_filter.2 ⟨hmem, by simpa using hnode⟩)
  have hbefore := batch.chores_runnable node
  unfold runTask at hiteration ⊢
  rcases hperf : perform task.node task.script r with ⟨stop, r₁⟩
  simp only [hperf] at hstop hiteration ⊢
  cases stop with
  | finished result =>
    refine strides_turn _ hp rfl hiteration ⟨hleft, hsturdy.2⟩ hbefore ?_ hdone (Prod.Lex.right _ (Nat.succ_pos _))
    exact Batch.chores_finish { batch with runnable := batch.runnable.filter (·.node ≠ node) } _
  | panicked message => exact hstop.elim
  | asleep ms rest =>
    refine strides_turn (Sleeper.chore ⟨r₁.now + ms, { task with script := rest }⟩) hp rfl hiteration
      ⟨hleft, List.forall_mem_append.2 ⟨hsturdy.2, ?_⟩⟩ hbefore ?_ hdone ?_
    · exact List.forall_mem_singleton.2 hstop.1
    · exact Batch.chores_sleep { batch with runnable := batch.runnable.filter (·.node ≠ node) } _
    · have hwaits := hstop.2
      exact Prod.Lex.right _ (by dsimp only; omega)

/-- An activation wakes up. -/
theorem strides_wake (h : r.Unattended) (hs : r.wakeNode? node = some r') : Strides bound height r r' := by
  obtain ⟨batch, sleeper, hp, hsleeper, -, rfl⟩ := wakeNode?_eq_some.1 hs
  have hsturdy := h.sturdy
  rw [hp] at hsturdy
  have hmem := List.mem_of_find?_eq_some hsleeper
  have hnode : sleeper.task.node = node := by simpa using List.find?_some hsleeper
  have hdone : sleeper.chore ∈ (batch.asleep.filter (·.task.node = node)).map Sleeper.chore :=
    List.mem_map_of_mem (List.mem_filter.2 ⟨hmem, by simpa using hnode⟩)
  refine strides_turn _ hp rfl rfl ⟨List.forall_mem_append.2 ⟨hsturdy.1, ?_⟩, fun t ht => ?_⟩
    (batch.chores_sleeping node) (Batch.chores_run { batch with asleep := batch.asleep.filter (·.task.node ≠ node) } _)
    hdone (Prod.Lex.right _ (Nat.lt_succ_self _))
  · exact List.forall_mem_singleton.2 (hsturdy.2 sleeper hmem)
  · exact hsturdy.2 t (List.mem_filter.1 ht).1

end Turn

/-- **Every step leads nearer to the end.** -/
theorem Unattended.strides (h : r.Unattended) (hg : r.graph.Identified)
    (hrelays : ∀ id, ∀ relay ∈ (r.graph.transferOutputs id).relays, height relay < height id)
    (hbound : r'.iteration ≤ bound) {s : Signal} (hgo : s.goesOn = true) (hsilent : Deed.Silent (r.deeds s))
    (hs : r.step? s = some r') : Strides bound height r r' := by
  cases s with
  | drive => exact (drives_of_drive? hs).strides h hg.isNamed hrelays hbound hsilent
  | run node =>
    have hne : r.phase ≠ .boundary := fun hp => by simp only [step?, runNode?, hp, reduceCtorEq] at hs
    exact strides_run h hsilent hs (steady_step hne hs).iteration
  | wake node => exact strides_wake h hs
  | control c => cases hgo
  | pass ms => cases hgo

end Strides

theorem Unattended.wait {r : Run} (h : r.Unattended) (ms : Nat) : (r.wait ms).Unattended where
  behaves := h.behaves
  running hp := ⟨(h.running hp).state, (h.running hp).cancelled, (h.running hp).stepping⟩
  sturdy := h.sturdy

/-- **Every step keeps a run unattended**, if no call is made in it. -/
theorem Unattended.step {bound : Nat} {height : NodeId → Nat} {r r' : Run} {s : Signal} (h : r.Unattended)
    (hg : r.graph.Identified) (hp : r.phase.isFinal = false) (hsilent : Deed.Silent (r.deeds s))
    (hs : r.step? s = some r') (hstrides : Strides bound height r r') : r'.Unattended where
  behaves := graph_step hg.isNamed hs ▸ h.behaves.replay hg _
  running := (h.running hp).step hsilent hs
  sturdy := hstrides.sturdy

/-- Activations never wait in vain. What has ended is settled first, then what can go on does so, and only then there is a
wait. -/
theorem can_go_on_activating {r : Run} {batch : Batch} (hp : r.phase = .activating batch) :
    ∃ s, s.goesOn = true ∧ ∃ ms₀, ∀ ms ≥ ms₀, ((r.wait ms).step? s).isSome := by
  cases hfinished : batch.finished with
  | cons f rest =>
    refine ⟨.drive, rfl, 0, fun ms _ => ?_⟩
    by_cases hc : r.executor.cancelled = true <;> simp [step?, drive?, Run.wait, hp, whileActivating?, hc, hfinished]
  | nil =>
    cases hrunnable : batch.runnable with
    | cons task rest =>
      refine ⟨.run task.node, rfl, 0, fun ms _ => ?_⟩
      simp [step?, runNode?, Run.wait, hp, hrunnable]
    | nil =>
      cases hasleep : batch.asleep with
      | cons sleeper rest =>
        refine ⟨.wake sleeper.task.node, rfl, sleeper.wakeAt, fun ms hms => ?_⟩
        have hnow : sleeper.wakeAt ≤ r.now + ms := hms.trans (Nat.le_add_left ..)
        simp [step?, wakeNode?, Run.wait, hp, hasleep, hnow]
      | nil =>
        refine ⟨.drive, rfl, 0, fun ms _ => ?_⟩
        by_cases hc : r.executor.cancelled = true <;>
          simp [step?, drive?, Run.wait, hp, whileActivating?, hc, hfinished, hrunnable, hasleep]

/-- A run at full speed never waits in vain. After some time, it can go on, and it still can go on later. -/
theorem IsRunning.can_go_on {r : Run} (h : r.IsRunning) (hfinal : r.phase.isFinal = false) (hparked : r.phase ≠ .parked)
    (hbroken : ∀ message, r.phase ≠ .broken message) :
    ∃ s, s.goesOn = true ∧ ∃ ms₀, ∀ ms ≥ ms₀, ((r.wait ms).step? s).isSome := by
  have hc := h.cancelled
  cases hphase : r.phase with
  | activating batch => exact can_go_on_activating hphase
  | relaying relay depth agenda =>
    refine ⟨.drive, rfl, relay.wakeAt, fun ms hms => ?_⟩
    have hnow : relay.wakeAt ≤ r.now + ms := hms.trans (Nat.le_add_left ..)
    simp [step?, drive?, Run.wait, hphase, whileRelaying?, hc, hnow]
  | delaying wakeAt =>
    refine ⟨.drive, rfl, wakeAt, fun ms hms => ?_⟩
    have hnow : wakeAt ≤ r.now + ms := hms.trans (Nat.le_add_left ..)
    simp [step?, drive?, Run.wait, hphase, whileDelaying?, hc, hnow]
  | boundary | propagating | ending => exact ⟨.drive, rfl, 0, fun ms _ => by simp [step?, drive?, Run.wait, hphase]⟩
  | parked => exact absurd hphase hparked
  | broken message => exact absurd hphase (hbroken message)
  | _ =>
    rw [hphase] at hfinal
    cases hfinal

/-- **A run that nobody steers never waits in vain.** -/
theorem Unattended.can_go_on {r : Run} (h : r.Unattended) (hp : r.phase.isFinal = false) :
    ∃ s, s.goesOn = true ∧ ∃ ms₀, ∀ ms ≥ ms₀, ((r.wait ms).step? s).isSome := by
  have hsturdy := h.sturdy
  refine (h.running hp).can_go_on hp (fun hphase => ?_) fun message hphase => ?_
  · rwa [hphase] at hsturdy
  · rwa [hphase] at hsturdy

end Run

end Dataflow
