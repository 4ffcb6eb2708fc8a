import Dataflow.Proofs.Run.Agreement

/-!
# Pauses do not matter

A run that was paused and made to go step by step comes to the same end as one that was left alone.

* `Run.under` is a run as it would be with another executor, one that was never paused; the functions of the driver do
  the same in it, as far as they do not look at the state of the executor;
* `Run.Unpaused` says that an executor was left alone, and `Run.unpaused_step` that a step of a run is a step of the run
  that was left alone, or none at all;
* `Run.exists_uninterrupted`: for each run there is one that was left alone and settles its activations in the same
  order;
* `Run.pauses_immaterial`: all runs of a graph that settle their activations in the same order come to the same end, and
  one of them was left alone.
-/

namespace Dataflow

/-- The phase of a run that was never made to wait: it looks at the state of the executor instead. -/
def Phase.awake : Phase → Phase
  | .parked => .boundary
  | p => p

/-- The report of a run that is over. -/
def Phase.report? : Phase → Option ExecutionResult
  | .over result => some result
  | _ => none

theorem Phase.eq_over_of_report? {p : Phase} {result : ExecutionResult} (h : p.report? = some result) :
    p = .over result := by
  unfold Phase.report? at h
  split at h <;> cases h
  rfl

namespace Run

/-- A run as it would be with an executor that was never paused. -/
def under (r : Run) (x : Executor) : Run :=
  { r with executor := x, stepping := false, phase := r.phase.awake }

/-! ### The driver, function by function

Each function does the same with another executor, and only publishes events there. -/

section Under

variable {r : Run} {x : Executor}

theorem perform_under (node : NodeId) {script : Script} (hs : script.Silent) {r : Run} {x : Executor}
    (hc : r.executor.cancelled = false) (hx : x.cancelled = false) :
    ∃ bus, perform node script (r.under x) = ((perform node script r).1, (perform node script r).2.under { x with bus }) := by
  induction hs generalizing r x with
  | finish | panic => exact ⟨x.bus, rfl⟩
  | sleep =>
    rw [perform_sleep, perform_sleep, hc, show (r.under x).executor.cancelled = false from hx]
    exact ⟨x.bus, rfl⟩
  | @emit event rest _ ih =>
    exact ih (r := r.publish (.nodeEvent node event)) (x := x.publish (.nodeEvent node event)) hc hx
  | @log entry rest _ ih => exact ih (r := { r with log := r.log ++ [entry] }) hc hx
  | @remember memory rest _ ih => exact ih (r := r.modifyNode node fun n => { n with memory }) hc hx

theorem complete_under (r : Run) (x : Executor) (id : NodeId) (startedAt : Nat) (result : Except NodeError Output) :
    ∃ bus, (r.under x).complete id startedAt result =
      ((r.complete id startedAt result).1, (r.complete id startedAt result).2.under { x with bus }) := by
  unfold complete
  rw [show (r.under x).graph = r.graph from rfl]
  cases r.graph.node? id with
  | none => exact ⟨x.bus, rfl⟩
  | some n =>
    dsimp only
    cases (n.complete result r.graph.supply).1 <;> exact ⟨_, rfl⟩

theorem spawn_under (ids : List NodeId) (index : Nat) (r : Run) (x : Executor) :
    ∃ bus, spawn ids index (r.under x) = ((spawn ids index r).1, (spawn ids index r).2.under { x with bus }) := by
  induction ids generalizing index r x with
  | nil => exact ⟨x.bus, rfl⟩
  | cons id rest ih =>
    unfold spawn
    rw [show (r.under x).graph = r.graph from rfl]
    cases r.graph.node? id with
    | none => exact ih index r x
    | some n =>
      obtain ⟨bus, hrest⟩ := ih (index + 1) ((r.prepare n).2.publish (.nodeStarted id n.typeId))
        (x.publish (.nodeStarted id n.typeId))
      refine ⟨bus, ?_⟩
      dsimp only
      rw [show (((r.under x).prepare n).2.publish (.nodeStarted id n.typeId)) =
        ((r.prepare n).2.publish (.nodeStarted id n.typeId)).under (x.publish (.nodeStarted id n.typeId)) from rfl, hrest]
      rfl

theorem opened_under (r : Run) (hx : x.state = .running) (fired : List NodeId) :
    (r.under x).opened fired = (r.opened fired).under (x.publish (.iteration (r.iteration + 1))) := by
  unfold opened
  rw [show (r.under x).executor.state = .running from hx]
  rfl

theorem beginIteration_under (r : Run) (hx : x.state = .running) :
    ∃ bus, (r.under x).beginIteration = r.beginIteration.under { x with bus } := by
  rcases hready : collectReady r.graph r.graph.nodeList r.firedSources with ⟨ready, fired⟩
  have hready' : collectReady (r.under x).graph (r.under x).graph.nodeList (r.under x).firedSources = (ready, fired) := hready
  rw [beginIteration_eq hready, beginIteration_eq hready', opened_under r hx]
  split_ifs
  · exact ⟨x.bus, rfl⟩
  · obtain ⟨bus, hspawn⟩ := spawn_under ready 0 (r.opened fired) (x.publish (.iteration (r.iteration + 1)))
    rw [hspawn]
    exact ⟨bus, rfl⟩

theorem settle_under (r : Run) (x : Executor) (batch : Batch) (f : Finished) (rest : List Finished) :
    ∃ bus, (r.under x).settle batch f rest = (r.settle batch f rest).under { x with bus } := by
  obtain ⟨bus, hcomplete⟩ := r.complete_under x f.node f.startedAt f.result
  unfold Run.settle
  rw [hcomplete]
  exact ⟨bus, rfl⟩

theorem pass_under (r : Run) (x : Executor) (batch : Batch) : (r.under x).pass batch = (r.pass batch).under x := by
  rw [pass_eq, pass_eq]
  rfl

theorem propagateFrom_under (r : Run) (x : Executor) (id : NodeId) (depth : Nat) (agenda : Agenda) :
    ∃ bus, (r.under x).propagateFrom id depth agenda = (r.propagateFrom id depth agenda).under { x with bus } := by
  unfold propagateFrom
  rw [show (r.under x).graph = r.graph from rfl]
  dsimp only
  cases (r.graph.transferOutputs id).failure <;> split_ifs <;> exact ⟨_, rfl⟩

theorem afterRelay_under (task : Task) (depth : Nat) (agenda : Agenda) (stop : Stop) (r : Run) (x : Executor) :
    ∃ bus, afterRelay task depth agenda stop (r.under x) = (afterRelay task depth agenda stop r).under { x with bus } := by
  cases stop with
  | finished result =>
    obtain ⟨bus, hcomplete⟩ := r.complete_under x task.node task.startedAt result
    unfold afterRelay
    dsimp only
    rw [hcomplete]
    rcases r.complete task.node task.startedAt result with ⟨completed, r'⟩
    cases completed <;> exact ⟨bus, rfl⟩
  | panicked => exact ⟨x.bus, rfl⟩
  | asleep => exact ⟨x.bus, rfl⟩

/-- A relay goes on as it does with the other executor. -/
theorem carry_under {task : Task} (hs : task.script.Silent) (hc : r.executor.cancelled = false) (hx : x.cancelled = false)
    (depth : Nat) (agenda : Agenda) :
    ∃ bus, (r.under x).carry task depth agenda = (r.carry task depth agenda).under { x with bus } := by
  obtain ⟨bus, hperform⟩ := perform_under task.node hs hc hx
  unfold carry
  rw [hperform]
  exact afterRelay_under ..

theorem launch_under (r : Run) (x : Executor) (n : Node) :
    (r.under x).launch n = ((r.launch n).1, (r.launch n).2.under (x.publish (.nodeStarted n.id n.typeId))) := rfl

/-! ### A run that is left alone -/

/-- An executor that was left alone, besides the executor of another run of the same graph. -/
structure Unpaused (x : Executor) (r : Run) : Prop where
  config : x.config = r.executor.config
  executionId : x.executionId = r.executor.executionId
  cancelled : x.cancelled = false
  state : r.phase.isFinal = false → x.state = .running

/-- A step of the driver is a step of the driver that was left alone, unless it only has to do with a pause. -/
theorem Drives.under {r' : Run} {acts : List Act} {deeds : List Deed} {d : Nat} (hd : r.Drives acts deeds r')
    (hr : r.Upright true d) (hc : r.executor.cancelled = false) (hx : Unpaused x r) (hp : r.phase.isOver = false) :
    ∃ bus, r.under x = r'.under { x with bus } ∨ (r.under x).drive? = some (r'.under { x with bus }) := by
  have hosts : r.graph.Hosts Behavior.Silent := hr.tidy.hosts.imp fun _ hb a m => (hb a m).calm rfl
  have hphase : ∀ {p : Phase}, r.phase = p → (r.under x).phase = p.awake := congrArg Phase.awake
  have hlimit : (r.under x).executor.config.maxRelayDepth = r.executor.config.maxRelayDepth :=
    congrArg ExecutorConfig.maxRelayDepth hx.config
  have hdelay : (r.under x).delay? = r.delay? := by
    unfold delay?
    rw [show (r.under x).executor.config = r.executor.config from hx.config]
    rfl
  cases hd with
  | desist _ hc' | look _ _ hc' | abandon _ hc' | refuse _ _ _ _ hc' | leave _ hc' | quit _ hc' =>
    rw [hc] at hc'
    cases hc'
  | begin hp' =>
    have hrunning : x.state = .running := hx.state (by rw [hp']; rfl)
    obtain ⟨bus, hbegin⟩ := beginIteration_under r hrunning
    exact ⟨bus, Or.inr (hbegin ▸ (Drives.begin (hphase hp') hx.cancelled (Or.inl hrunning)).drive?_eq)⟩
  | park hp' =>
    -- Here the run begins to wait, which the other run does not notice.
    refine ⟨x.bus, Or.inl ?_⟩
    unfold Run.under
    rw [hp']
    rfl
  | lose hp' _ hstate => exact absurd hstate (hr.active (by rw [hp']; rfl))
  | rouse hp' =>
    -- The run wakes up, and the other run has been at its next iteration all along.
    refine ⟨x.bus, Or.inl ?_⟩
    unfold Run.under
    rw [hp']
    rfl
  | @settle batch f rest hp' _ hf =>
    obtain ⟨bus, hsettle⟩ := settle_under r x batch f rest
    exact ⟨bus, Or.inr (hsettle ▸ (Drives.settle (hphase hp') hx.cancelled hf).drive?_eq)⟩
  | @pass batch hp' _ hf hrunnable hasleep hfailures =>
    exact ⟨x.bus, Or.inr (pass_under r x batch ▸
      (Drives.pass (hphase hp') hx.cancelled hf hrunnable hasleep hfailures).drive?_eq)⟩
  | fail hp' _ hf hrunnable hasleep hfailures =>
    exact ⟨x.bus, Or.inr (Drives.fail (hphase hp') hx.cancelled hf hrunnable hasleep hfailures).drive?_eq⟩
  | @move id depth work origins hp' =>
    obtain ⟨bus, hmove⟩ := propagateFrom_under r x id depth ⟨work, origins⟩
    exact ⟨bus, Or.inr (hmove ▸ (Drives.move (hphase hp')).drive?_eq)⟩
  | skip hp' hready => exact ⟨x.bus, Or.inr (Drives.skip (hphase hp') hready).drive?_eq⟩
  | @exceed id _ _ _ _ hp' hn hready hdepth =>
    have hfailure : (r.under x).depthFailure id = r.depthFailure id := by
      unfold depthFailure
      rw [hlimit]
      rfl
    exact ⟨x.bus, Or.inr (hfailure ▸ (Drives.exceed (hphase hp') hn hready (hlimit.symm ▸ hdepth)).drive?_eq)⟩
  | @relay _ n depth work origins hp' hn hready hdepth =>
    have hsilent : (r.launch n).1.script.Silent := hosts.behaves hn _ _
    obtain ⟨bus, hcarry⟩ := carry_under hsilent (r := (r.launch n).2) (x := x.publish (.nodeStarted n.id n.typeId))
      hc hx.cancelled depth ⟨work, origins⟩
    have hrelay := Drives.relay (r := r.under x) (hphase hp') hn hready (hlimit.symm ▸ hdepth) hx.cancelled
    rw [launch_under] at hrelay
    exact ⟨bus, Or.inr (hcarry ▸ hrelay.drive?_eq)⟩
  | next hp' => exact ⟨x.bus, Or.inr (Drives.next (hphase hp')).drive?_eq⟩
  | delay hp' hms => exact ⟨x.bus, Or.inr (Drives.delay (hphase hp') (hdelay.trans hms)).drive?_eq⟩
  | turn hp' hnone => exact ⟨x.bus, Or.inr (Drives.turn (hphase hp') (hdelay.trans hnone)).drive?_eq⟩
  | @resume relay depth agenda hp' _ hnow =>
    obtain ⟨n, -, htame⟩ := hr.tidy.pledged relay.task.pledge (by rw [hp']; exact List.mem_singleton.2 rfl)
    obtain ⟨bus, hcarry⟩ := carry_under (htame.calm rfl) hc hx.cancelled depth agenda
    exact ⟨bus, Or.inr (hcarry ▸ (Drives.resume (hphase hp') hx.cancelled hnow).drive?_eq)⟩
  | elapse hp' _ hnow => exact ⟨x.bus, Or.inr (Drives.elapse (hphase hp') hx.cancelled hnow).drive?_eq⟩
  | report hp' =>
    rw [hp'] at hp
    cases hp

theorem runNode_under {r' : Run} {node : NodeId} (hr : r.Tidy true) (hc : r.executor.cancelled = false)
    (hx : x.cancelled = false) (hs : r.runNode? node = some r') :
    ∃ bus, (r.under x).runNode? node = some (r'.under { x with bus }) := by
  obtain ⟨batch, task, hp, htask, rfl⟩ := runNode?_eq_some.1 hs
  have hmem : task.pledge ∈ r.phase.pledges := by
    rw [hp]
    exact List.mem_map_of_mem (List.mem_append_left _ (List.mem_of_find?_eq_some htask))
  obtain ⟨n, -, htame⟩ := hr.pledged task.pledge hmem
  obtain ⟨bus, hperform⟩ := perform_under task.node (htame.calm rfl) hc hx
  refine ⟨bus, runNode?_eq_some.2 ⟨batch, task, congrArg Phase.awake hp, htask, ?_⟩⟩
  unfold runTask
  rw [show task.script = task.pledge.script from rfl, hperform]
  rfl

theorem wakeNode_under {r' : Run} {node : NodeId} (hs : r.wakeNode? node = some r') :
    (r.under x).wakeNode? node = some (r'.under x) := by
  obtain ⟨batch, sleeper, hp, hsleeper, hnow, rfl⟩ := wakeNode?_eq_some.1 hs
  exact wakeNode?_eq_some.2 ⟨batch, sleeper, congrArg Phase.awake hp, hsleeper, hnow, rfl⟩

/-- Whether a signal is a call. -/
def Signal.isControl : Signal → Bool
  | .control _ => true
  | _ => false

/-- The last step of the driver is the report. -/
theorem drive_isOver {r' : Run} (hp : r.phase.isOver = true) (hs : r.drive? = some r') :
    ∃ outcome, r.phase = .ending outcome ∧ r' = r.report outcome := by
  unfold drive? at hs
  cases hphase : r.phase with
  | ending outcome =>
    rw [hphase] at hs
    exact ⟨outcome, rfl, (Option.some.inj hs).symm⟩
  | _ => simp [hphase, Phase.isOver] at hs hp

theorem report_under {outcome : Outcome} (hx : Unpaused x r) (hp : r.phase = .ending outcome) :
    (r.under x).drive? = some ((r.report outcome).under (x.finish (r.summary outcome))) := by
  have hsummary : (r.under x).summary outcome = r.summary outcome := by
    unfold summary
    rw [show (r.under x).executor.executionId = r.executor.executionId from hx.executionId]
    rfl
  unfold drive?
  rw [show (r.under x).phase = r.phase.awake from rfl, hp]
  dsimp only [Phase.awake]
  rw [report_eq, hsummary, report_eq]
  rfl

/-- **A step of a run is a step of the run that is left alone, or none at all.** -/
theorem unpaused_step {r' : Run} {s : Signal} {d : Nat} (hr : r.Upright true d) (hs : r.step? s = some r')
    (hc : r'.executor.cancelled = false) (hx : Unpaused x r) :
    ∃ x', Unpaused x' r' ∧ (r.under x = r'.under x' ∨ s.isControl = false ∧ (r.under x).step? s = some (r'.under x')) := by
  have hc₀ := uncancelled_step hs hc
  obtain ⟨-, -, hid, hconfig⟩ := r.executor.replay_spec (r.deeds s)
  rw [← executor_step hs] at hid hconfig
  -- As long as the run is not over, the other executor only publishes events.
  have hkeep : ∀ bus, (r'.phase.isFinal = false → r.phase.isFinal = false) → Unpaused { x with bus } r' := fun bus hfinal =>
    ⟨hx.config.trans hconfig.symm, hx.executionId.trans hid.symm, hx.cancelled, fun h => hx.state (hfinal h)⟩
  cases s with
  | control c =>
    -- A call changes the executor of the one run, and nothing of the other.
    cases hs
    exact ⟨x, hkeep x.bus id, Or.inl rfl⟩
  | pass ms =>
    cases hs
    exact ⟨x, hkeep x.bus id, Or.inr ⟨rfl, rfl⟩⟩
  | run node =>
    obtain ⟨bus, h⟩ := runNode_under (x := x) hr.tidy hc₀ hx.cancelled hs
    obtain ⟨batch, task, hp, -, -⟩ := runNode?_eq_some.1 hs
    exact ⟨_, hkeep bus fun _ => by rw [hp]; rfl, Or.inr ⟨rfl, h⟩⟩
  | wake node =>
    obtain ⟨batch, sleeper, hp, -, -, -⟩ := wakeNode?_eq_some.1 hs
    exact ⟨_, hkeep x.bus fun _ => by rw [hp]; rfl, Or.inr ⟨rfl, wakeNode_under hs⟩⟩
  | drive =>
    cases hover : r.phase.isOver with
    | false =>
      obtain ⟨bus, h⟩ := (drives_of_drive? hs).under hr hc₀ hx hover
      refine ⟨_, hkeep bus fun _ => ?_, h.imp_right fun h => ⟨rfl, h⟩⟩
      cases hp : r.phase <;> rw [hp] at hover <;> first | rfl | cases hover
    | true =>
      obtain ⟨outcome, hp, rfl⟩ := drive_isOver hover hs
      refine ⟨x.finish (r.summary outcome), ?_, Or.inr ⟨rfl, report_under hx hp⟩⟩
      exact ⟨hx.config.trans hconfig.symm, hx.executionId.trans hid.symm, hx.cancelled, fun h => by cases h⟩

/-- The order in which activations are settled does not depend on the executor. -/
theorem InOrder.under {order : Nat → List NodeId} (h : r.InOrder order) (x : Executor) : (r.under x).InOrder order := by
  intro batch hp
  refine h batch ?_
  rw [show (r.under x).phase = r.phase.awake from rfl] at hp
  cases hphase : r.phase <;> simp [hphase, Phase.awake] at hp
  rw [hp]

/-- **A run is followed by a run that is left alone**, and settles its activations in the same order. -/
theorem unpaused_follow {r' : Run} {signals : List Signal} {d : Nat} (hr : r.Upright true d)
    (hf : r.follow signals = some r') (hc : r'.executor.cancelled = false) (hx : Unpaused x r) :
    ∃ signals' x', (∀ s ∈ signals', s.isControl = false) ∧ (r.under x).follow signals' = some (r'.under x') ∧
      Unpaused x' r' ∧ ∀ order, SettlesBy order r signals → SettlesBy order (r.under x) signals' := by
  induction signals generalizing r x with
  | nil =>
    cases hf
    exact ⟨[], x, by simp, rfl, hx, fun order h => settlesBy_nil (h.first.under x)⟩
  | cons s rest ih =>
    obtain ⟨r₁, hs, hf⟩ := Option.bind_eq_some_iff.1 hf
    have hc₁ := uncancelled_follow hf hc
    obtain ⟨x₁, hx₁, hstep⟩ := unpaused_step hr hs hc₁ hx
    obtain ⟨signals', x', hcalls, hf', hx', horder⟩ := ih (hr.step hs hc₁).1 hf hx₁
    -- A signal that the other run does not notice is left out, as are all calls.
    rcases hstep with hsame | ⟨hcall, hstep⟩
    · refine ⟨signals', x', hcalls, by rw [hsame]; exact hf', hx', fun order h => ?_⟩
      rw [hsame]
      exact horder order (h.tail hs)
    · refine ⟨s :: signals', x', List.forall_mem_cons.2 ⟨hcall, hcalls⟩, ?_, hx', fun order h => ?_⟩
      · rw [follow, hstep]
        exact hf'
      · refine settlesBy_cons (h.first.under x) fun r₂ hr₂ => ?_
        rw [hstep, Option.some.injEq] at hr₂
        rw [← hr₂]
        exact horder order (h.tail hs)

end Under

/-! ### Whatever the pauses -/

section Pauses

variable {x : Executor} {g : Graph} {context : Context} {mode : StartMode} {now : Nat} {r₀ r : Run} {signals : List Signal}
  {result : ExecutionResult}

/-- A run may as well be started at full speed. -/
theorem start_continuous (h : start x g context mode now = .ok r₀) :
    ∃ x', start x g context .continuous now = .ok (r₀.under x') ∧ Unpaused x' r₀ := by
  obtain ⟨y, hy, rfl⟩ := Except.map_eq_ok.1 h
  obtain ⟨next, hnext, rfl⟩ := Except.map_eq_ok.1 hy
  have hidle := (start_executor h).1
  unfold start Executor.begin ExecutionState.apply
  rw [hidle]
  exact ⟨_, rfl, rfl, rfl, rfl, fun _ => rfl⟩

/-- **For every run there is one that is left alone**, which ends with the same report and settles its activations in the
same order. Its nodes must not make calls themselves, since then it would not be left alone. -/
theorem exists_uninterrupted (hg : g.Hosts Behavior.Silent) (h : start x g context mode now = .ok r₀)
    (hf : r₀.follow signals = some r) (hp : r.phase = .over result) (hc : r.executor.cancelled = false) :
    ∃ r₀' signals' r', start x g context .continuous now = .ok r₀' ∧ (∀ s ∈ signals', s.isControl = false) ∧
      r₀'.follow signals' = some r' ∧ r'.phase = .over result ∧ r'.executor.cancelled = false ∧
      ∀ order, SettlesBy order r₀ signals → SettlesBy order r₀' signals' := by
  obtain ⟨x', hstart, hx'⟩ := start_continuous h
  have hr := start_upright (hg.imp fun _ hb => hb.tame) h
  obtain ⟨signals', x'', hcalls, hf', hx'', horder⟩ := unpaused_follow hr hf hc hx'
  refine ⟨_, signals', _, hstart, hcalls, hf', ?_, hx''.cancelled, horder⟩
  rw [show (r.under x'').phase = r.phase.awake from rfl, hp]
  rfl

/-- **Pauses and steps do not change results.** Let a run come to its end without being cancelled, in a graph whose
behaviors depend on nothing but what they start from. It settles its activations in some order. Every other run of the
graph that settles them in this order and comes to its end comes to the same end: it makes no difference how the runs are
started, paused, resumed and stepped, how time passes, and how the activations take turns. If the nodes make no calls
themselves, one of these runs is started at full speed and left alone. -/
theorem pauses_immaterial (hg : g.Hosts Behavior.Determined) (h : start x g context mode now = .ok r₀)
    (hf : r₀.follow signals = some r) (hp : r.phase = .over result) (hc : r.executor.cancelled = false) :
    (∃ order, SettlesBy order r₀ signals) ∧
      (∀ order x' mode' now' r₀' signals' r' result', SettlesBy order r₀ signals →
        start x' g context mode' now' = .ok r₀' → x'.config.maxRelayDepth = x.config.maxRelayDepth →
        r₀'.follow signals' = some r' → r'.phase = .over result' → r'.executor.cancelled = false →
        SettlesBy order r₀' signals' → Agrees r₀ signals r result r₀' signals' r' result') ∧
      (g.Hosts Behavior.Silent → ∃ r₀' signals' r', start x g context .continuous now = .ok r₀' ∧
        (∀ s ∈ signals', s.isControl = false) ∧ r₀'.follow signals' = some r' ∧ r'.phase = .over result ∧
        r'.executor.cancelled = false ∧ (∀ order, SettlesBy order r₀ signals → SettlesBy order r₀' signals') ∧
        Agrees r₀ signals r result r₀' signals' r' result) := by
  have hr := start_upright (hg.imp fun _ hb => hb.tame) h
  obtain ⟨order, horder⟩ := hr.exists_order hf hc
  refine ⟨⟨order, horder⟩, ?_, fun hsilent => ?_⟩
  · intro order x' mode' now' r₀' signals' r' result' horder h' hdepth hf' hp' hc' horder'
    exact agrees hg h h' hdepth hf hf' hp hp' hc hc' horder horder'
  · obtain ⟨r₀', signals', r', h', hcalls, hf', hp', hc', hsettles⟩ := exists_uninterrupted hsilent h hf hp hc
    have hagrees := agrees hg h h' rfl hf hf' hp hp' hc hc' horder (hsettles order horder)
    exact ⟨r₀', signals', r', h', hcalls, hf', hp', hc', hsettles, hagrees⟩

end Pauses

/-! ### A run in steps -/

/-- The signals of a run that is paused at its start, makes one step, and then runs to its end. -/
def resumedPath : List Signal :=
  steppedPath ++ [.drive, .control .resume, .drive, .drive, .drive]

/-- The run at its end. -/
def resumedEnd : Run :=
  (steppedStart.follow resumedPath).getD steppedStart

theorem silent_signalPair : Graph.signalPair.Hosts Behavior.Silent := by
  refine Graph.built_signalPair.reached.hosts fun {id n} hn => ?_
  rw [Graph.node?_signalPair] at hn
  split_ifs at hn <;> cases hn <;> exact fun _ _ => .finish

/-- The run in steps has completed, like a run that was left alone. -/
theorem pauses_immaterial_resumed : ∃ result, resumedEnd.phase = .over result ∧ result.outcome = .completed ∧
    ∃ r₀' signals' r', start (.create .standard) Graph.signalPair default .continuous 0 = .ok r₀' ∧
      (∀ s ∈ signals', s.isControl = false) ∧ r₀'.follow signals' = some r' ∧
      Agrees steppedStart resumedPath resumedEnd result r₀' signals' r' result := by
  have hstart : start (.create .standard) Graph.signalPair default .step 0 = .ok steppedStart := rfl
  have hfollow : steppedStart.follow resumedPath = some resumedEnd := follow_getD (by decide +kernel)
  have hphase : resumedEnd.phase = .over ⟨⟨7⟩, .completed, 1, 0⟩ := Phase.eq_over_of_report? (by decide +kernel)
  have hcancelled : resumedEnd.executor.cancelled = false := by decide +kernel
  have hdetermined : Graph.signalPair.Hosts Behavior.Determined :=
    silent_signalPair.imp fun _ hb a m => (hb a m).determined m
  obtain ⟨-, -, halone⟩ := pauses_immaterial hdetermined hstart hfollow hphase hcancelled
  obtain ⟨r₀', signals', r', h', hcalls, hf', -, -, -, hagrees⟩ := halone silent_signalPair
  exact ⟨_, hphase, rfl, r₀', signals', r', h', hcalls, hf', hagrees⟩

end Run

end Dataflow
