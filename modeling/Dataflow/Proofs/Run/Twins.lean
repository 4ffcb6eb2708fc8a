import Dataflow.Proofs.Run.Barrier
import Dataflow.Proofs.Run.Fellows
import Dataflow.Proofs.Run.Likeness

/-!
# Runs that move the same data

Two runs whose graphs look alike move the same data and publish the same events about it, even if one of them does so later
than the other.

* `Run.Kin` says what the runs have in common, whatever they are about to do; the functions of the driver keep it;
* `Run.Twin` says that they are about to do the same;
* `Run.Through.twin`: as long as outputs are moved, they do the same and publish the same events.
-/

namespace Dataflow

/-- Whether outputs are moved. -/
def Phase.isMoving : Phase → Bool
  | .propagating _ | .relaying .. => true
  | _ => false

/-- Phases in which the same is about to be done, where the clock of one run shows `d` when that of the other shows `d'`. -/
inductive Phase.Twin (d d' : Nat) : Phase → Phase → Prop
  | boundary : Twin d d' .boundary .boundary
  | propagating (agenda : Agenda) : Twin d d' (.propagating agenda) (.propagating agenda)
  | relaying {wakeAt wakeAt' t t' : Nat} (hwake : wakeAt' + d = wakeAt + d') (ht : t' + d = t + d') (node : NodeId)
      (index : Nat) (script : Script) (depth : Nat) (agenda : Agenda) :
      Twin d d' (.relaying ⟨wakeAt, ⟨node, index, t, script⟩⟩ depth agenda)
        (.relaying ⟨wakeAt', ⟨node, index, t', script⟩⟩ depth agenda)
  | delaying {wakeAt wakeAt' : Nat} (hwake : wakeAt' + d = wakeAt + d') : Twin d d' (.delaying wakeAt) (.delaying wakeAt')
  | ending (outcome : Outcome) : Twin d d' (.ending outcome) (.ending outcome)
  | broken (message : String) : Twin d d' (.broken message) (.broken message)

theorem Phase.Twin.isMoving {d d' : Nat} {p p' : Phase} (h : p.Twin d d' p') : p'.isMoving = p.isMoving := by
  cases h <;> rfl

namespace Run

/-- Runs that have in common what the moving of outputs depends on. -/
structure Kin (s : Supply) (d d' : Nat) (r r' : Run) : Prop where
  graph : r.graph.Resembles s r'.graph
  executor : r.executor.Peer r'.executor
  context : r'.context = r.context
  iteration : r'.iteration = r.iteration
  stepping : r'.stepping = r.stepping
  now : r'.now + d = r.now + d'

/-- Runs that are about to do the same. -/
structure Twin (s : Supply) (d d' : Nat) (r r' : Run) : Prop extends Kin s d d' r r' where
  phase : Phase.Twin d d' r.phase r'.phase

variable {s : Supply} {d d' : Nat} {r r' : Run}

/-! ### The driver, function by function -/

theorem Kin.publish (h : r.Kin s d d' r') (kind : EventKind) : (r.publish kind).Kin s d d' (r'.publish kind) :=
  { h with executor := h.executor.enact (.publish kind) }

theorem Kin.failureLine (h : r.Kin s d d' r') (id : NodeId) (message : String) :
    r'.failureLine id message = r.failureLine id message := by
  rw [Run.failureLine, labelOf_eq, h.graph.labelOf, Run.failureLine, labelOf_eq]

theorem perform_kin (node : NodeId) (script : Script) (h : r.Kin s d d' r') :
    (perform node script r').1 = (perform node script r).1 ∧
      performed node script r'.executor = performed node script r.executor ∧
      (perform node script r).2.Kin s d d' (perform node script r').2 := by
  induction script generalizing r r' with
  | finish | panic => exact ⟨rfl, rfl, h⟩
  | emit event rest ih =>
    obtain ⟨hstop, hdeeds, hlater⟩ := ih (h.publish (.nodeEvent node event))
    exact ⟨hstop, congrArg (_ :: ·) hdeeds, hlater⟩
  | control c rest ih =>
    have hpeer := h.executor.enact (.call c)
    have hanswer : (r'.executor.call c).1 = (r.executor.call c).1 := by
      rw [Executor.call_fst, h.executor.state, Executor.call_fst]
    have hstate : (r'.executor.call c).2.state = (r.executor.call c).2.state := hpeer.state
    have hkin : ({ r with executor := (r.executor.call c).2 } : Run).Kin s d d' { r' with executor := (r'.executor.call c).2 } :=
      { h with executor := hpeer }
    obtain ⟨hstop, hdeeds, hlater⟩ := ih (r.executor.call c).1 (r.executor.call c).2.state hkin
    simp only [perform, performed]
    rw [hanswer, hstate]
    exact ⟨hstop, congrArg (_ :: ·) hdeeds, hlater⟩
  | log entry rest ih =>
    have hkin : ({ r with log := r.log ++ [entry] } : Run).Kin s d d' { r' with log := r'.log ++ [entry] } := { h with }
    exact ih hkin
  | remember memory rest ih =>
    have hkin : (r.modifyNode node fun n => { n with memory }).Kin s d d' (r'.modifyNode node fun n => { n with memory }) :=
      { h with graph := h.graph.enact (.remember node memory) }
    exact ih hkin
  | sleep ms heedsCancel rest =>
    rw [perform_sleep, perform_sleep, h.executor.cancelled]
    exact ⟨rfl, rfl, h⟩

theorem prepare_kin (h : r.Kin s d d' r') {n n' : Node} (hn : r.graph.node? n.id = some n) (hn' : r'.graph.node? n'.id = some n')
    (hview : n'.rename s.view = n.rename s.view) :
    (r'.prepare n').1 = (r.prepare n).1 ∧ (r.prepare n).2.Kin s d d' (r'.prepare n').2 := by
  have hprepared : n'.prepare.1 = n.prepare.1 := by
    have hfst : ∀ k : Node, k.prepare.1 = (k.rename s.view).prepare.1 := fun k => by rw [Node.prepare_rename]
    rw [hfst, hview, ← hfst]
  have hactivation : n'.activation n'.prepare.1 r'.iteration r'.context = n.activation n.prepare.1 r.iteration r.context := by
    rw [hprepared, h.iteration, h.context]
    exact (congrArg (fun k : Node => k.activation n.prepare.1 r.iteration r.context) hview :)
  have hgraph := h.graph.enact (.prepare (n.activation n.prepare.1 r.iteration r.context))
  rw [← prepare_graph hn] at hgraph
  rw [← hactivation, ← prepare_graph hn'] at hgraph
  refine ⟨?_, { h with graph := hgraph }⟩
  have hbehavior : n'.behavior = n.behavior := (congrArg Node.behavior hview :)
  have hmemory : n'.memory = n.memory := (congrArg Node.memory hview :)
  change n'.behavior.activate _ n'.memory = n.behavior.activate _ n.memory
  rw [hbehavior, hmemory]
  exact congrArg (n.behavior.activate · n.memory) hactivation

theorem complete_kin (h : r.Kin s d d' r') {t t' : Nat} (ht : t' + d = t + d') (id : NodeId) (result : Except NodeError Output) :
    (r'.complete id t' result).1 = (r.complete id t result).1 ∧
      completed r'.graph id result (r'.now - t') = completed r.graph id result (r.now - t) ∧
      (r.complete id t result).2.Kin s d d' (r'.complete id t' result).2 := by
  have hanswer := Graph.completion_view h.graph.left.le h.graph.right.le (h.graph.view id) result
  have hduration : r'.now - t' = r.now - t := by
    have hnow := h.now
    omega
  have hcompleted : completed r'.graph id result (r'.now - t') = completed r.graph id result (r.now - t) := by
    unfold completed
    unfold Graph.completion at hanswer
    rcases Graph.view_cases (h.graph.view id) with ⟨hn, hn'⟩ | ⟨n, n', hn, hn', -⟩
    · rw [hn, hn']
    · rw [hn, hn'] at hanswer
      dsimp only at hanswer
      rw [hn, hn', hduration]
      dsimp only
      rw [hanswer]
  refine ⟨by rw [complete_fst, complete_fst, hanswer], hcompleted, ?_⟩
  have hexecutor : (r.complete id t result).2.executor.Peer (r'.complete id t' result).2.executor := by
    rw [complete_executor, complete_executor, hcompleted]
    exact h.executor.replay _
  have hkin : ({ r with executor := (r.complete id t result).2.executor, graph := r.graph.settle id result } : Run).Kin s d d'
      { r' with executor := (r'.complete id t' result).2.executor, graph := r'.graph.settle id result } :=
    { h with graph := h.graph.enact (.settle id result), executor := hexecutor }
  have heq := congrArg Prod.snd (r.complete_eq id t result)
  have heq' := congrArg Prod.snd (r'.complete_eq id t' result)
  dsimp only at heq heq'
  rwa [← heq, ← heq'] at hkin

theorem afterRelay_twin (h : r.Kin s d d' r') {t t' : Nat} (ht : t' + d = t + d') (node : NodeId) (index : Nat) (script : Script)
    (depth : Nat) (agenda : Agenda) (stop : Stop) :
    (afterRelay ⟨node, index, t, script⟩ depth agenda stop r).Twin s d d'
        (afterRelay ⟨node, index, t', script⟩ depth agenda stop r') ∧
      closing ⟨node, index, t', script⟩ stop r' = closing ⟨node, index, t, script⟩ stop r := by
  cases stop with
  | finished result =>
    obtain ⟨hanswer, hcompleted, hkin⟩ := complete_kin h ht node result
    refine ⟨?_, congrArg (List.map Deed.publish) hcompleted⟩
    unfold afterRelay
    dsimp only
    rcases hc : r.complete node t result with ⟨answer, r₁⟩
    rcases hc' : r'.complete node t' result with ⟨answer', r₁'⟩
    rw [hc, hc'] at hanswer hkin
    obtain rfl : answer' = answer := hanswer
    cases answer' with
    | error e =>
      have hline := hkin.failureLine node e.message
      dsimp only at hline ⊢
      rw [hline]
      exact { hkin with phase := .ending _ }
    | ok => exact { hkin with graph := hkin.graph.enact (.clear node), phase := .propagating _ }
  | panicked message => exact ⟨{ h with phase := .broken message }, rfl⟩
  | asleep ms rest =>
    have hwake : r'.now + ms + d = r.now + ms + d' := by
      have hnow := h.now
      omega
    exact ⟨{ h with phase := .relaying hwake ht node index rest depth agenda }, rfl⟩

/-- A relay goes on in the same way in both runs. -/
theorem carry_twin (h : r.Kin s d d' r') {t t' : Nat} (ht : t' + d = t + d') (node : NodeId) (index : Nat) (script : Script)
    (depth : Nat) (agenda : Agenda) :
    (r.carry ⟨node, index, t, script⟩ depth agenda).Twin s d d' (r'.carry ⟨node, index, t', script⟩ depth agenda) ∧
      r'.carried ⟨node, index, t', script⟩ script = r.carried ⟨node, index, t, script⟩ script := by
  obtain ⟨hstop, hdeeds, hkin⟩ := perform_kin node script h
  obtain ⟨htwin, hclosing⟩ := afterRelay_twin hkin ht node index script depth agenda (perform node script r).1
  unfold carry carried
  dsimp only
  rw [hdeeds, hstop, hclosing]
  exact ⟨htwin, rfl⟩

/-- A relay begins in the same way in both runs. -/
theorem launch_twin (h : r.Kin s d d' r') {n n' : Node} (hn : r.graph.node? n.id = some n)
    (hn' : r'.graph.node? n'.id = some n') (hview : n'.rename s.view = n.rename s.view) :
    (r'.launch n').1 = ⟨n.id, 0, r'.now, (r.launch n).1.script⟩ ∧ (r.launch n).2.Kin s d d' (r'.launch n').2 := by
  have hid : n'.id = n.id := (congrArg Node.id hview :)
  have htype : n'.typeId = n.typeId := (congrArg Node.typeId hview :)
  obtain ⟨hscript, hkin⟩ := prepare_kin (h.publish (.nodeStarted n.id n.typeId)) hn hn' hview
  unfold launch
  rw [hid, htype]
  exact ⟨congrArg (Task.mk n.id 0 r'.now) hscript, hkin⟩

/-- The same nodes are there, up to the names of their ports. -/
theorem Kin.node? (h : r.Kin s d d' r') {id : NodeId} {n : Node} (hn : r.graph.node? id = some n) :
    ∃ n', r'.graph.node? id = some n' ∧ n'.rename s.view = n.rename s.view ∧ n'.id = n.id ∧ n'.typeId = n.typeId := by
  rcases Graph.view_cases (h.graph.view id) with ⟨hnone, -⟩ | ⟨k, n', hk, hn', hview⟩
  · rw [hnone] at hn
    cases hn
  · rw [hk] at hn
    cases hn
    exact ⟨n', hn', hview, (congrArg Node.id hview :), (congrArg Node.typeId hview :)⟩

/-- The same relays are next. -/
theorem Kin.triggered (h : r.Kin s d d' r') (relays : List NodeId) (depth : Nat) (agenda : Agenda) :
    ({ r with phase := .propagating { agenda with
        work := (relays.filter r.graph.isReady).map (Work.activate · depth) ++ agenda.work } } : Run).Twin s d d'
      { r' with phase := .propagating { agenda with
        work := (relays.filter r'.graph.isReady).map (Work.activate · depth) ++ agenda.work } } := by
  rw [show r'.graph.isReady = r.graph.isReady from funext h.graph.isReady]
  exact { h with phase := .propagating _ }

theorem propagateFrom_twin (h : r.Kin s d d' r') (id : NodeId) (depth : Nat) (agenda : Agenda) :
    (r.propagateFrom id depth agenda).Twin s d d' (r'.propagateFrom id depth agenda) ∧
      (r'.graph.transferOutputs id).transfers = (r.graph.transferOutputs id).transfers := by
  have hdelivery := h.graph.transferOutputs id
  refine ⟨?_, hdelivery.transfers⟩
  have hmoved : ({ r with graph := (r.graph.transferOutputs id).graph } : Run).Kin s d d'
      { r' with graph := (r'.graph.transferOutputs id).graph } := { h with graph := hdelivery.graph }
  have htold := hmoved.publish (.dataPropagated id (r.graph.transferOutputs id).transfers)
  unfold propagateFrom
  dsimp only
  rw [hdelivery.transfers, hdelivery.failure, hdelivery.relays]
  cases (r.graph.transferOutputs id).failure with
  | some error =>
    dsimp only
    split_ifs
    · exact { hmoved with phase := .ending _ }
    · exact { htold with phase := .ending _ }
  | none =>
    dsimp only
    split_ifs
    · exact hmoved.triggered ..
    · exact htold.triggered ..

theorem endIteration_twin (h : r.Kin s d d' r') : r.endIteration.Twin s d d' r'.endIteration ∧ r'.ended = r.ended := by
  have hended : r'.ended = r.ended := by rw [ended, h.stepping, ended]
  refine ⟨?_, hended⟩
  have hexecutor : r.endIteration.executor.Peer r'.endIteration.executor := by
    rw [endIteration_executor, endIteration_executor, hended]
    exact h.executor.replay _
  exact { h with executor := hexecutor, stepping := rfl, phase := .boundary }

theorem Kin.delay? (h : r.Kin s d d' r') : r'.delay? = r.delay? := by
  rw [Run.delay?, h.context, h.executor.config, Run.delay?]

/-! ### Step by step -/

theorem Twin.propagating (h : r.Twin s d d' r') {agenda : Agenda} (hp : r.phase = .propagating agenda) :
    r'.phase = .propagating agenda := by
  have hphase := h.phase
  rw [hp] at hphase
  generalize r'.phase = p at hphase ⊢
  cases hphase
  rfl

theorem Twin.relaying (h : r.Twin s d d' r') {relay : Sleeper} {depth : Nat} {agenda : Agenda}
    (hp : r.phase = .relaying relay depth agenda) : ∃ wakeAt' t', wakeAt' + d = relay.wakeAt + d' ∧
      t' + d = relay.task.startedAt + d' ∧
      r'.phase = .relaying ⟨wakeAt', { relay.task with startedAt := t' }⟩ depth agenda := by
  have hphase := h.phase
  rw [hp] at hphase
  generalize r'.phase = p at hphase ⊢
  cases hphase with
  | @relaying _ wakeAt' _ t' hwake ht => exact ⟨wakeAt', t', hwake, ht, rfl⟩

/-- As long as outputs are moved, the driver decides alike in both runs, and publishes the same. -/
theorem Twin.drives {r₁ : Run} {acts : List Act} {deeds : List Deed} (h : r.Twin s d d' r') (hd : r.Drives acts deeds r₁)
    (hp : r.phase.isMoving = true) : ∃ acts' r₁', r'.Drives acts' deeds r₁' ∧ r₁.Twin s d d' r₁' := by
  have hkin := h.toKin
  have hnow := hkin.now
  have hlimit : r'.executor.config.maxRelayDepth = r.executor.config.maxRelayDepth :=
    congrArg ExecutorConfig.maxRelayDepth hkin.executor.config
  have hready : ∀ {id : NodeId} {b : Bool}, r.graph.isReady id = b → r'.graph.isReady id = b := (hkin.graph.isReady _).trans
  have hcancelled : ∀ {b : Bool}, r.executor.cancelled = b → r'.executor.cancelled = b := hkin.executor.cancelled.trans
  cases hd with
  | @move id depth work origins hq =>
    obtain ⟨htwin, htransfers⟩ := propagateFrom_twin hkin id depth ⟨work, origins⟩
    have hmove := Drives.move (h.propagating hq)
    rw [htransfers] at hmove
    exact ⟨_, _, hmove, htwin⟩
  | skip hq hr => exact ⟨_, _, .skip (h.propagating hq) (hready hr), { hkin with phase := .propagating _ }⟩
  | @exceed id _ _ _ _ hq hn hr hdepth =>
    obtain ⟨n', hn', -⟩ := hkin.node? hn
    have hline : r'.depthFailure id = r.depthFailure id := by
      rw [depthFailure, hlimit, hkin.failureLine, depthFailure]
    have hexceed := Drives.exceed (h.propagating hq) hn' (hready hr) (hlimit.symm ▸ hdepth)
    rw [hline] at hexceed
    exact ⟨_, _, hexceed, { hkin with phase := .ending _ }⟩
  | @refuse _ n _ _ _ hq hn hr hdepth hc =>
    obtain ⟨n', hn', -, hid, htype⟩ := hkin.node? hn
    have hrefuse := Drives.refuse (h.propagating hq) hn' (hready hr) (hlimit.symm ▸ hdepth) (hcancelled hc)
    have hstarted := hkin.publish (.nodeStarted n.id n.typeId)
    rw [hid, htype] at hrefuse
    exact ⟨_, _, hrefuse, { hstarted with graph := hstarted.graph.enact (.reset n.id), phase := .ending _ }⟩
  | @relay id n depth work origins hq hn hr hdepth hc =>
    obtain ⟨n', hn', hview, hid, htype⟩ := hkin.node? hn
    obtain rfl : n.id = id := hkin.graph.left.identified.named hn
    obtain ⟨htask, hlaunch⟩ := launch_twin hkin hn (hid.symm ▸ hn') hview
    obtain ⟨htwin, hcarried⟩ := carry_twin hlaunch hnow n.id 0 (r.launch n).1.script depth ⟨work, origins⟩
    have hrelay := Drives.relay (h.propagating hq) hn' (hready hr) (hlimit.symm ▸ hdepth) (hcancelled hc)
    rw [htask, hid, htype, hcarried] at hrelay
    exact ⟨_, _, hrelay, htwin⟩
  | next hq => exact ⟨_, _, .next (h.propagating hq), { hkin with phase := .propagating _ }⟩
  | delay hq hdelay =>
    refine ⟨_, _, .delay (h.propagating hq) (hkin.delay?.trans hdelay), { hkin with phase := .delaying ?_ }⟩
    omega
  | turn hq hdelay =>
    obtain ⟨htwin, hended⟩ := endIteration_twin hkin
    have hturn := Drives.turn (h.propagating hq) (hkin.delay?.trans hdelay)
    rw [hended] at hturn
    exact ⟨_, _, hturn, htwin⟩
  | @leave relay _ _ hq hc =>
    obtain ⟨wakeAt', t', -, -, hq'⟩ := h.relaying hq
    exact ⟨_, _, .leave hq' (hcancelled hc),
      { hkin with graph := hkin.graph.enact (.reset relay.task.node), phase := .ending _ }⟩
  | @resume relay depth agenda hq hc hwake =>
    obtain ⟨wakeAt', t', hwake', ht, hq'⟩ := h.relaying hq
    obtain ⟨htwin, hcarried⟩ := carry_twin hkin ht relay.task.node relay.task.index relay.task.script depth agenda
    have hresume := Drives.resume hq' (hcancelled hc) (by dsimp only; omega)
    dsimp only at hresume
    rw [hcarried] at hresume
    exact ⟨_, _, hresume, htwin⟩
  | desist hq | begin hq | park hq | lose hq | rouse hq | look hq | abandon hq | settle hq | pass hq | fail hq | quit hq
    | elapse hq | report hq =>
    rw [hq] at hp
    cases hp

/-- As long as outputs are moved, whatever comes in one run can come in the other, and publishes the same. -/
theorem Twin.step (h : r.Twin s d d' r') (hp : r.phase.isMoving = true) {signal : Signal} {r₁ : Run}
    (hs : r.step? signal = some r₁) :
    ∃ r₁', r'.step? signal = some r₁' ∧ r₁.Twin s d d' r₁' ∧ r'.voices signal = r.voices signal := by
  cases signal with
  | drive =>
    obtain ⟨acts', r₁', hd', htwin⟩ := h.drives (drives_of_drive? hs) hp
    obtain ⟨hs', -, hdriven⟩ := hd'.eq
    exact ⟨r₁', hs', htwin, by rw [voices, deeds, hdriven, h.executor.state, voices, deeds]⟩
  | run node =>
    obtain ⟨batch, task, hq, -, -⟩ := runNode?_eq_some.1 hs
    rw [hq] at hp
    cases hp
  | wake node =>
    obtain ⟨batch, sleeper, hq, -, -, -⟩ := wakeNode?_eq_some.1 hs
    rw [hq] at hp
    cases hp
  | control c =>
    cases hs
    exact ⟨_, rfl, { h with executor := h.executor.enact (.call c) }, by rw [voices, deeds, h.executor.state, voices, deeds]⟩
  | pass ms =>
    cases hs
    have hnow : r'.now + ms + d = r.now + ms + d' := by
      have hnow := h.now
      omega
    exact ⟨_, rfl, { h with now := hnow }, rfl⟩

/-- **As long as outputs are moved, runs that are about to do the same publish the same events.** -/
theorem Through.twin {signals : List Signal} {r₁ : Run} (h : r.Through Phase.isMoving signals r₁) (ht : r.Twin s d d' r') :
    ∃ r₁', r'.Through Phase.isMoving signals r₁' ∧ r₁.Twin s d d' r₁' ∧ r'.events signals = r.events signals := by
  induction h generalizing r' with
  | done => exact ⟨r', .done r', ht, rfl⟩
  | step hp hs _ ih =>
    obtain ⟨q, hs', htwin, hvoices⟩ := ht.step hp hs
    obtain ⟨r₁', hlater, hlast, hevents⟩ := ih htwin
    have hp' : r'.phase.isMoving = true := ht.phase.isMoving.trans hp
    refine ⟨r₁', .step hp' hs' hlater, hlast, ?_⟩
    rw [events, hs', hvoices, Option.elim_some, hevents, events, hs, Option.elim_some]

end Run

end Dataflow
