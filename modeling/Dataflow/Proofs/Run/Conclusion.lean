import Dataflow.Proofs.Run.Record
import Dataflow.Proofs.Run.Statuses
import Dataflow.Proofs.Run.Unattended

/-!
# How runs conclude

Runs end in many places, and calls may have changed the state of the executor on the way. However a run ends, it leaves
the executor idle and no node executing, and it reports once.

* `Phase.Relies` says of a phase that the relays to be activated in it do not break down, and `Run.relies_step` that every
  step keeps this, so that the driver of a run whose relays are reliable is never lost;
* `Run.Reported` connects the events with the phase of a run: the end is told once, at the end, from a state that it may
  be reached from;
* `Run.ends_cleanly`: every ending is clean.
-/

namespace Dataflow

/-! ### Relays that do not break down -/

/-- A behavior that does not break down if its nodes are relays. -/
def Behavior.Reliable (b : Behavior) : Prop :=
  b.isDirectThrough = true → b.Unbroken

theorem Graph.Hosts.unbroken_relay {g : Graph} (hg : g.Hosts Behavior.Reliable) {id : NodeId} {n : Node}
    (hrelay : g.isRelay id = true) (hn : g.node? id = some n) (a : Activation) (m : Memory) :
    (n.behavior.activate a m).Unbroken := by
  have hdirect : n.behavior.isDirectThrough = true := by
    simpa only [Graph.isRelay, hn, Option.any_some, Node.isDirectThrough] using hrelay
  exact hg.behaves hn hdirect a m

namespace Run

/-- An activation has not broken down, and will not. -/
def Stop.Unbroken : Stop → Prop
  | .finished _ => True
  | .panicked _ => False
  | .asleep _ rest => rest.Unbroken

theorem unbroken_perform {script : Script} (h : script.Unbroken) (node : NodeId) (r : Run) :
    (perform node script r).1.Unbroken := by
  induction h generalizing r with
  | finish => trivial
  | emit _ ih => exact ih _
  | control _ ih => exact ih _ _ _
  | log _ ih => exact ih _
  | remember _ ih => exact ih _
  | sleep hrest =>
    rw [perform_sleep]
    dsimp only
    split_ifs
    · trivial
    · exact hrest

end Run

/-- All nodes to be activated are among the given ones. -/
def Work.Among (nodes : NodeId → Bool) (work : List Work) : Prop :=
  ∀ id depth, .activate id depth ∈ work → nodes id = true

/-- Only the given nodes are activated while outputs are moved, and none of these activations breaks down. -/
def Phase.Relies (nodes : NodeId → Bool) : Phase → Prop
  | .propagating agenda => Work.Among nodes agenda.work
  | .relaying relay _ agenda => relay.task.script.Unbroken ∧ Work.Among nodes agenda.work
  | .broken _ => False
  | _ => True

theorem Work.Among.tail {nodes : NodeId → Bool} {w : Work} {work : List Work} (h : Among nodes (w :: work)) :
    Among nodes work :=
  fun id depth hmem => h id depth (List.mem_cons_of_mem _ hmem)

namespace Run

variable {r : Run}

theorem relies_carry {nodes : NodeId → Bool} {task : Task} (hscript : task.script.Unbroken) (depth : Nat)
    {agenda : Agenda} (hwork : Work.Among nodes agenda.work) (r : Run) :
    (r.carry task depth agenda).phase.Relies nodes := by
  have hstop := unbroken_perform hscript task.node r
  unfold carry
  cases hperf : (perform task.node task.script r).1 with
  | finished result =>
    rcases hc : (perform task.node task.script r).2.complete task.node task.startedAt result with ⟨completed, r'⟩
    simp only [afterRelay, hc]
    cases completed with
    | ok =>
      refine fun id depth hmem => hwork id depth ((List.mem_cons.1 hmem).resolve_left ?_)
      exact Work.noConfusion
    | error e => trivial
  | panicked message =>
    rw [hperf] at hstop
    exact hstop.elim
  | asleep ms rest =>
    rw [hperf] at hstop
    exact ⟨hstop, hwork⟩

theorem relies_propagate (hg : r.graph.Named) (id : NodeId) (depth : Nat) {agenda : Agenda}
    (hwork : Work.Among r.graph.isRelay agenda.work) :
    (r.propagateFrom id depth agenda).phase.Relies r.graph.isRelay := by
  rw [propagateFrom_phase]
  cases (r.graph.transferOutputs id).failure with
  | some error => trivial
  | none =>
    intro other depth' hmem
    rcases List.mem_append.1 hmem with hmem | hmem
    · obtain ⟨relay, hrelay, heq⟩ := List.mem_map.1 hmem
      cases heq
      have hrelay' := Graph.isRelay_transferOutputs hg (List.mem_of_mem_filter hrelay)
      exact hrelay'
    · exact hwork other depth' hmem

/-- No step loses the driver. -/
theorem Drives.relies {r' : Run} {acts : List Act} {deeds : List Deed} (hd : r.Drives acts deeds r')
    (hg : r.graph.Hosts Behavior.Reliable) (h : r.phase.Relies r.graph.isRelay) : r'.phase.Relies r.graph.isRelay := by
  cases hd with
  | begin =>
    unfold beginIteration
    dsimp only
    split_ifs <;> trivial
  | pass => exact fun _ _ hmem => absurd hmem List.not_mem_nil
  | move hp =>
    rw [hp] at h
    exact relies_propagate hg.isNamed _ _ h.tail
  | skip hp =>
    rw [hp] at h
    exact h.tail
  | relay hp hn =>
    rw [hp] at h
    exact relies_carry (hg.unbroken_relay (h _ _ List.mem_cons_self) hn _ _) _ h.tail _
  | next =>
    intro id' depth hmem
    cases List.mem_singleton.1 hmem
  | resume hp =>
    rw [hp] at h
    exact relies_carry h.1 _ h.2 r
  | _ => trivial

theorem relies_step (hg : r.graph.Hosts Behavior.Reliable) (h : r.phase.Relies r.graph.isRelay) {r' : Run} {s : Signal}
    (hs : r.step? s = some r') : r'.phase.Relies r'.graph.isRelay := by
  have hrelay : r'.graph.isRelay = r.graph.isRelay := by
    rw [graph_step hg.isNamed hs]
    exact funext fun id => Graph.isRelay_replay hg.isNamed _ id
  rw [hrelay]
  cases s with
  | drive => exact (drives_of_drive? hs).relies hg h
  | run node =>
    obtain ⟨batch, task, batch', -, -, rfl, -⟩ := runNode_turned hs
    trivial
  | wake node =>
    obtain ⟨batch, batch', -, rfl, -⟩ := wakeNode_turned hs
    trivial
  | control | pass =>
    cases hs
    exact h

theorem relies_follow (hg : r.graph.Hosts Behavior.Reliable) (h : r.phase.Relies r.graph.isRelay) {r' : Run}
    {signals : List Signal} (hf : r.follow signals = some r') : r'.phase.Relies r'.graph.isRelay := by
  induction signals generalizing r with
  | nil =>
    cases hf
    exact h
  | cons s rest ih =>
    obtain ⟨r₁, hs, hf⟩ := Option.bind_eq_some_iff.1 hf
    refine ih ?_ (relies_step hg h hs) hf
    rw [graph_step hg.isNamed hs]
    exact hg.replay _

end Run

/-! ### The end is told once -/

/-- The transition by which an outcome returns to idle. -/
def Outcome.transition : Outcome → Transition
  | .completed => .complete
  | .cancelled => .cancel
  | .failed _ => .fail

/-- Every run that is under way may end, whatever its outcome. -/
theorem ExecutionState.next?_outcome {s : ExecutionState} (h : s ≠ .idle) (outcome : Outcome) :
    s.next? outcome.transition = some .idle := by
  cases s with
  | idle => exact absurd rfl h
  | running | paused | stepping => cases outcome <;> rfl

theorem isTerminal_terminalEvent (result : ExecutionResult) : (Executor.terminalEvent result).isTerminal = true := by
  unfold Executor.terminalEvent
  cases result.outcome <;> rfl

/-- No event reports how a run ended. -/
def EventKind.Open (events : List EventKind) : Prop :=
  ∀ kind ∈ events, kind.isTerminal = false

theorem EventKind.Open.append {events events' : List EventKind} (h : Open events) (h' : Open events') :
    Open (events ++ events') :=
  fun kind hkind => (List.mem_append.1 hkind).elim (h kind) (h' kind)

namespace Deed

/-- Whether a deed does not report how a run ended. -/
def isOpen : Deed → Bool
  | .publish kind => !kind.isTerminal
  | .call _ | .endStep | .takeWake => true
  | .finish _ => false

theorem isOpen_of_isQuiet {d : Deed} (h : d.isQuiet = true) : d.isOpen = true := by
  cases d with
  | publish kind =>
    simp only [isQuiet, Bool.and_eq_true] at h
    exact h.2
  | call | takeWake => rfl
  | endStep | finish => cases h

theorem open_voicesAll {deeds : List Deed} (h : ∀ d ∈ deeds, d.isOpen = true) (s : ExecutionState) :
    EventKind.Open (voicesAll s deeds) := by
  intro kind hkind
  rcases mem_voicesAll hkind with hmem | hchange | ⟨result, hmem, -⟩
  · simpa [isOpen] using h _ hmem
  · obtain ⟨source, target, rfl⟩ := EventKind.isChange_iff.1 hchange
    rfl
  · cases h _ hmem

end Deed

namespace Run

/-- The last events of a run: the state, which was not idle before, is idle again, and then the result is reported. -/
structure Closing (x : Executor) (events : List EventKind) (result : ExecutionResult) : Prop where
  own : result.executionId = x.executionId
  told : ∃ front s, events = front ++ [.stateChanged s .idle, Executor.terminalEvent result] ∧ EventKind.Open front ∧
    EventKind.reported front = s ∧ s.next? result.outcome.transition = some .idle

/-- What the events so far tell of the end of a run. -/
structure Reported (r : Run) (events : List EventKind) : Prop where
  before : r.phase.isFinal = false → EventKind.Open events
  after : ∀ result, r.phase = .over result → Closing r.executor events result

/-- **Every step tells the end in its place.** -/
theorem Reported.step {r r' : Run} {s : Signal} {events : List EventKind} (h : r.Reported events) (hk : r.Keeps events)
    (hs : r.step? s = some r') : r'.Reported (events ++ r.voices s) := by
  have hid : r'.executor.executionId = r.executor.executionId := by
    rw [executor_step hs]
    exact (r.executor.replay_spec _).2.2.1
  -- A step of a run that is not over tells nothing of its end, unless it reports the outcome.
  have hgoes : r.phase.isFinal = false → r'.phase.isFinal = false → (∀ d ∈ r.deeds s, d.isOpen = true) →
      r'.Reported (events ++ r.voices s) := by
    intro hfinal hfinal' hdeeds
    refine ⟨fun _ => (h.before hfinal).append (Deed.open_voicesAll hdeeds _), fun result hover => ?_⟩
    rw [hover] at hfinal'
    cases hfinal'
  cases step_turns hs with
  | quiet hdeeds _ _ hfinal =>
    cases hfinal' : r.phase.isFinal with
    | false => exact hgoes hfinal' (hfinal.trans hfinal') fun d hd => Deed.isOpen_of_isQuiet (hdeeds d hd)
    | true =>
      obtain ⟨result, hp⟩ : ∃ result, r.phase = .over result := by
        cases hp : r.phase <;> simp [Phase.isFinal, hp] at hfinal' ⊢
      obtain ⟨hvoices, hp', -⟩ := over_silent hp (hk.idle.2 hfinal') hs
      rw [hvoices, List.append_nil]
      refine ⟨fun hopen => ?_, fun result' hover => ?_⟩
      · rw [hfinal, hfinal'] at hopen
        cases hopen
      · obtain rfl : result = result' := Phase.over.inj (hp'.symm.trans hover)
        obtain ⟨hown, htold⟩ := h.after result hp
        exact ⟨hown.trans hid.symm, htold⟩
  | begin hp _ hdeeds hrest _ _ hfinal =>
    refine hgoes (by rw [hp]; rfl) hfinal fun d hd => ?_
    rw [hdeeds] at hd
    rcases List.mem_cons.1 hd with rfl | hd
    · rfl
    · exact Deed.isOpen_of_isQuiet (hrest d hd)
  | finish hfinal hdeeds _ hp' =>
    refine hgoes hfinal (by rw [hp']; rfl) fun d hd => ?_
    rw [hdeeds, ended] at hd
    split_ifs at hd
    · rw [List.mem_singleton.1 hd]
      rfl
    · cases hd
  | @report outcome hp hdeeds hp' =>
    have hfinal : r.phase.isFinal = false := by rw [hp]; rfl
    refine ⟨fun hopen => ?_, fun result hover => ?_⟩
    · rw [hp'] at hopen
      cases hopen
    · obtain rfl : r.summary outcome = result := Phase.over.inj (hp'.symm.trans hover)
      refine ⟨hid.symm, events, r.executor.state, ?_, h.before hfinal, hk.tracks.state, ?_⟩
      · rw [voices, hdeeds]
        rfl
      · exact ExecutionState.next?_outcome (hk.state_ne_idle hfinal) outcome

theorem Reported.follow {r r' : Run} {signals : List Signal} {events : List EventKind} (h : r.Reported events)
    (hk : r.Keeps events) (hf : r.follow signals = some r') : r'.Reported (events ++ r.events signals) := by
  induction signals generalizing r events with
  | nil =>
    cases hf
    rw [Run.events, List.append_nil]
    exact h
  | cons s rest ih =>
    obtain ⟨r₁, hs, hf⟩ := Option.bind_eq_some_iff.1 hf
    rw [Run.events, hs, Option.elim_some, ← List.append_assoc]
    exact ih (h.step hk hs) (hk.step hs) hf

theorem reported_start {x : Executor} {g : Graph} {context : Context} {mode : StartMode} {now : Nat} {r : Run}
    (h : start x g context mode now = .ok r) : r.Reported (opening g mode) := by
  refine ⟨fun _ => List.forall_mem_cons.2 ⟨rfl, List.forall_mem_singleton.2 rfl⟩, fun result hover => ?_⟩
  rw [(start_eq h).1] at hover
  cases hover

/-- What tells the end last has told it once. -/
theorem Closing.once {x : Executor} {events : List EventKind} {result : ExecutionResult} (h : Closing x events result) :
    events.filter EventKind.isTerminal = [Executor.terminalEvent result] := by
  obtain ⟨front, s, rfl, hopen, -⟩ := h.told
  have hnone : front.filter EventKind.isTerminal = [] :=
    List.filter_eq_nil_iff.2 fun kind hkind => by rw [hopen kind hkind]; exact Bool.false_ne_true
  rw [List.filter_append, hnone, List.nil_append, List.filter_cons_of_neg Bool.false_ne_true,
    List.filter_cons_of_pos (isTerminal_terminalEvent result), List.filter_nil]

/-! ### Every ending is clean -/

/-- How a run ends that was started on `x`, with all its events and its result. -/
structure CleanEnd (x : Executor) (r : Run) (events : List EventKind) (result : ExecutionResult) : Prop where
  /-- The executor is idle, so that another run may begin. -/
  idle : r.executor.state = .idle
  /-- The result is that of this execution, and all events were published under its identifier. -/
  own : result.executionId = r.executor.executionId
  published : r.executor.bus = x.bus.publishAll result.executionId events
  /-- One of the events reports how the run ended, and it reports the result. -/
  once : events.filter EventKind.isTerminal = [Executor.terminalEvent result]
  /-- It comes last, after the return to idle from the state in force, which the table allows. -/
  last : ∃ front s, events = front ++ [.stateChanged s .idle, Executor.terminalEvent result] ∧
    EventKind.reported front = s ∧ s.next? result.outcome.transition = some .idle
  /-- No node is left executing. -/
  settled : ∀ n ∈ r.graph.nodeList, n.status ≠ .executing
  /-- A run that completes leaves no failed node. -/
  sound : result.outcome = .completed → ∀ n ∈ r.graph.nodeList, n.status ≠ .failed

/-- **Every ending is clean.** Whenever the driver looks at the state of the executor, it is not idle, and from the state
in which an outcome is reported this outcome may return to idle. A run whose relays do not break down is never lost. A run
that is over has left the executor idle and no node executing, has reported its result once, at the end, and has left no
failed node if it completed. -/
theorem ends_cleanly {x : Executor} {g : Graph} {context : Context} {mode : StartMode} {now : Nat} {r r' : Run}
    {signals : List Signal} (hg : g.Hosts Behavior.Reliable) (h : start x g context mode now = .ok r)
    (hf : r.follow signals = some r') :
    (r'.phase = .boundary → r'.executor.state ≠ .idle) ∧
      (∀ outcome, r'.phase = .ending outcome → r'.executor.state.next? outcome.transition = some .idle) ∧
      (∀ message, r'.phase ≠ .broken message) ∧
      ∀ result, r'.phase = .over result → CleanEnd x r' (chronicle g mode r signals) result := by
  have hrostered : g.Rostered := ⟨hg.order, hg.proper, hg.named, fun _ => trivial⟩
  have hstart := keeps_start h
  have hkeeps := hstart.follow hf
  obtain ⟨hbus, hid, -⟩ := executor_follow hf
  obtain ⟨hphase, hgraph⟩ := start_eq h
  have hdrawn : ({ g with supply := g.supply.draw.2 } : Graph).Hosts Behavior.Reliable := Graph.Hosts.of_eq hg rfl rfl
  have hhosts : r.graph.Hosts Behavior.Reliable := hgraph ▸ hdrawn.replay _
  have hrelies := relies_follow hhosts (by rw [hphase]; trivial) hf
  obtain ⟨hrostered₀, htended₀⟩ := tended_start hrostered h
  obtain ⟨hrostered', htended⟩ := tended_follow hrostered₀ htended₀ hf
  refine ⟨fun hp => hkeeps.state_ne_idle (by rw [hp]; rfl), fun outcome hp => ?_, fun message hp => ?_, fun result hp => ?_⟩
  · exact ExecutionState.next?_outcome (hkeeps.state_ne_idle (by rw [hp]; rfl)) outcome
  · rw [hp] at hrelies
    exact hrelies
  · have hclosing := ((reported_start h).follow hstart hf).after result hp
    obtain ⟨front, s, hevents, -, hreported, hnext⟩ := hclosing.told
    rw [hp] at htended
    have hstatus : ∀ n ∈ r'.graph.nodeList, n.id ∈ r'.graph.order ∧ r'.graph.status? n.id = some n.status := by
      intro n hn
      obtain ⟨id, hid, hnode⟩ := List.mem_filterMap.1 hn
      obtain rfl := hrostered'.named hnode
      exact ⟨hid, congrArg (Option.map Node.status) hnode⟩
    refine ⟨hkeeps.idle.2 (by rw [hp]; rfl), hclosing.own, ?_, hclosing.once, ⟨front, s, hevents, hreported, hnext⟩,
      fun n hn hexec => ?_, fun hcompleted n hn hfailed => ?_⟩
    · rw [hbus, (start_executor h).2.2.1, hclosing.own, hid, chronicle, EventBus.publishAll_append]
    · obtain ⟨horder, hs⟩ := hstatus n hn
      rcases htended.executing n.id horder (hs.trans (congrArg some hexec)) with hunder | hbroken
      · exact absurd hunder (Multiset.notMem_zero n.id)
      · cases hbroken
    · obtain ⟨horder, hs⟩ := hstatus n hn
      have hflawed := htended.failed n.id horder (hs.trans (congrArg some hfailed))
      rw [Phase.isFlawed, hcompleted] at hflawed
      simp at hflawed

/-- The signals of a run that is cancelled while its source is about to be activated. -/
def signalRecall : List Signal :=
  [.drive, .control .cancel, .drive, .drive]

/-- The run when it has been given up. -/
def signalRecalled : Run :=
  (signalStart.follow signalRecall).getD signalStart

theorem follow_recall : signalStart.follow signalRecall = some signalRecalled :=
  follow_getD (by decide +kernel)

/-- The source is not left executing, and the run has reported once that it was cancelled. -/
theorem ends_cleanly_signal : signalRecalled.phase = .over ⟨⟨7⟩, .cancelled, 1, 0⟩ ∧
    CleanEnd (.create .standard) signalRecalled (chronicle Graph.signalPair .continuous signalStart signalRecall)
      ⟨⟨7⟩, .cancelled, 1, 0⟩ := by
  have hhosts : Graph.signalPair.Hosts Behavior.Reliable := Graph.built_signalPair.reached.hosts fun {_ _} hn => by
    rw [Graph.node?_signalPair] at hn
    split_ifs at hn <;> cases hn <;> exact fun _ _ _ => .finish
  have hover : signalRecalled.phase = .over ⟨⟨7⟩, .cancelled, 1, 0⟩ := rfl
  exact ⟨hover, (ends_cleanly hhosts start_signal follow_recall).2.2.2 _ hover⟩

end Run

end Dataflow
