import Dataflow.Proofs.Run.Conclusion
import Dataflow.Proofs.Run.Demand

/-!
# Sources

A node without connected inputs is activated by a scan, and the run notes that it was. That a run completes means that
its last scan has found nothing.

* `Phase.Admits` says that only relays are activated while outputs are moved, and `Run.Moves.admits` that every step keeps
  this, so that any other node is activated by scans only;
* `Run.started_step`: what a step tells of the activation of such a node;
* `Run.Watched` is the invariant that connects the sources that have fired with the events, and a run that completes with
  its last scan;
* `Graph.Source` is a node that is ready by its own nature only, and `Run.Ticks` says that one was activated as often as
  it has fired;
* `Run.sources_fire_once`: a run that completes is quiescent, and sources are activated once.
-/

namespace Dataflow

open EventKind (starts)

/-! ### Only relays are activated outside of scans -/

/-- Of the nodes that are left to be activated while outputs are moved, all are among the given ones. -/
def Phase.Admits (nodes : NodeId → Bool) : Phase → Prop
  | .propagating agenda | .relaying _ _ agenda => Work.Among nodes agenda.work
  | _ => True

namespace Run

section Admits

variable {r r' : Run} {s : Signal} {acts : List Act} {p : Phase} {nodes : NodeId → Bool}

theorem admits_of_isIdle (h : (p.isIdle || p.isOver) = true) : p.Admits nodes := by
  cases p with
  | propagating | relaying => cases h
  | _ => trivial

theorem Carried.admits {node : NodeId} {depth : Nat} {agenda : Agenda} {g : Graph} (h : Carried node depth agenda g acts p)
    (hwork : Work.Among nodes agenda.work) : p.Admits nodes := by
  cases h with
  | asleep => exact hwork
  | broken | failed => trivial
  | settled =>
    intro id depth hmem
    apply hwork id depth
    exact (List.mem_cons.1 hmem).resolve_left Work.noConfusion

/-- No step adds another node than relays to those that are left to be activated. -/
theorem Moves.admits (h : Moves r acts p) (hg : r.graph.Named) (ha : r.phase.Admits r.graph.isRelay) :
    p.Admits r.graph.isRelay := by
  cases h with
  | wait => exact ha
  | turn _ hp' => exact admits_of_isIdle hp'
  | finish _ hp' => exact admits_of_isIdle (by rw [hp', Bool.true_or])
  | report | begin | run | settle | giveUp => trivial
  | pass => exact fun _ _ hmem => absurd hmem List.not_mem_nil
  | next =>
    intro id depth hmem
    cases List.mem_singleton.1 hmem
  | skip hp =>
    rw [hp] at ha
    exact Work.Among.tail ha
  | relay hp _ _ _ hcarry =>
    rw [hp] at ha
    exact hcarry.admits (Work.Among.tail ha)
  | resume hp hcarry =>
    rw [hp] at ha
    exact hcarry.admits ha
  | move hp =>
    rw [hp] at ha
    intro id depth hmem
    rcases List.mem_append.1 hmem with hmem | hmem
    · obtain ⟨relay, hrelay, heq⟩ := List.mem_map.1 hmem
      cases heq
      exact Graph.isRelay_transferOutputs hg (List.mem_of_mem_filter hrelay)
    · exact Work.Among.tail ha id depth hmem

theorem admits_step (hg : r.graph.Named) (ha : r.phase.Admits r.graph.isRelay) (hs : r.step? s = some r') :
    r'.phase.Admits r'.graph.isRelay := by
  have hrelay : r'.graph.isRelay = r.graph.isRelay := by
    funext id
    rw [graph_step hg hs, Graph.isRelay_replay hg]
  rw [hrelay]
  exact (step_moves hg hs).admits hg ha

end Admits

/-! ### What a step tells of an activation that begins -/

section Started

variable {r r' : Run} {s : Signal} {id : NodeId}

/-- An activation that ends begins no other one. -/
theorem notMem_completed {typeId : String} (g : Graph) (node : NodeId) (result : Except NodeError Output) (duration : Nat) :
    .nodeStarted id typeId ∉ completed g node result duration := by
  unfold completed
  split
  · exact List.not_mem_nil
  · split <;> exact fun hmem => EventKind.noConfusion (List.mem_singleton.1 hmem)

/-- Nor does one that goes on. -/
theorem notMem_carried {typeId : String} (r : Run) (task : Task) (script : Script) :
    .publish (.nodeStarted id typeId) ∉ r.carried task script := by
  intro hmem
  rcases List.mem_append.1 hmem with hmem | hmem
  · exact Bool.false_ne_true (plain_performed task.node script r.executor _ hmem)
  · unfold closing at hmem
    split at hmem
    · obtain ⟨kind, hkind, heq⟩ := List.mem_map.1 hmem
      cases heq
      exact notMem_completed _ _ _ _ hkind
    · cases hmem
    · cases hmem

theorem notMem_of_plain {typeId : String} {deeds : List Deed} (h : ∀ d ∈ deeds, d.isPlain = true) :
    .publish (.nodeStarted id typeId) ∉ deeds :=
  fun hmem => Bool.false_ne_true (h _ hmem)

/-- The driver lets an activation begin outside of a scan only if it is that of the relay that is next, which is ready then,
and not too deep. -/
theorem Drives.begins {acts : List Act} {deeds : List Deed} {typeId : String} (hd : r.Drives acts deeds r')
    (hg : r.graph.Named) (hp : r.phase ≠ .boundary) (hmem : .publish (.nodeStarted id typeId) ∈ deeds) :
    ∃ depth work origins, r.phase = .propagating ⟨.activate id depth :: work, origins⟩ ∧ r.graph.isReady id = true ∧
      depth ≤ r.executor.config.maxRelayDepth := by
  cases hd with
  | begin hphase => exact absurd hphase hp
  | refuse hphase hn hready hdepth =>
    obtain rfl := hg _ _ hn
    cases List.mem_singleton.1 hmem
    exact ⟨_, _, _, hphase, hready, hdepth⟩
  | relay hphase hn hready hdepth =>
    obtain rfl := hg _ _ hn
    rcases List.mem_cons.1 hmem with heq | hmem
    · cases heq
      exact ⟨_, _, _, hphase, hready, hdepth⟩
    · exact absurd hmem (notMem_carried _ _ _)
  | settle =>
    obtain ⟨kind, hkind, heq⟩ := List.mem_map.1 hmem
    cases heq
    exact absurd hkind (notMem_completed _ _ _ _)
  | move => split_ifs at hmem <;> simp at hmem
  | turn | elapse => exact absurd hmem (notMem_of_plain r.plain_ended)
  | resume => exact absurd hmem (notMem_carried _ _ _)
  | _ => simp at hmem

/-- Nothing else lets an activation begin outside of a scan. -/
theorem next_of_started {typeId : String} (hg : r.graph.Named) (hp : r.phase ≠ .boundary)
    (hv : .nodeStarted id typeId ∈ r.voices s) :
    ∃ depth work origins, r.phase = .propagating ⟨.activate id depth :: work, origins⟩ ∧ r.graph.isReady id = true ∧
      depth ≤ r.executor.config.maxRelayDepth := by
  have hmem : Deed.publish (.nodeStarted id typeId) ∈ r.deeds s := by
    rcases Deed.mem_voicesAll hv with hmem | hchange | ⟨result, -, heq⟩
    · exact hmem
    · cases hchange
    · have hplain := isPlain_terminalEvent result
      rw [← heq] at hplain
      cases hplain
  cases s with
  | drive =>
    obtain ⟨r', hd⟩ := drives_of_mem_driven hmem
    exact hd.begins hg hp hmem
  | run node =>
    simp only [deeds] at hmem
    split at hmem
    · split at hmem
      · exact absurd hmem (notMem_of_plain (plain_performed _ _ _))
      · cases hmem
    · cases hmem
  | wake | pass => cases hmem
  | control c => exact absurd (List.mem_singleton.1 hmem) (by simp)

theorem countP_starts_plain {kinds : List EventKind} (h : EventKind.Plain kinds) : kinds.countP (starts id) = 0 := by
  rw [List.countP_eq_zero]
  intro kind hkind hstarts
  have hplain := h kind hkind
  cases kind with
  | nodeStarted => cases hplain
  | _ => exact absurd hstarts Bool.false_ne_true

/-- An activation that goes on begins no other one. -/
theorem Closes.countP_starts {node : NodeId} {kinds : List EventKind} {p : Phase} (h : Closes node kinds p) :
    kinds.countP (starts id) = 0 := by
  cases h with
  | asleep hkinds | broken hkinds => exact countP_starts_plain hkinds
  | cancelled => rfl
  | failed hkinds | settled hkinds =>
    rw [List.countP_append, countP_starts_plain hkinds]
    rfl

theorem countP_starts_scan (nodes : List Node) :
    (nodes.map fun n => EventKind.nodeStarted n.id n.typeId).countP (starts id) = (nodes.map Node.id).count id := by
  induction nodes with
  | nil => rfl
  | cons n rest ih =>
    rw [List.map_cons, List.map_cons, List.countP_cons, List.count_cons, ih]
    simp only [starts, decide_eq_true_eq, beq_iff_eq]

/-- An activation begins because it is the next one to be made, or in a scan. -/
theorem Tells.countP_starts {kinds : List EventKind} {count : Nat} {p : Phase} (h : r.Tells kinds count p)
    (hnext : ∀ agenda typeId rest, r.phase = .propagating agenda → kinds ≠ .nodeStarted id typeId :: rest) :
    kinds.countP (starts id) = if count = r.iteration then 0 else (r.scan.map Node.id).count id := by
  cases h with
  | plain hkinds => rw [countP_starts_plain hkinds, if_pos rfl]
  | giveUp => rw [if_pos rfl, List.countP_nil]
  | begin =>
    rw [if_neg (Nat.succ_ne_self _), ← countP_starts_scan]
    rfl
  | settle =>
    rw [if_pos rfl]
    rfl
  | @relay agenda n kinds _ hp hn hcloses =>
    have hne : ¬ starts id (.nodeStarted n.id n.typeId) = true := by
      intro hstarts
      obtain rfl : n.id = id := of_decide_eq_true hstarts
      exact hnext agenda n.typeId kinds hp rfl
    rw [if_pos rfl, List.countP_cons_of_neg hne, hcloses.countP_starts]
  | resume _ hcloses => rw [if_pos rfl, hcloses.countP_starts]
  | report =>
    rw [if_pos rfl, countP_starts_plain]
    exact List.forall_mem_cons.2 ⟨rfl, List.forall_mem_singleton.2 (isPlain_terminalEvent _)⟩

/-- A step that goes on from where an iteration is to begin waits, gives the run up, or scans. -/
theorem boundary_scan (hp : r.phase = .boundary) (hs : r.step? s = some r') :
    (r.Steady r' ∧ r'.phase.stage ≠ .ended .completed) ∨ r' = r.beginIteration := by
  cases s with
  | drive =>
    simp only [step?, drive?, hp, Option.some.injEq] at hs
    subst hs
    unfold atBoundary
    split_ifs
    · exact Or.inl ⟨⟨rfl, rfl⟩, by simp [endWith, Phase.stage]⟩
    · cases r.executor.state with
      | running | stepping => exact Or.inr rfl
      | paused => exact Or.inl ⟨⟨rfl, rfl⟩, Stage.noConfusion⟩
      | idle => exact Or.inl ⟨⟨rfl, rfl⟩, by simp [endWith, Phase.stage]⟩
  | run node => simp only [step?, runNode?, hp, reduceCtorEq] at hs
  | wake node => simp only [step?, wakeNode?, hp, reduceCtorEq] at hs
  | control c =>
    cases hs
    exact Or.inl ⟨⟨rfl, rfl⟩, by rw [hp]; exact Stage.noConfusion⟩
  | pass ms =>
    cases hs
    exact Or.inl ⟨⟨rfl, rfl⟩, by rw [hp]; exact Stage.noConfusion⟩

/-- A step changes what is counted only by a scan. -/
theorem steady_or_scan (hs : r.step? s = some r') : r.Steady r' ∨ r.phase = .boundary ∧ r' = r.beginIteration := by
  by_cases hp : r.phase = .boundary
  · exact (boundary_scan hp hs).imp And.left fun heq => ⟨hp, heq⟩
  · exact Or.inl (steady_step hp hs)

end Started

/-! ### What a scan leaves -/

section Scan

variable {g : Graph} {r : Run} {fired : List NodeId} {id : NodeId}

/-- A source that has fired after a scan had fired before it, or takes part. -/
theorem mem_fired {nodes : List Node} (h : id ∈ (collectReady g nodes fired).2) :
    id ∈ fired ∨ id ∈ (collectReady g nodes fired).1 := by
  induction nodes generalizing fired with
  | nil => exact Or.inl h
  | cons n rest ih =>
    unfold collectReady at h ⊢
    split_ifs at h ⊢ with hj hnil
    · rcases ih h with hold | hready
      · rcases mem_insertNew.1 hold with rfl | hold
        · exact Or.inr List.mem_cons_self
        · exact Or.inl hold
      · exact Or.inr (List.mem_cons_of_mem _ hready)
    · exact (ih h).imp_right (List.mem_cons_of_mem _)
    · exact ih h

/-- A node without connected inputs that takes part has fired after the scan. -/
theorem fired_of_scanned {nodes : List Node} (h : id ∈ (collectReady g nodes fired).1) (hnil : g.connectedInputs id = []) :
    id ∈ (collectReady g nodes fired).2 := by
  induction nodes generalizing fired with
  | nil => exact absurd h List.not_mem_nil
  | cons n rest ih =>
    unfold collectReady at h ⊢
    split_ifs at h ⊢ with hj hn
    · rcases List.mem_cons.1 h with rfl | h
      · exact Graph.subset_scanned rest _ (mem_insertNew.2 (Or.inl rfl))
      · exact ih h
    · rcases List.mem_cons.1 h with rfl | h
      · exact absurd (List.isEmpty_iff.2 hnil) hn
      · exact ih h
    · exact ih h

/-- A scan that finds nothing leaves the sources that have fired as they are. -/
theorem fired_of_nothing {nodes : List Node} (h : (collectReady g nodes fired).1 = []) : (collectReady g nodes fired).2 = fired := by
  induction nodes generalizing fired with
  | nil => rfl
  | cons n rest ih =>
    unfold collectReady at h ⊢
    split_ifs at h ⊢
    exact ih h

theorem fired_beginIteration (r : Run) :
    r.beginIteration.firedSources = (collectReady r.graph r.graph.nodeList r.firedSources).2 := by
  rw [beginIteration_eq rfl]
  split_ifs
  · rfl
  · rw [spawn_eq]
    rfl

theorem collectReady_scan (hg : r.graph.Rostered) :
    (collectReady r.graph r.graph.nodeList r.firedSources).1 = r.scan.map Node.id :=
  collectReady_eq hg.nodeList.1 r.firedSources

theorem iteration_beginIteration (hg : r.graph.Rostered) :
    r.beginIteration.iteration = if r.scan = [] then r.iteration else r.iteration + 1 := by
  rw [beginIteration_eq rfl, collectReady_scan hg]
  cases r.scan with
  | nil => rfl
  | cons n rest =>
    rw [spawn_eq]
    rfl

/-- If a run completes by a scan, the scan has found nothing, and the next one would find nothing as well. -/
theorem scan_beginIteration (hg : r.graph.Rostered) (h : r.beginIteration.phase.stage = .ended .completed) :
    r.beginIteration.scan = [] := by
  have hscan := collectReady_scan hg
  rw [beginIteration_eq rfl] at h ⊢
  by_cases hempty : (collectReady r.graph r.graph.nodeList r.firedSources).1 = []
  · rw [if_pos (List.isEmpty_iff.2 hempty), fired_of_nothing hempty]
    rw [hempty] at hscan
    exact List.map_eq_nil_iff.1 hscan.symm
  · rw [if_neg fun hnil => hempty (List.isEmpty_iff.1 hnil)] at h
    cases h

end Scan

/-! ### The invariant of a run -/

section Watched

variable {r r' : Run} {s : Signal} {events : List EventKind} {id : NodeId}

/-- Apart from a scan, a run completes by reporting that it has completed. -/
theorem completed_step (hg : r.graph.Named) (hp : r.phase ≠ .boundary) (hs : r.step? s = some r')
    (hp' : r'.phase.stage = .ended .completed) : r.phase.stage = .ended .completed ∧ r'.graph = r.graph := by
  have hidle : r.phase.isIdle = true → r'.phase.stage ≠ .ended .completed := by
    intro hidle
    cases s with
    | drive =>
      cases hphase : r.phase with
      | boundary => exact absurd hphase hp
      | parked =>
        simp only [step?, drive?, hphase, whileParked?] at hs
        split_ifs at hs <;> cases hs <;> exact Stage.noConfusion
      | delaying wakeAt =>
        simp only [step?, drive?, hphase, whileDelaying?] at hs
        split_ifs at hs <;> cases hs
        · simp [endWith, Phase.stage]
        · exact Stage.noConfusion
      | _ =>
        rw [hphase] at hidle
        cases hidle
    | run node =>
      obtain ⟨batch, task, batch', hphase, -⟩ := runNode_turned hs
      rw [hphase] at hidle
      cases hidle
    | wake node =>
      obtain ⟨batch, batch', hphase, -⟩ := wakeNode_turned hs
      rw [hphase] at hidle
      cases hidle
    | control | pass =>
      cases hs
      cases hphase : r.phase with
      | boundary | parked | delaying => exact Stage.noConfusion
      | _ =>
        rw [hphase] at hidle
        cases hidle
  have hgraph := graph_step hg hs
  have hmoves := step_moves hg hs
  generalize r'.phase = p at hmoves hp' hidle
  generalize r.acts s = acts at hmoves hgraph
  cases hmoves with
  | wait => exact ⟨hp', hgraph⟩
  | turn hturn => exact absurd hp' (hidle hturn)
  | report hphase hresult =>
    rw [Phase.stage, hresult] at hp'
    rw [hphase]
    exact ⟨hp', hgraph⟩
  | relay _ _ _ _ hcarry | resume _ hcarry => cases hcarry <;> cases hp'
  | finish _ hfinish =>
    cases p with
    | boundary | parked | delaying => cases hp'
    | _ => cases hfinish
  | giveUp hgives => cases hgives <;> cases hp'
  | _ => cases hp'

/-- What the events so far have to do with the sources that have fired, and a run that completes with the scan that would be
next. -/
structure Watched (r : Run) (events : List EventKind) : Prop where
  recorded : r.Recorded events
  admits : r.phase.Admits r.graph.isRelay
  fired : ∀ id ∈ r.firedSources, 0 < events.countP (starts id)
  quiescent : r.phase.stage = .ended .completed → r.scan = []

/-- A scan activates the nodes that take part in it. -/
theorem Watched.scanning (h : r.Watched events) (hp : r.phase = .boundary) (hs : r.step? s = some r.beginIteration)
    (id : NodeId) : (r.voices s).countP (starts id) = (r.scan.map Node.id).count id := by
  have htells := step_tells h.recorded.rostered h.recorded.present h.recorded.apart hs
  rw [htells.countP_starts fun agenda _ _ hprop => ?_, iteration_beginIteration h.recorded.rostered]
  · cases r.scan with
    | nil => rw [if_pos rfl, if_pos rfl, List.map_nil, List.count_nil]
    | cons n rest => rw [if_neg (List.cons_ne_nil n rest), if_neg (Nat.succ_ne_self _)]
  · rw [hp] at hprop
    cases hprop

/-- Apart from a scan, a node that is no relay is not activated. -/
theorem Watched.steady (h : r.Watched events) (hid : r.graph.isRelay id = false) (hs : r.step? s = some r')
    (hsteady : r.Steady r') : (r.voices s).countP (starts id) = 0 := by
  have hnamed := h.recorded.rostered.isNamed
  have htells := step_tells h.recorded.rostered h.recorded.present h.recorded.apart hs
  rw [htells.countP_starts fun agenda typeId rest hp hv => ?_, if_pos hsteady.iteration]
  obtain ⟨depth, work, origins, hnext, -⟩ := next_of_started hnamed (by rw [hp]; exact Phase.noConfusion)
    (by rw [hv]; exact List.mem_cons_self)
  have hadmits := h.admits
  rw [hnext] at hadmits
  have hrelay := hadmits id depth List.mem_cons_self
  rw [hid] at hrelay
  cases hrelay

/-- **Every step keeps count.** -/
theorem Watched.step (h : r.Watched events) (hs : r.step? s = some r') : r'.Watched (events ++ r.voices s) := by
  have hrostered := h.recorded.rostered
  refine ⟨h.recorded.step hs, admits_step hrostered.isNamed h.admits hs, ?_, ?_⟩
  · intro id hid
    rw [List.countP_append]
    rcases steady_or_scan hs with hsteady | ⟨hp, rfl⟩
    · have := h.fired id (hsteady.fired ▸ hid)
      omega
    · rw [fired_beginIteration] at hid
      rw [h.scanning hp hs id, ← collectReady_scan hrostered]
      rcases mem_fired hid with hold | hready
      · have := h.fired id hold
        omega
      · have := List.count_pos_iff.2 hready
        omega
  · intro hp'
    by_cases hp : r.phase = .boundary
    · rcases boundary_scan hp hs with ⟨-, hnot⟩ | rfl
      · exact absurd hp' hnot
      · exact scan_beginIteration hrostered hp'
    · obtain ⟨hcompleted, hgraph⟩ := completed_step hrostered.isNamed hp hs hp'
      rw [scan, hgraph, (steady_step hp hs).fired]
      exact h.quiescent hcompleted

theorem Watched.follow {signals : List Signal} (h : r.Watched events) (hf : r.follow signals = some r') :
    r'.Watched (events ++ r.events signals) := by
  induction signals generalizing r events with
  | nil =>
    cases hf
    rw [Run.events, List.append_nil]
    exact h
  | cons s rest ih =>
    obtain ⟨r₁, hs, hf⟩ := Option.bind_eq_some_iff.1 hf
    rw [Run.events, hs, Option.elim_some, ← List.append_assoc]
    exact ih (h.step hs) hf

theorem watched_start {x : Executor} {g : Graph} {context : Context} {mode : StartMode} {now : Nat} (hg : g.Rostered)
    (h : start x g context mode now = .ok r) : r.Watched (opening g mode) := by
  have hphase := (start_eq h).1
  have hfired : r.firedSources = [] := by
    obtain ⟨y, -, rfl⟩ := Except.map_eq_ok.1 h
    rfl
  constructor
  · exact (recorded_start hg h).2
  · rw [hphase]
    trivial
  · rw [hfired]
    exact fun _ hid => absurd hid List.not_mem_nil
  · intro hcompleted
    rw [hphase] at hcompleted
    cases hcompleted

/-- A node that is ready when a run has completed is a source that has fired. -/
theorem Watched.exhausted (h : r.Watched events) (hp : r.phase.stage = .ended .completed) {n : Node}
    (hn : n ∈ r.graph.nodeList) (hready : n.readiness (r.graph.connectedInputs n.id) = .ready) :
    r.graph.connectedInputs n.id = [] ∧ 0 < events.countP (starts n.id) ∧ n.behavior.refires = false ∧
      n.hasPendingWork = false := by
  have hjoins : joins r.graph r.firedSources n = false := by
    rw [Bool.eq_false_iff]
    intro hjoins
    have hmem : n ∈ r.scan := List.mem_filter.2 ⟨hn, hjoins⟩
    rw [h.quiescent hp] at hmem
    exact absurd hmem List.not_mem_nil
  simp only [joins, hready, decide_true, Bool.true_and, Bool.or_eq_false_iff, Bool.not_eq_false', List.isEmpty_iff,
    List.contains_iff_mem] at hjoins
  obtain ⟨⟨⟨hnil, hfired⟩, hrefires⟩, hpending⟩ := hjoins
  exact ⟨hnil, h.fired n.id hfired, hrefires, hpending⟩

end Watched

end Run

/-! ### Sources -/

/-- A node that is ready by its own nature only: it is not direct-through, is not switched off, has no connected inputs, does
not refire, and remembers nothing that keeps it ready. -/
structure Graph.Source (g : Graph) (n : Node) : Prop where
  relay : n.isDirectThrough = false
  enabled : n.isDisabled = false
  unconnected : g.connectedInputs n.id = []
  refires : n.behavior.refires = false
  pending : n.hasPendingWork = false

instance (g : Graph) (n : Node) : Decidable (g.Source n) :=
  decidable_of_iff (n.isDirectThrough = false ∧ n.isDisabled = false ∧ g.connectedInputs n.id = [] ∧
      n.behavior.refires = false ∧ n.hasPendingWork = false)
    ⟨fun ⟨h₁, h₂, h₃, h₄, h₅⟩ => ⟨h₁, h₂, h₃, h₄, h₅⟩, fun ⟨h₁, h₂, h₃, h₄, h₅⟩ => ⟨h₁, h₂, h₃, h₄, h₅⟩⟩

/-- A source takes part in a scan if it has not fired. -/
theorem Graph.Source.joins_iff {g : Graph} {n : Node} (h : g.Source n) (fired : List NodeId) :
    Run.joins g fired n = true ↔ n.id ∉ fired := by
  have hready : n.readiness [] = .ready := by simp [Node.readiness, h.enabled, h.pending]
  rw [Run.joins, h.unconnected, h.refires, h.pending, hready]
  simp

namespace Run

section Ticks

variable {r r' : Run} {s : Signal} {events : List EventKind} {id : NodeId}

/-- A node of the graph has been activated as often as it has fired as a source. -/
structure Ticks (r : Run) (id : NodeId) (events : List EventKind) : Prop where
  listed : id ∈ r.graph.order ∧ (r.graph.node? id).isSome
  count : events.countP (starts id) = if id ∈ r.firedSources then 1 else 0

theorem Ticks.node (ht : r.Ticks id events) (hg : r.graph.Rostered) : ∃ n ∈ r.graph.nodeList, r.graph.node? n.id = some n ∧ n.id = id := by
  obtain ⟨horder, hsome⟩ := ht.listed
  obtain ⟨n, hn⟩ := Option.isSome_iff_exists.1 hsome
  obtain rfl := hg.named hn
  exact ⟨n, List.mem_filterMap.2 ⟨n.id, horder, hn⟩, hn, rfl⟩

/-- A source takes part in the next scan if it has not fired. -/
theorem Ticks.mem_scan (ht : r.Ticks id events) (hg : r.graph.Rostered)
    (hsource : ∀ n, r.graph.node? id = some n → r.graph.Source n) : id ∈ r.scan.map Node.id ↔ id ∉ r.firedSources := by
  obtain ⟨n, hlisted, hn, rfl⟩ := ht.node hg
  have hjoins := (hsource n hn).joins_iff r.firedSources
  constructor
  · intro hmem
    obtain ⟨m, hm, heq⟩ := List.mem_map.1 hmem
    have hsame : some m = some n := by rw [← node?_of_mem_scan hg hm, heq, hn]
    obtain rfl := Option.some.inj hsame
    exact hjoins.1 (List.mem_filter.1 hm).2
  · exact fun hfired => List.mem_map_of_mem (List.mem_filter.2 ⟨hlisted, hjoins.2 hfired⟩)

/-- A source that takes part in a scan fires by it. -/
theorem Ticks.step (ht : r.Ticks id events) (h : r.Watched events)
    (hsource : ∀ n, r.graph.node? id = some n → r.graph.Source n) (hs : r.step? s = some r') :
    r'.Ticks id (events ++ r.voices s) := by
  have hrostered := h.recorded.rostered
  obtain ⟨n, -, hn, rfl⟩ := ht.node hrostered
  constructor
  · rw [graph_step hrostered.isNamed hs, Graph.order_replay]
    exact ⟨ht.listed.1, Graph.isSome_node?_replay _ ht.listed.2⟩
  rw [List.countP_append, ht.count]
  rcases steady_or_scan hs with hsteady | ⟨hp, rfl⟩
  · have hrelay : r.graph.isRelay n.id = false := by
      rw [Graph.isRelay, hn]
      exact (hsource n hn).relay
    rw [h.steady hrelay hs hsteady, hsteady.fired, Nat.add_zero]
  · have hready := collectReady_scan hrostered
    have hmem := ht.mem_scan hrostered hsource
    rw [h.scanning hp hs, fired_beginIteration]
    by_cases hfired : n.id ∈ r.firedSources
    · have hnot : n.id ∉ r.scan.map Node.id := fun hin => hmem.1 hin hfired
      rw [if_pos hfired, if_pos (Graph.subset_scanned _ _ hfired), List.count_eq_zero_of_not_mem hnot]
    · have hin := hmem.2 hfired
      have hscanned := fired_of_scanned (hready.symm ▸ hin) (hsource n hn).unconnected
      rw [if_neg hfired, if_pos hscanned, List.count_eq_one_of_mem (scan_nodup hrostered) hin]

theorem Ticks.follow {signals : List Signal} (ht : r.Ticks id events) (h : r.Watched events)
    (hsource : ∀ first later r₁ n, signals = first ++ later → r.follow first = some r₁ → r₁.graph.node? id = some n →
      r₁.graph.Source n) (hf : r.follow signals = some r') : r'.Ticks id (events ++ r.events signals) := by
  induction signals generalizing r events with
  | nil =>
    cases hf
    rw [Run.events, List.append_nil]
    exact ht
  | cons s rest ih =>
    obtain ⟨r₁, hs, hf⟩ := Option.bind_eq_some_iff.1 hf
    rw [Run.events, hs, Option.elim_some, ← List.append_assoc]
    refine ih (ht.step h (fun n hn => hsource [] (s :: rest) r n rfl rfl hn) hs) (h.step hs) ?_ hf
    intro first later r₂ n hrest hfirst hn
    refine hsource (s :: first) later r₂ n (by rw [hrest, List.cons_append]) ?_ hn
    rw [Run.follow, hs]
    exact hfirst

theorem ticks_start {x : Executor} {g : Graph} {context : Context} {mode : StartMode} {now : Nat} (hg : g.Rostered)
    (h : start x g context mode now = .ok r) (hid : id ∈ g.nodeList.map Node.id) : r.Ticks id (opening g mode) := by
  have hgraph := (start_eq h).2
  obtain ⟨y, -, rfl⟩ := Except.map_eq_ok.1 h
  refine ⟨?_, rfl⟩
  obtain ⟨n, hn, rfl⟩ := List.mem_map.1 hid
  obtain ⟨k, hk, hnode⟩ := List.mem_filterMap.1 hn
  obtain rfl := hg.named hnode
  rw [hgraph, Graph.order_replay]
  exact ⟨hk, Graph.isSome_node?_replay _ (Option.isSome_of_eq_some hnode)⟩

end Ticks

/-- **A run that completes is quiescent, and sources are activated once.** If a run has completed, each node that is ready
has no connected inputs, was activated in this run, does not refire, and remembers nothing that keeps it ready. In every run, a
node that is a source at every moment is activated at most once, and once if the run has completed. -/
theorem sources_fire_once {x : Executor} {g : Graph} {context : Context} {mode : StartMode} {now : Nat} {r r' : Run}
    {signals : List Signal} (hg : g.Rostered) (h : start x g context mode now = .ok r)
    (hf : r.follow signals = some r') :
    (∀ result, r'.phase = .over result → result.outcome = .completed → ∀ n ∈ r'.graph.nodeList,
        n.readiness (r'.graph.connectedInputs n.id) = .ready →
          r'.graph.connectedInputs n.id = [] ∧ 0 < (chronicle g mode r signals).countP (starts n.id) ∧
            n.behavior.refires = false ∧ n.hasPendingWork = false) ∧
      ∀ id ∈ g.nodeList.map Node.id,
        (∀ first later r₁ n, signals = first ++ later → r.follow first = some r₁ → r₁.graph.node? id = some n →
          r₁.graph.Source n) →
        (chronicle g mode r signals).countP (starts id) ≤ 1 ∧
          ∀ result, r'.phase = .over result → result.outcome = .completed →
            (chronicle g mode r signals).countP (starts id) = 1 := by
  have hstart := watched_start hg h
  have hwatched := hstart.follow hf
  have hcompleted : ∀ {result}, r'.phase = .over result → result.outcome = .completed →
      r'.phase.stage = .ended .completed := by
    intro result hover houtcome
    rw [hover, Phase.stage, houtcome]
  refine ⟨fun result hover houtcome n hn hready => hwatched.exhausted (hcompleted hover houtcome) hn hready,
    fun id hid hsource => ?_⟩
  have hticks := (ticks_start hg h hid).follow hstart hsource hf
  have hcount := hticks.count
  rw [← chronicle] at hcount
  constructor
  · rw [hcount]
    split_ifs
    · exact le_rfl
    · exact Nat.zero_le 1
  · intro result hover houtcome
    -- The last scan has found nothing, not even this source, so that it has fired.
    have hmem := hticks.mem_scan hwatched.recorded.rostered (hsource signals [] r' · (List.append_nil _).symm hf)
    rw [hwatched.quiescent (hcompleted hover houtcome)] at hmem
    have hfired : id ∈ r'.firedSources := by simpa using hmem
    rw [hcount, if_pos hfired]

/-- The source of the two is one throughout, and it is activated once. When the run is over, no node with connected inputs is
ready. -/
theorem sources_fire_once_signal :
    signalOver.phase = .over ⟨⟨7⟩, .completed, 1, 0⟩ ∧
      (∀ n ∈ signalOver.graph.nodeList, n.readiness (signalOver.graph.connectedInputs n.id) = .ready →
        signalOver.graph.connectedInputs n.id = []) ∧
      (chronicle Graph.signalPair .continuous signalStart signalWhole).countP (starts ⟨1⟩) = 1 := by
  have hrostered : Graph.signalPair.Rostered := Graph.built_signalPair.reached.hosts fun _ => trivial
  have hfollow : signalStart.follow signalWhole = some signalOver := follow_getD (by decide +kernel)
  have hover : signalOver.phase = .over ⟨⟨7⟩, .completed, 1, 0⟩ := rfl
  have hmoments : ∀ k ≤ signalWhole.length, ∀ r₁ ∈ signalStart.follow (signalWhole.take k), ∀ n ∈ r₁.graph.node? ⟨1⟩,
      r₁.graph.Source n := by decide +kernel
  have hsource : ∀ first later r₁ n, signalWhole = first ++ later → signalStart.follow first = some r₁ →
      r₁.graph.node? ⟨1⟩ = some n → r₁.graph.Source n := by
    intro first later r₁ n heq hfirst hn
    have hlength : first.length ≤ signalWhole.length := by rw [heq, List.length_append]; omega
    have htake : signalWhole.take first.length = first := by rw [heq, List.take_left']; rfl
    exact hmoments first.length hlength r₁ (by rw [htake]; exact hfirst) n hn
  obtain ⟨hquiescent, honce⟩ := sources_fire_once hrostered start_signal hfollow
  exact ⟨hover, fun n hn hready => (hquiescent _ hover rfl n hn hready).1,
    (honce ⟨1⟩ (by decide +kernel) hsource).2 _ hover rfl⟩

end Run

end Dataflow
