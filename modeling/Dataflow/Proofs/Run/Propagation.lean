import Dataflow.Proofs.Run.Headway
import Dataflow.Proofs.Run.RelayChains
import Dataflow.Proofs.Run.Sources

/-!
# Moving the outputs of a node comes to an end

While outputs are moved, new work is put in front of the old, and a relay may be reached again and again. But a relay goes
one level deeper than the node that has reached it, and there is a limit to the depth.

* `Work.rank` says how far a piece of work is from the limit, and `Phase.Lighter` that a piece of work was done and only such
  work has come instead that is nearer to the limit, or that a relay that slept has come on;
* `Phase.Shallow` says that outputs are moved within the limit only, and `Run.shallow_step` that every step keeps this;
* `Run.Drives.progress`: with every step of the driver, less is left to do, or the outputs are moved, or the run ends;
* `Run.Attains` says that a run comes to a state of some kind, whatever calls arrive on the way;
* `Run.propagation_ends` puts these together.
-/

namespace Dataflow

/-! ### The limit of the depth -/

/-- How far a piece of work is from the limit of the depth. At one depth, a relay is activated first, which takes up to two
steps, and then its outputs are moved. -/
def Work.rank (limit : Nat) : Work → Nat
  | .propagate _ depth => 3 * (limit + 1 - depth)
  | .activate _ depth => 3 * (limit + 1 - depth) + 2

/-- Outputs are moved within the limit only. A relay may be reached beyond it; it is not activated then. -/
def Work.Shallow (limit : Nat) : Work → Prop
  | .propagate _ depth => depth ≤ limit
  | .activate .. => True

/-- All work in a phase is within the limit. -/
def Phase.Shallow (limit : Nat) : Phase → Prop
  | .propagating agenda => ∀ w ∈ agenda.work, w.Shallow limit
  | .relaying _ depth agenda => depth ≤ limit ∧ ∀ w ∈ agenda.work, w.Shallow limit
  | _ => True

/-- The ranks of the work that is left. No script is under way for any of it. -/
def Agenda.burden (limit : Nat) (agenda : Agenda) : Multiset (Nat × Script) :=
  agenda.work.map fun w => (w.rank limit, Script.panic "")

/-- What is left to do while outputs are moved; a relay that sleeps is between the beginning and the end of its work. -/
def Phase.burden (limit : Nat) : Phase → Multiset (Nat × Script)
  | .propagating agenda => agenda.burden limit
  | .relaying relay depth agenda => agenda.burden limit + {(3 * (limit + 1 - depth) + 1, relay.task.script)}
  | _ => 0

/-- Less is left of the way to the limit, or of the script. -/
def Lesser : Nat × Script → Nat × Script → Prop :=
  Prod.Lex (· < ·) (Relation.TransGen Script.Rest)

/-- One piece of work was done, and only lesser ones have come instead. -/
def Phase.Lighter (limit : Nat) (p' p : Phase) : Prop :=
  Relation.CutExpand Lesser (p'.burden limit) (p.burden limit)

theorem Phase.wellFounded_lighter (limit : Nat) : WellFounded (Lighter limit) :=
  InvImage.wf _ (WellFounded.prod_lex Nat.lt_wfRel.wf Script.wellFounded_rest.transGen).cutExpand

/-- A piece of work was done that is told from the rest, and the new work is lesser. -/
theorem Phase.Lighter.of_burden {limit : Nat} {p' p : Phase} {rest new : Multiset (Nat × Script)} {old : Nat × Script}
    (h : p.burden limit = rest + {old}) (h' : p'.burden limit = rest + new) (hlt : ∀ w ∈ new, Lesser w old) :
    p'.Lighter limit p := by
  unfold Lighter
  rw [h, h']
  exact (Relation.cutExpand_add_left rest).2 (Relation.cutExpand_singleton hlt)

theorem Agenda.burden_cons (limit : Nat) (w : Work) (work : List Work) (origins : List NodeId) :
    Agenda.burden limit ⟨w :: work, origins⟩ = Agenda.burden limit ⟨work, origins⟩ + {(w.rank limit, .panic "")} := by
  rw [add_comm, Multiset.singleton_add]
  rfl

theorem Agenda.burden_append (limit : Nat) (work work' : List Work) (origins : List NodeId) :
    Agenda.burden limit ⟨work ++ work', origins⟩ = Agenda.burden limit ⟨work', origins⟩ + Agenda.burden limit ⟨work, origins⟩ := by
  simp only [burden, List.map_append, ← Multiset.coe_add]
  exact add_comm _ _

/-- The nodes whose turn comes later, while the outputs of a node are moved. -/
def Phase.later? : Phase → Option (List NodeId)
  | .propagating agenda | .relaying _ _ agenda => some agenda.origins
  | _ => none

/-- The outputs of a node are moved, and no work is left; or the run is about to end without having completed. -/
def Phase.Propagated (later : List NodeId) : Phase → Prop
  | .propagating agenda => agenda = ⟨[], later⟩
  | .ending outcome => outcome ≠ .completed
  | _ => False

/-- While the outputs of a node are moved, one phase comes after another: they are moved then, or less is left to do. -/
def Phase.Progress (limit : Nat) (p p' : Phase) (later : List NodeId) : Prop :=
  p'.Propagated later ∨ p'.later? = some later ∧ p'.Lighter limit p

namespace Run

variable {r r' : Run} {limit depth : Nat} {agenda : Agenda} {id : NodeId} {later : List NodeId}

/-! ### Every step stays within the limit -/

theorem shallow_carried {node : NodeId} {g : Graph} {acts : List Act} {p : Phase} (h : Carried node depth agenda g acts p)
    (hdepth : depth ≤ limit) (hwork : ∀ w ∈ agenda.work, w.Shallow limit) : p.Shallow limit := by
  cases h with
  | asleep => exact ⟨hdepth, hwork⟩
  | broken | failed => trivial
  | settled => exact List.forall_mem_cons.2 ⟨hdepth, hwork⟩

theorem shallow_of_isIdle {p : Phase} (h : (p.isIdle || p.isOver) = true) : p.Shallow limit := by
  cases p <;> trivial

/-- **Every step stays within the limit.** -/
theorem shallow_step {s : Signal} (hg : r.graph.Named) (hlimit : r.executor.config.maxRelayDepth = limit)
    (h : r.phase.Shallow limit) (hs : r.step? s = some r') : r'.phase.Shallow limit := by
  have hmoves := step_moves hg hs
  generalize r.acts s = acts at hmoves
  generalize r'.phase = p at hmoves ⊢
  cases hmoves with
  | wait => exact h
  | turn _ hp' => exact shallow_of_isIdle hp'
  | finish _ hp' => exact shallow_of_isIdle (by rw [hp', Bool.true_or])
  | begin | run | settle | report | giveUp => trivial
  | pass => exact fun _ hw => absurd hw List.not_mem_nil
  | next => exact List.forall_mem_singleton.2 (Nat.zero_le _)
  | move hp =>
    rw [hp] at h
    refine List.forall_mem_append.2 ⟨fun w hw => ?_, (List.forall_mem_cons.1 h).2⟩
    obtain ⟨relay, -, rfl⟩ := List.mem_map.1 hw
    trivial
  | skip hp =>
    rw [hp] at h
    exact (List.forall_mem_cons.1 h).2
  | relay hp _ _ hdepth hcarry =>
    rw [hp] at h
    exact shallow_carried hcarry (hlimit ▸ hdepth) (List.forall_mem_cons.1 h).2
  | resume hp hcarry =>
    rw [hp] at h
    exact shallow_carried hcarry h.1 h.2

theorem shallow_follow {signals : List Signal} (hg : r.graph.Named) (hlimit : r.executor.config.maxRelayDepth = limit)
    (h : r.phase.Shallow limit) (hf : r.follow signals = some r') :
    r'.phase.Shallow limit ∧ r'.graph.Named := by
  induction signals generalizing r with
  | nil =>
    cases hf
    exact ⟨h, hg⟩
  | cons s rest ih =>
    obtain ⟨r₁, hs, hf⟩ := Option.bind_eq_some_iff.1 hf
    refine ih ?_ ((config_step hs).symm ▸ hlimit) (shallow_step hg hlimit h hs) hf
    rw [graph_step hg hs]
    exact hg.replay _

/-! ### Every step leaves less to do -/

/-- What is left of a script that sleeps is less than the script, whether the run is cancelled or not. -/
theorem rest_of_asleep {node : NodeId} {script rest : Script} {ms : Nat} {r : Run}
    (h : (perform node script r).1 = .asleep ms rest) : Relation.TransGen Script.Rest rest script := by
  induction script generalizing r with
  | finish | panic => cases h
  | emit event left ih => exact (ih h).tail (.emit event left)
  | control call left ih => exact (ih _ _ h).tail (.control call left _ _)
  | log entry left ih => exact (ih h).tail (.log entry left)
  | remember memory left ih => exact (ih h).tail (.remember memory left)
  | sleep ms' heedsCancel left =>
    rw [perform_sleep] at h
    dsimp only at h
    split_ifs at h
    cases h
    exact .single (.sleep ms heedsCancel rest)

/-- A relay is carried on that was among the work that is left: it sleeps, or its outputs are next, or the run fails. -/
theorem progress_carry {p : Phase} {task : Task} {old : Nat × Script} (hscript : task.script.Unbroken)
    (hburden : p.burden limit = agenda.burden limit + {old}) (hlt : 3 * (limit + 1 - depth) < old.1) (r : Run)
    (hasleep : ∀ ms rest, (perform task.node task.script r).1 = .asleep ms rest →
      Lesser (3 * (limit + 1 - depth) + 1, rest) old) :
    p.Progress limit (r.carry task depth agenda).phase agenda.origins := by
  have hstop := unbroken_perform hscript task.node r
  unfold carry
  cases hperf : (perform task.node task.script r).1 with
  | panicked message =>
    rw [hperf] at hstop
    exact hstop.elim
  | asleep ms rest =>
    refine Or.inr ⟨rfl, .of_burden hburden rfl ?_⟩
    simpa only [Multiset.mem_singleton, forall_eq] using hasleep ms rest hperf
  | finished result =>
    rcases hc : (perform task.node task.script r).2.complete task.node task.startedAt result with ⟨completed, r'⟩
    simp only [afterRelay, hc]
    cases completed with
    | error e => exact Or.inl Outcome.noConfusion
    | ok =>
      refine Or.inr ⟨rfl, .of_burden hburden (Agenda.burden_cons ..) fun w hw => ?_⟩
      rw [Multiset.mem_singleton.1 hw]
      exact Prod.Lex.left _ _ hlt

/-- The outputs of a node are moved: the relays that they make ready are one level deeper. -/
theorem progress_propagate {work : List Work} (hp : r.phase = .propagating ⟨.propagate id depth :: work, later⟩)
    (hdepth : depth ≤ limit) : r.phase.Progress limit (r.propagateFrom id depth ⟨work, later⟩).phase later := by
  rw [propagateFrom_phase]
  cases (r.graph.transferOutputs id).failure with
  | some error => exact Or.inl Outcome.noConfusion
  | none =>
    have hburden : r.phase.burden limit =
        Agenda.burden limit ⟨work, later⟩ + {(3 * (limit + 1 - depth), .panic "")} := by
      rw [hp]
      exact Agenda.burden_cons limit (.propagate id depth) work later
    refine Or.inr ⟨rfl, .of_burden hburden (Agenda.burden_append ..) fun new hnew => ?_⟩
    rw [Agenda.burden, Multiset.mem_coe] at hnew
    obtain ⟨w, hw, rfl⟩ := List.mem_map.1 hnew
    obtain ⟨relay, -, rfl⟩ := List.mem_map.1 hw
    refine Prod.Lex.left _ _ ?_
    dsimp only [Work.rank]
    omega

/-- A relay has got to its turn: this is what is left with it. -/
theorem burden_activate {work : List Work} (hp : r.phase = .propagating ⟨.activate id depth :: work, later⟩) :
    r.phase.burden limit = Agenda.burden limit ⟨work, later⟩ + {(3 * (limit + 1 - depth) + 2, .panic "")} := by
  rw [hp]
  exact Agenda.burden_cons limit (.activate id depth) work later

/-- **With every step of the driver, less is left to do**, unless the outputs are moved or the run is about to end. -/
theorem Drives.progress {acts : List Act} {deeds : List Deed} (hd : r.Drives acts deeds r')
    (hg : r.graph.Hosts Behavior.Reliable) (hrelies : r.phase.Relies r.graph.isRelay) (hshallow : r.phase.Shallow limit)
    (hlater : r.phase.later? = some later) (hopen : ¬ r.phase.Propagated later) :
    r.phase.Progress limit r'.phase later := by
  cases hd with
  | move hp =>
    rw [hp] at hshallow hlater
    cases hlater
    exact progress_propagate hp (hshallow _ List.mem_cons_self)
  | skip hp =>
    have hburden : r.phase.burden limit = _ := burden_activate hp
    rw [hp] at hlater
    cases hlater
    exact Or.inr ⟨rfl, .of_burden hburden (add_zero _).symm fun new hnew => absurd hnew (Multiset.notMem_zero new)⟩
  | exceed | refuse | leave => exact Or.inl Outcome.noConfusion
  | @relay _ n _ _ _ hp hn =>
    have hburden : r.phase.burden limit = _ := burden_activate hp
    rw [hp] at hlater hrelies
    cases hlater
    have hscript : (r.launch n).1.script.Unbroken :=
      hg.unbroken_relay (hrelies _ _ List.mem_cons_self) hn (n.activation n.prepare.1 r.iteration r.context) n.memory
    refine progress_carry hscript hburden ?_ _ fun _ _ _ => Prod.Lex.left _ _ ?_
    · exact Nat.lt_add_of_pos_right Nat.two_pos
    · exact Nat.lt_succ_self _
  | resume hp =>
    rw [hp] at hrelies hlater ⊢
    cases hlater
    exact progress_carry hrelies.1 rfl (Nat.lt_succ_self _) r fun ms rest hstop => Prod.Lex.right _ (rest_of_asleep hstop)
  | next hp | delay hp | turn hp =>
    rw [hp] at hlater hopen
    cases hlater
    exact absurd rfl hopen
  | desist hp | begin hp | park hp | lose hp | rouse hp | look hp | abandon hp | settle hp | pass hp | fail hp | quit hp
    | elapse hp | report hp =>
    rw [hp] at hlater
    cases hlater

/-! ### Runs come to what they make for -/

/-- The run comes to a state of some kind after finitely many steps. Calls may arrive and time may pass before each of them.
Whatever has arrived, there is a step that can come after some time, and can still come later. -/
inductive Attains (P : Run → Prop) : Run → Prop
  | here {r : Run} (h : P r) : Attains P r
  | onward {r : Run}
      (hcan : ∀ idle r₁, (∀ t ∈ idle, t.goesOn = false) → r.follow idle = some r₁ →
        ∃ s, s.goesOn = true ∧ ∃ ms₀, ∀ ms ≥ ms₀, ((r₁.wait ms).step? s).isSome)
      (hall : ∀ idle r₁ s r', (∀ t ∈ idle, t.goesOn = false) → r.follow idle = some r₁ → s.goesOn = true →
        r₁.step? s = some r' → Attains P r') : Attains P r

/-- While the outputs of a node are moved, the driver waits for relays only, and for none of them in vain. -/
theorem drives_later (h : r.phase.later? = some later) : ∃ ms₀, ∀ ms ≥ ms₀, ((r.wait ms).step? .drive).isSome := by
  cases hp : r.phase with
  | propagating agenda => exact ⟨0, fun ms _ => by simp [step?, drive?, Run.wait, hp]⟩
  | relaying relay depth agenda =>
    refine ⟨relay.wakeAt, fun ms hms => ?_⟩
    have hnow : relay.wakeAt ≤ r.now + ms := hms.trans (Nat.le_add_left ..)
    by_cases hc : r.executor.cancelled = true <;> simp [step?, drive?, Run.wait, hp, whileRelaying?, hc, hnow]
  | _ =>
    rw [hp] at h
    cases h

/-- **What is left to do is done.** -/
theorem attains_propagated (hg : r.graph.Hosts Behavior.Reliable) (hrelies : r.phase.Relies r.graph.isRelay)
    (hlimit : r.executor.config.maxRelayDepth = limit) (hshallow : r.phase.Shallow limit)
    (hlater : r.phase.later? = some later) : r.Attains fun r' => r'.phase.Propagated later := by
  -- The induction is on what is left to do; the limit and the nodes that come later stay the same.
  induction hp : r.phase using (Phase.wellFounded_lighter limit).induction generalizing r with
  | h p ih =>
    by_cases hdone : r.phase.Propagated later
    · exact .here hdone
    refine .onward (fun idle r₁ hidle hf => ?_) fun idle r₁ s r' hidle hf hgo hs => ?_
    · exact ⟨.drive, rfl, drives_later ((follow_idle hidle hf).1 ▸ hlater)⟩
    · obtain ⟨hphase, hgraph, -⟩ := follow_idle hidle hf
      have hlimit₁ : r₁.executor.config.maxRelayDepth = limit := by rw [(executor_follow hf).2.2, hlimit]
      have hshallow₁ := (shallow_follow hg.isNamed hlimit hshallow hf).1
      rw [← hphase] at hlater hdone
      rw [← hgraph] at hg hrelies
      rw [← hphase] at hrelies
      have hactivating : r₁.phase.isActivating = false := by
        cases hp₁ : r₁.phase with
        | activating batch =>
          rw [hp₁] at hlater
          cases hlater
        | _ => rfl
      have hdecision := drives_of_drive? (drive_of_goesOn hactivating hgo hs)
      rcases hdecision.progress hg hrelies hshallow₁ hlater hdone with hdone' | ⟨hlater', hlighter⟩
      · exact .here hdone'
      · rw [hphase, hp] at hlighter
        refine ih r'.phase hlighter ?_ (relies_step hg hrelies hs) (by rw [config_step hs, hlimit₁])
          (shallow_step hg.isNamed hlimit₁ hshallow₁ hs) hlater' rfl
        rw [graph_step hg.isNamed hs]
        exact hg.replay _

/-- **Moving the outputs of a node comes to an end.** Relays may lead back to themselves and to each other, calls may arrive
and relays may sleep: as long as no activation of a relay breaks down, the work that begins with a node comes to its end with
none left, or the run is about to end, cancelled or failed. From then on, an activation begins with a scan, or as that of a
relay within the limit of the depth, and so does each relay that sleeps. -/
theorem propagation_ends (hg : r.graph.Hosts Behavior.Reliable)
    (hp : r.phase = .propagating ⟨[.propagate id 0], later⟩) :
    (r.Attains fun r' => r'.phase.Propagated later) ∧
      ∀ signals r', r.follow signals = some r' →
        (∀ s relay typeId, .nodeStarted relay typeId ∈ r'.voices s → r'.phase = .boundary ∨
          ∃ depth work origins, r'.phase = .propagating ⟨.activate relay depth :: work, origins⟩ ∧
            depth ≤ r.executor.config.maxRelayDepth) ∧
        ∀ relay depth agenda, r'.phase = .relaying relay depth agenda → depth ≤ r.executor.config.maxRelayDepth := by
  have hshallow : r.phase.Shallow r.executor.config.maxRelayDepth := by
    rw [hp]
    exact List.forall_mem_singleton.2 (Nat.zero_le _)
  have hrelies : r.phase.Relies r.graph.isRelay := by
    rw [hp]
    intro relay depth hmem
    cases List.mem_singleton.1 hmem
  refine ⟨attains_propagated hg hrelies rfl hshallow (by rw [hp]; rfl), fun signals r' hf => ?_⟩
  obtain ⟨hshallow', hg'⟩ := shallow_follow hg.isNamed rfl hshallow hf
  refine ⟨fun s relay typeId hv => or_iff_not_imp_left.2 fun hboundary => ?_, fun relay depth agenda hp' => ?_⟩
  · obtain ⟨depth, work, origins, hnext, -, hdepth⟩ := next_of_started hg' hboundary hv
    rw [(executor_follow hf).2.2] at hdepth
    exact ⟨depth, work, origins, hnext, hdepth⟩
  · rw [hp'] at hshallow'
    exact hshallow'.1

end Run

/-! ### A relay that triggers itself -/

namespace Graph

/-- A source with a relay that triggers itself as well. -/
def signalLoop : Graph :=
  (signalPair.addEdge ⟨6⟩ ⟨5⟩).toOption.getD signalPair

theorem built_signalLoop : signalLoop.Built := by
  have h : signalPair.addEdge ⟨6⟩ ⟨5⟩ = .ok signalLoop := rfl
  exact .addEdge built_signalPair h

end Graph

namespace Run

/-- A run of the source and its relay, where a chain of relays may be as long as two. -/
def loopStart : Run :=
  (start (.create { ExecutorConfig.standard with maxRelayDepth := 2 }) Graph.signalLoop default .continuous 0).toOption.getD
    signalStart

/-- The run when it is about to move the outputs of the source. -/
def loopRun : Run :=
  (loopStart.follow [.drive, .run ⟨1⟩, .drive, .drive, .drive]).getD loopStart

/-- The run when it has ended. -/
def loopEnd : Run :=
  (loopRun.follow (.replicate 7 .drive)).getD loopRun

/-- The relay is activated twice, and then it is too deep. -/
theorem propagation_ends_loop : loopRun.graph.Hosts Behavior.Reliable ∧
    loopRun.phase = .propagating ⟨[.propagate ⟨1⟩ 0], []⟩ ∧ (loopRun.Attains fun r' => r'.phase.Propagated []) ∧
    loopRun.follow (.replicate 7 .drive) = some loopEnd ∧
    loopEnd.phase = .over ⟨⟨7⟩, .failed "relay: direct-through relay depth limit of 2 exceeded", 1, 0⟩ := by
  have hhosts : Graph.signalLoop.Hosts Behavior.Reliable := Graph.built_signalLoop.reached.hosts fun {id _} hn => by
    rw [show Graph.signalLoop.node? id = Graph.signalPair.node? id from rfl, Graph.node?_signalPair] at hn
    split_ifs at hn <;> cases hn <;> exact fun _ _ _ => .finish
  have hstart : start (.create { ExecutorConfig.standard with maxRelayDepth := 2 }) Graph.signalLoop default .continuous 0 =
      .ok loopStart := rfl
  have hfollow : loopStart.follow [.drive, .run ⟨1⟩, .drive, .drive, .drive] = some loopRun := rfl
  have hidentified := start_identified Graph.built_signalLoop.regular.toIdentified hstart
  have hdrawn : ({ Graph.signalLoop with supply := Graph.signalLoop.supply.draw.2 } : Graph).Hosts Behavior.Reliable :=
    Graph.Hosts.of_eq hhosts rfl rfl
  have hrun : loopRun.graph.Hosts Behavior.Reliable := by
    rw [graph_follow hidentified hfollow, (start_eq hstart).2]
    exact (hdrawn.replay _).replay _
  have hphase : loopRun.phase = .propagating ⟨[.propagate ⟨1⟩ 0], []⟩ := rfl
  exact ⟨hrun, hphase, (propagation_ends hrun hphase).1, follow_getD (by decide +kernel),
    Phase.eq_over_of_report? (by decide +kernel)⟩

end Run

end Dataflow
