import Dataflow.Proofs.Run.Failures
import Dataflow.Proofs.Run.Quiescence

/-!
# Runs at full speed come on

A run without relays that is neither paused nor cancelled comes on with every step, as long as the number of its iterations
has a bound, whatever its behaviors do: activations may fail or break down.

* `Phase.Smooth` says that a run neither waits for a call nor activates a relay;
* `Run.Approaches` says that less is left to do up to some iteration, which is well-founded, and `Run.approaches_step` that this
  is so after each step;
* `Run.comes_of_invariant`: such a run comes to the end of what an invariant allows.
-/

namespace Dataflow

/-- What a run does that neither waits for a call nor activates a relay. -/
def Phase.Smooth : Phase → Prop
  | .parked | .relaying .. | .broken _ => False
  | .propagating agenda => agenda.work = [] ∨ ∃ id, agenda.work = [.propagate id 0]
  | _ => True

/-- What is left of the part of an iteration that is under way. -/
def Phase.rest : Phase → Multiset (Script × Nat) × Nat
  | .activating batch => (batch.rests, batch.finished.length)
  | .propagating agenda => (0, 2 * agenda.origins.length + agenda.work.length)
  | _ => (0, 0)

/-- Without calls, a run is not cancelled. -/
theorem Executor.replay_silent {x : Executor} {deeds : List Deed} (h : Deed.Silent deeds) :
    (x.replay deeds).cancelled = x.cancelled := by
  induction deeds generalizing x with
  | nil => rfl
  | cons d rest ih =>
    have hd : d.cancels x.state = false := by
      cases d with
      | call c => exact absurd List.mem_cons_self (h c)
      | _ => rfl
    have hrest := ih (x := x.enact d) fun c hc => h c (List.mem_cons_of_mem _ hc)
    rwa [(x.enacted d).cancelled, hd, Bool.or_false] at hrest

namespace Run

variable {bound : Nat} {r r' : Run}

/-- Less is left to do up to an iteration: less parts of iterations, or less of the part under way. -/
def Approaches (bound : Nat) (r' r : Run) : Prop :=
  Prod.Lex (· < ·)
    (Prod.Lex (Relation.CutExpand (Prod.Lex (Relation.TransGen Script.Rest) (· < ·))) (· < ·))
    (6 * (bound - r'.iteration) + r'.phase.distance, r'.phase.rest)
    (6 * (bound - r.iteration) + r.phase.distance, r.phase.rest)

theorem wellFounded_approaches (bound : Nat) : WellFounded (Approaches bound) :=
  InvImage.wf (fun r : Run => (6 * (bound - r.iteration) + r.phase.distance, r.phase.rest))
    (WellFounded.prod_lex Nat.lt_wfRel.wf
      (WellFounded.prod_lex (WellFounded.prod_lex Script.wellFounded_rest.transGen Nat.lt_wfRel.wf).cutExpand Nat.lt_wfRel.wf))

/-- A later part of the iteration begins. -/
theorem Approaches.of_distance (hiteration : r'.iteration = r.iteration) (h : r'.phase.distance < r.phase.distance) :
    Approaches bound r' r := by
  refine Prod.Lex.left _ _ ?_
  rw [hiteration]
  omega

/-- The next iteration begins. -/
theorem Approaches.of_next (hiteration : r'.iteration = r.iteration + 1) (hbound : r'.iteration ≤ bound)
    (hp : r.phase = .boundary) : Approaches bound r' r := by
  have hdistance : r'.phase.distance ≤ 5 := by cases r'.phase <;> simp [Phase.distance]
  refine Prod.Lex.left _ _ ?_
  rw [hp, Phase.distance]
  omega

/-- Some activations come closer to their end. -/
theorem Approaches.of_closer {batch batch' : Batch} (hiteration : r'.iteration = r.iteration) (hp : r.phase = .activating batch)
    (hp' : r'.phase = .activating batch') (h : batch'.Closer batch) : Approaches bound r' r := by
  unfold Approaches
  rw [hiteration, hp, hp']
  exact Prod.Lex.right _ h

/-- The outputs of some nodes were moved. -/
theorem Approaches.of_moved {agenda agenda' : Agenda} (hiteration : r'.iteration = r.iteration)
    (hp : r.phase = .propagating agenda) (hp' : r'.phase = .propagating agenda')
    (h : 2 * agenda'.origins.length + agenda'.work.length < 2 * agenda.origins.length + agenda.work.length) :
    Approaches bound r' r := by
  unfold Approaches
  rw [hiteration, hp, hp']
  exact Prod.Lex.right _ (Prod.Lex.right _ h)

theorem approaches_boundary (hrunning : r.IsRunning) (hp : r.phase = .boundary) (hs : r.drive? = some r')
    (hbound : r'.iteration ≤ bound) : Approaches bound r' r := by
  simp only [drive?, hp, atBoundary_of_running hrunning.cancelled hrunning.state, Option.some.injEq] at hs
  rcases hready : collectReady r.graph r.graph.nodeList r.firedSources with ⟨ready, fired⟩
  rw [beginIteration_eq hready] at hs
  split_ifs at hs with hempty
  · subst hs
    exact .of_distance rfl (by rw [hp]; exact Nat.lt_succ_self 1)
  · refine .of_next ?_ hbound hp
    rw [← hs, spawn_eq]
    rfl

theorem approaches_activating {batch : Batch} {s : Signal} (hg : r.graph.Named) (hrunning : r.IsRunning)
    (hp : r.phase = .activating batch) (hn : batch.pending.Nodup) (hgo : s.goesOn = true) (hs : r.step? s = some r')
    (hc : r'.executor.cancelled = false) (hiteration : r'.iteration = r.iteration) : Approaches bound r' r := by
  rcases activating_step hg hp hrunning.cancelled hs with ⟨batch', hp', -⟩ | ⟨-, -, rfl⟩
  · exact .of_closer hiteration hp hp' (closer_step hg hn hp hgo hs hc hp')
  · refine .of_distance hiteration ?_
    rw [passBarrier_phase, hp]
    split_ifs <;> simp [Phase.distance]

theorem approaches_moving {agenda : Agenda} (hp : r.phase = .propagating agenda) (hsmooth : r.phase.Smooth)
    (hsmooth' : r'.phase.Smooth) (hs : r.drive? = some r') (hiteration : r'.iteration = r.iteration) : Approaches bound r' r := by
  obtain ⟨work, origins⟩ := agenda
  simp only [drive?, hp, Option.some.injEq] at hs
  rw [hp] at hsmooth
  rcases hsmooth with hnil | ⟨id, hwork⟩
  · obtain rfl : work = [] := hnil
    cases origins with
    | nil =>
      refine .of_distance hiteration ?_
      simp only [propagateNext, beginDelay] at hs
      rw [← hs, hp]
      cases r.delay? with
      | some ms => exact Nat.lt_succ_self 3
      | none => exact Nat.lt_succ_of_lt (Nat.lt_succ_self 2)
    | cons id origins =>
      have hp' : r'.phase = .propagating ⟨[.propagate id 0], origins⟩ := by
        rw [← hs]
        rfl
      refine .of_moved hiteration hp hp' ?_
      simp only [List.length_cons, List.length_nil]
      omega
  · obtain rfl : work = [.propagate id 0] := hwork
    simp only [propagateNext, propagateFrom] at hs
    split at hs
    · refine .of_distance hiteration ?_
      rw [← hs, hp]
      simp [endWith, Phase.distance]
    · -- A run that goes on smoothly has triggered nothing.
      have hp' : r'.phase = .propagating
          ⟨((r.graph.transferOutputs id).relays.filter (r.graph.transferOutputs id).graph.isReady).map
            fun relay => Work.activate relay 1, origins⟩ := by
        rw [← hs]
        split_ifs <;> simp [publish]
      rw [hp'] at hsmooth'
      refine .of_moved hiteration hp hp' ?_
      rcases hsmooth' with hnil | ⟨k, hk⟩
      · simp [show List.map _ _ = [] from hnil]
      · obtain ⟨relay, -, hrelay⟩ := List.mem_map.1 (show Work.propagate k 0 ∈ List.map _ _ from hk ▸ List.mem_singleton_self _)
        cases hrelay

/-- Only the driver goes on while no activations are under way. -/
theorem drive_of_goesOn {s : Signal} (hp : r.phase.isActivating = false) (hgo : s.goesOn = true) (hs : r.step? s = some r') :
    r.drive? = some r' := by
  cases s with
  | drive => exact hs
  | run node =>
    obtain ⟨batch, task, hb, -⟩ := runNode?_eq_some.1 hs
    rw [hb] at hp
    cases hp
  | wake node =>
    obtain ⟨batch, sleeper, hb, -⟩ := wakeNode?_eq_some.1 hs
    rw [hb] at hp
    cases hp
  | control | pass => cases hgo

/-- **Every step comes nearer to the end of the iterations that are allowed.** -/
theorem approaches_step {s : Signal} (hg : r.graph.Named) (hrunning : r.IsRunning)
    (hn : ∀ batch, r.phase = .activating batch → batch.pending.Nodup) (hsmooth : r.phase.Smooth) (hsmooth' : r'.phase.Smooth)
    (hgo : s.goesOn = true) (hs : r.step? s = some r') (hc : r'.executor.cancelled = false) (hbound : r'.iteration ≤ bound) :
    Approaches bound r' r := by
  have hdrive := fun hp => drive_of_goesOn hp hgo hs
  have hsteady := fun hp => (steady_step hp hs).iteration
  cases hp : r.phase with
  | boundary => exact approaches_boundary hrunning hp (hdrive (by rw [hp]; rfl)) hbound
  | activating batch =>
    exact approaches_activating hg hrunning hp (hn batch hp) hgo hs hc (hsteady (by rw [hp]; exact Phase.noConfusion))
  | propagating agenda =>
    exact approaches_moving hp hsmooth hsmooth' (hdrive (by rw [hp]; rfl)) (hsteady (by rw [hp]; exact Phase.noConfusion))
  | delaying wakeAt =>
    have hend := hdrive (by rw [hp]; rfl)
    simp only [drive?, hp, whileDelaying?, hrunning.cancelled, Bool.false_eq_true, if_false] at hend
    split_ifs at hend
    refine .of_distance (hsteady (by rw [hp]; exact Phase.noConfusion)) ?_
    rw [← Option.some.inj hend, hp]
    exact Nat.lt_succ_self 2
  | ending outcome =>
    have hend := hdrive (by rw [hp]; rfl)
    simp only [drive?, hp, Option.some.injEq] at hend
    refine .of_distance (hsteady (by rw [hp]; exact Phase.noConfusion)) ?_
    rw [← hend, hp]
    exact Nat.zero_lt_one
  | parked | relaying | broken =>
    rw [hp] at hsmooth
    exact hsmooth.elim
  | _ =>
    have hend := hdrive (by rw [hp]; rfl)
    simp only [drive?, hp, reduceCtorEq] at hend

/-! ### States without calls -/

/-- A run at full speed does not wait to be resumed. -/
theorem IsRunning.unparked_step {s : Signal} (h : r.IsRunning) (hparked : r.phase ≠ .parked) (hgo : s.goesOn = true)
    (hs : r.step? s = some r') : r'.phase ≠ .parked := by
  intro hp'
  have hresting : r'.phase.isResting = true := by rw [hp']; rfl
  by_cases hp : r.phase = .boundary
  · have hdrive := drive_of_goesOn (by rw [hp]; rfl) hgo hs
    simp only [drive?, hp, atBoundary_of_running h.cancelled h.state, Option.some.injEq] at hdrive
    rcases hready : collectReady r.graph r.graph.nodeList r.firedSources with ⟨ready, fired⟩
    rw [← hdrive, beginIteration_eq hready] at hp'
    split_ifs at hp'
    cases hp'
  · cases step_turns hs with
    | quiet _ _ hrest _ =>
      have hold := hrest hresting
      cases hphase : r.phase with
      | boundary => exact hp hphase
      | parked => exact hparked hphase
      | _ => rw [hphase] at hold; cases hold
    | begin _ _ _ _ _ hrest _ => rw [hrest] at hresting; cases hresting
    | finish _ _ _ hboundary => rw [hboundary] at hp'; cases hp'
    | report _ _ hover => rw [hover] at hp'; cases hp'

/-- A state that a run at full speed has got to without calls. -/
structure Unsteered (r₀ r : Run) : Prop where
  follow : ∃ signals, r₀.follow signals = some r
  uncancelled : r.executor.cancelled = false
  running : r.phase.isFinal = false → r.IsRunning
  unparked : r.phase ≠ .parked

theorem Unsteered.begin (hp : r.phase = .boundary) (h : r.IsRunning) : Unsteered r r :=
  ⟨⟨[], rfl⟩, h.cancelled, fun _ => h, by rw [hp]; exact Phase.noConfusion⟩

theorem Unsteered.step {r₀ : Run} {ms : Nat} {s : Signal} (h : Unsteered r₀ r) (hgo : s.goesOn = true)
    (hsilent : Deed.Silent ((r.wait ms).deeds s)) (hs : (r.wait ms).step? s = some r') : Unsteered r₀ r' := by
  obtain ⟨signals, hf⟩ := h.follow
  have hnotFinal : r.phase.isFinal = false := by
    cases hp : r.phase.isFinal with
    | false => rfl
    | true =>
      obtain ⟨result, hover⟩ := Phase.eq_over_of_isFinal hp
      have hdrive := drive_of_goesOn (r := r.wait ms) (by rw [show (r.wait ms).phase = _ from hover]; rfl) hgo hs
      simp only [drive?, show (r.wait ms).phase = _ from hover, reduceCtorEq] at hdrive
  have hrunning := h.running hnotFinal
  have hwait : (r.wait ms).IsRunning := ⟨hrunning.state, hrunning.cancelled, hrunning.stepping⟩
  refine ⟨⟨signals ++ [.pass ms, s], ?_⟩, ?_, hwait.step hsilent hs, hwait.unparked_step h.unparked hgo hs⟩
  · rw [follow_append, hf, Option.bind_some]
    exact Option.bind_eq_some_iff.2 ⟨_, rfl, Option.bind_eq_some_iff.2 ⟨_, hs, rfl⟩⟩
  · rw [executor_step hs, Executor.replay_silent hsilent]
    exact hrunning.cancelled

/-- **A run comes to what an invariant leads to.** Let the run be able to go on wherever the invariant holds, and let each step
keep the invariant and come nearer to the bound, up to a state of some kind. Then the run comes to such a state. -/
theorem comes_of_invariant {P I : Run → Prop} (bound : Nat)
    (hcan : ∀ r, I r → P r ∨ ∃ s, s.goesOn = true ∧ ∃ ms₀, ∀ ms ≥ ms₀, ((r.wait ms).step? s).isSome)
    (hstep : ∀ r ms s r', I r → ¬ P r → s.goesOn = true → Deed.Silent ((r.wait ms).deeds s) → (r.wait ms).step? s = some r' →
      P r' ∨ I r' ∧ Approaches bound r' r)
    (hr : I r) : r.Comes P := by
  induction r using (wellFounded_approaches bound).induction with
  | h r ih =>
    rcases hcan r hr with hP | hgo
    · exact .here hP
    · by_cases hP : P r
      · exact .here hP
      · refine .onward hgo fun ms s r' hs hsilent hstep' => ?_
        rcases hstep r ms s r' hr hP hs hsilent hstep' with hP' | ⟨hr', hnear⟩
        · exact .here hP'
        · exact ih r' hnear hr'

end Run

end Dataflow
