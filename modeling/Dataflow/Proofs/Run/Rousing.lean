import Dataflow.Proofs.Run.Control
import Dataflow.Proofs.Run.Fellows

/-!
# Wake-ups that are left over

A wake-up that was left for a paused run is kept until a run is paused, which may be another run. All that it can do then
is to make the driver look at the state of the executor once more.

* `Run.roused` is a run with a wake-up, and `Run.step_roused` says that the wake-up makes no difference to a step, unless
  the driver waits for one;
* `Run.Patient` is the invariant of a run that waits: nothing has happened that the driver has not been told of;
* `Run.Echoes` says that a run differs from another one by a wake-up at most, or has just been woken in vain;
* `Run.Mirrors` says that each of two runs can do whatever the other does, with a step of the driver more or less, and
  `Run.Echoes.mirrors` that the one relation implies the other.
-/

namespace Dataflow

namespace Executor

/-- A wake-up makes no difference to a call. -/
theorem call_notify (x : Executor) (c : Control) : x.notify.call c = ((x.call c).1, (x.call c).2.notify) := by
  cases hs : x.state <;> cases c <;>
    simp [call, perform, transition, ExecutionState.apply, ExecutionState.next?, notify, ExecutionState.isActive,
      Except.map, Executor.publish, hs]

/-- A call that leaves no wake-up changes nothing while a run is paused. -/
theorem call_of_wake {x : Executor} {c : Control} (h : (x.call c).2.wake = false) :
    x.wake = false ∧ (x.state = .paused → (x.call c).2 = x) := by
  cases hs : x.state <;> cases c <;>
    simp_all [call, perform, transition, ExecutionState.apply, ExecutionState.next?, notify, ExecutionState.isActive,
      Except.map, Executor.publish]

/-- A wake-up waits until the driver takes it. -/
theorem replay_notify {x : Executor} {deeds : List Deed} (h : .takeWake ∉ deeds) :
    x.notify.replay deeds = (x.replay deeds).notify := by
  have henact : ∀ (y : Executor) (d : Deed), d ≠ .takeWake → y.notify.enact d = (y.enact d).notify := by
    intro y d hd
    cases d with
    | publish kind | finish result => rfl
    | call c =>
      simp only [enact, call_notify]
    | endStep =>
      simp only [enact, endStep, transition, ExecutionState.apply, notify]
      cases y.state.next? .stepComplete <;> rfl
    | takeWake => exact absurd rfl hd
  induction deeds generalizing x with
  | nil => rfl
  | cons d rest ih =>
    obtain ⟨hd, hrest⟩ := not_or.1 (mt List.mem_cons.2 h)
    rw [replay_cons, replay_cons, henact x d (Ne.symm hd), ih hrest]

end Executor

namespace Run

/-- A run for which a wake-up waits. -/
def roused (r : Run) : Run :=
  { r with executor := r.executor.notify }

/-! ### The deed that takes a wake-up -/

theorem takeWake_not_mem_performed (node : NodeId) (script : Script) (x : Executor) :
    Deed.takeWake ∉ performed node script x := by
  induction script generalizing x with
  | finish | panic | sleep => exact List.not_mem_nil
  | emit event rest ih => simpa [performed] using ih _
  | control c rest ih => simpa [performed] using ih _ _ _
  | log entry rest ih => exact ih x
  | remember memory rest ih => exact ih x

theorem takeWake_not_mem_carried (r : Run) (task : Task) (script : Script) : Deed.takeWake ∉ r.carried task script := by
  have hclosing : ∀ (stop : Stop) (q : Run), Deed.takeWake ∉ closing task stop q := by
    intro stop q
    cases stop <;> simp [closing]
  rw [carried, List.mem_append, not_or]
  exact ⟨takeWake_not_mem_performed _ _ _, hclosing _ _⟩

theorem takeWake_not_mem_begun (r : Run) : Deed.takeWake ∉ r.begun := by
  unfold begun
  dsimp only
  split_ifs <;> simp

theorem takeWake_not_mem_ended (r : Run) : Deed.takeWake ∉ r.ended := by
  unfold ended
  split_ifs <;> simp

theorem Drives.takeWake {r r' : Run} {acts : List Act} {deeds : List Deed} (hd : r.Drives acts deeds r')
    (h : .takeWake ∈ deeds) : r.phase = .parked := by
  cases hd with
  | rouse hp => exact hp
  | begin => exact absurd h (takeWake_not_mem_begun r)
  | settle | refuse | report => simp at h
  | move => split_ifs at h <;> simp at h
  | relay => exact absurd ((List.mem_cons.1 h).resolve_left Deed.noConfusion) (takeWake_not_mem_carried _ _ _)
  | turn | elapse => exact absurd h (takeWake_not_mem_ended r)
  | resume => exact absurd h (takeWake_not_mem_carried _ _ _)
  | _ => exact absurd h List.not_mem_nil

/-- Only a driver that waits takes a wake-up. -/
theorem takeWake_mem_deeds {r : Run} {s : Signal} (h : .takeWake ∈ r.deeds s) : s = .drive ∧ r.phase = .parked := by
  cases s with
  | drive =>
    obtain ⟨r', hd⟩ := drives_of_mem_driven h
    exact ⟨rfl, hd.takeWake h⟩
  | run node =>
    simp only [deeds] at h
    split at h
    · split at h
      · exact absurd h (takeWake_not_mem_performed _ _ _)
      · exact absurd h List.not_mem_nil
    · exact absurd h List.not_mem_nil
  | _ => simp [deeds] at h

/-- **A wake-up makes no difference to a step**, unless the driver waits for one. -/
theorem step_roused {r : Run} {s : Signal} (hp : s = .drive → r.phase ≠ .parked) :
    r.roused.step? s = (r.step? s).map roused := by
  have hfellow : r.executor.Fellow r.executor.notify := ⟨⟨rfl, rfl, rfl⟩, rfl⟩
  have hwake : r.executor.notify.replay (r.deeds s) = (r.executor.replay (r.deeds s)).notify :=
    Executor.replay_notify fun h => hp (takeWake_mem_deeds h).1 (takeWake_mem_deeds h).2
  rw [show r.roused = r.on r.executor.notify from rfl, step_on hfellow hp, hwake]
  cases hs : r.step? s with
  | none => rfl
  | some q =>
    rw [← executor_step hs]
    rfl

/-! ### Waiting -/

/-- A run that waits without a wake-up has paused, and has not been cancelled. -/
def Patient (r : Run) : Prop :=
  r.phase = .parked → r.executor.wake = false → r.executor.state = .paused ∧ r.executor.cancelled = false

/-- A run begins to wait only after a look at the state of the executor. -/
theorem boundary_of_parked {r r' : Run} (hs : r.drive? = some r') (hp' : r'.phase = .parked) : r.phase = .boundary := by
  have hresting : r.phase.isResting = true := by
    cases step_turns (s := .drive) hs with
    | quiet _ _ hresting => exact hresting (by rw [hp']; rfl)
    | begin _ _ _ _ _ hresting => rw [hp'] at hresting; cases hresting
    | finish _ _ _ hp => rw [hp'] at hp; cases hp
    | report _ _ hp => rw [hp'] at hp; cases hp
  cases hp : r.phase with
  | boundary => rfl
  | parked =>
    simp only [drive?, hp, whileParked?] at hs
    split_ifs at hs <;> cases hs <;> cases hp'
  | _ => rw [hp] at hresting; cases hresting

/-- A run begins to wait only if it finds that it is paused, and not cancelled. -/
theorem drive_parked {r r' : Run} (hs : r.drive? = some r') (hp' : r'.phase = .parked) :
    r'.executor.state = .paused ∧ r'.executor.cancelled = false := by
  have hp := boundary_of_parked hs hp'
  simp only [drive?, hp, Option.some.injEq] at hs
  subst hs
  unfold atBoundary at hp' ⊢
  by_cases hc : r.executor.cancelled = true
  · rw [if_pos hc] at hp'
    cases hp'
  · rw [if_neg hc] at hp' ⊢
    cases hstate : r.executor.state with
    | paused => exact ⟨hstate, by simpa using hc⟩
    | idle => rw [hstate] at hp'; cases hp'
    | running | stepping =>
      rw [hstate] at hp'
      unfold beginIteration at hp'
      dsimp only at hp'
      split_ifs at hp'
      cases hp'

theorem Patient.step {r r' : Run} {s : Signal} (h : r.Patient) (hs : r.step? s = some r') : r'.Patient := by
  intro hp' hwake
  cases s with
  | drive => exact drive_parked hs hp'
  | run node =>
    obtain ⟨batch, task, batch', -, -, rfl, -⟩ := runNode_turned hs
    cases hp'
  | wake node =>
    obtain ⟨batch, batch', -, rfl, -⟩ := wakeNode_turned hs
    cases hp'
  | control c =>
    cases hs
    obtain ⟨hbefore, hsame⟩ := Executor.call_of_wake hwake
    obtain ⟨hstate, hcancelled⟩ := h hp' hbefore
    dsimp only
    rw [hsame hstate]
    exact ⟨hstate, hcancelled⟩
  | pass ms =>
    cases hs
    exact h hp' hwake

/-! ### Runs that differ by a wake-up -/

/-- A run differs from another one by a wake-up at most, or has just been woken in vain while the other one waits. -/
inductive Echoes (r r' : Run) : Prop
  | same (h : r = r')
  | roused (h : r = r'.roused)
  | woken (hp : r'.phase = .parked) (h : r = { r' with phase := .boundary })

/-- The signals that do not come from the driver. -/
def Signal.others (signals : List Signal) : List Signal :=
  signals.filter (· ≠ .drive)

/-- Each of two runs can do whatever the other does: the same happens in both, up to wake-ups, while the driver may make a
step more or less. -/
structure Mirrors (r r' : Run) : Prop where
  forward : ∀ signals q, r.follow signals = some q →
    ∃ signals' q', r'.follow signals' = some q' ∧ Signal.others signals' = Signal.others signals ∧ q.Echoes q'
  backward : ∀ signals' q', r'.follow signals' = some q' →
    ∃ signals q, r.follow signals = some q ∧ Signal.others signals = Signal.others signals' ∧ q.Echoes q'

theorem follow_singleton {r r' : Run} {s : Signal} (hs : r.step? s = some r') : r.follow [s] = some r' := by
  rw [follow, hs]
  rfl

theorem roused_of_wake {r : Run} (h : r.executor.wake = true) : r.roused = r := by
  unfold roused Executor.notify
  rw [← h]

/-- What the driver does when it is woken. -/
theorem drive_of_wake {r : Run} (hp : r.phase = .parked) (hwake : r.executor.wake = true) :
    r.drive? = some { r with executor := { r.executor with wake := false }, phase := .boundary } := by
  simp only [drive?, hp, whileParked?, hwake, if_true]

/-- A run that has been woken in vain goes on waiting. -/
theorem Patient.drive_woken {r : Run} (h : r.Patient) (hp : r.phase = .parked) (hwake : r.executor.wake = false) :
    ({ r with phase := .boundary } : Run).drive? = some r := by
  obtain ⟨hstate, hcancelled⟩ := h hp hwake
  simp only [drive?, atBoundary, hstate, hcancelled, Bool.false_eq_true, if_false]
  rw [← hp]

variable {r r' q q' : Run} {s : Signal}

/-- Whatever the run with the wake-up does, the other run does it as well. -/
theorem Echoes.forth (h : r.Echoes r') (hpatient : r'.Patient) (hs : r.step? s = some q) :
    ∃ signals' q', r'.follow signals' = some q' ∧ Signal.others signals' = Signal.others [s] ∧ q.Echoes q' := by
  cases h with
  | same h => exact ⟨[s], q, follow_singleton (h ▸ hs), rfl, .same rfl⟩
  | roused h =>
    subst h
    by_cases hwait : s = .drive ∧ r'.phase = .parked
    · obtain ⟨rfl, hp⟩ := hwait
      cases hwake : r'.executor.wake with
      | true =>
        rw [roused_of_wake hwake] at hs
        exact ⟨[.drive], q, follow_singleton hs, rfl, .same rfl⟩
      | false =>
        -- The wake-up is used up in vain.
        have hdrive : r'.roused.drive? = some { r' with executor := { r'.executor with wake := false }, phase := .boundary } :=
          drive_of_wake (r := r'.roused) hp rfl
        obtain rfl := Option.some.inj (hs.symm.trans hdrive)
        refine ⟨[], r', rfl, rfl, .woken hp ?_⟩
        rw [← hwake]
    · rw [step_roused fun h hp => hwait ⟨h, hp⟩] at hs
      obtain ⟨q', hq', rfl⟩ := Option.map_eq_some_iff.1 hs
      exact ⟨[s], q', follow_singleton hq', rfl, .roused rfl⟩
  | woken hp h =>
    subst h
    cases s with
    | control c =>
      cases hs
      exact ⟨[.control c], { r' with executor := (r'.executor.call c).2 }, rfl, rfl, .woken hp rfl⟩
    | pass ms =>
      cases hs
      exact ⟨[.pass ms], { r' with now := r'.now + ms }, rfl, rfl, .woken hp rfl⟩
    | run | wake => simp [step?, runNode?, wakeNode?] at hs
    | drive =>
      cases hwake : r'.executor.wake with
      | false =>
        obtain rfl := Option.some.inj (hs.symm.trans (hpatient.drive_woken hp hwake))
        exact ⟨[], _, rfl, rfl, .same rfl⟩
      | true =>
        -- Something has happened since, and the other run is woken as well.
        have hwoken : ({ r' with phase := .boundary } : Run) =
            ({ r' with executor := { r'.executor with wake := false }, phase := .boundary } : Run).roused := by
          unfold Run.roused Executor.notify
          rw [← hwake]
        rw [hwoken, step_roused fun _ => Phase.noConfusion] at hs
        obtain ⟨q', hq', rfl⟩ := Option.map_eq_some_iff.1 hs
        refine ⟨[.drive, .drive], q', ?_, rfl, .roused rfl⟩
        rw [follow, show r'.step? .drive = _ from drive_of_wake hp hwake, Option.bind_some]
        exact follow_singleton hq'

/-- Whatever the other run does, the run with the wake-up does it as well. -/
theorem Echoes.back (h : r.Echoes r') (hpatient : r'.Patient) (hs : r'.step? s = some q') :
    ∃ signals q, r.follow signals = some q ∧ Signal.others signals = Signal.others [s] ∧ q.Echoes q' := by
  cases h with
  | same h => exact ⟨[s], q', follow_singleton (h ▸ hs), rfl, .same rfl⟩
  | roused h =>
    subst h
    by_cases hwait : s = .drive ∧ r'.phase = .parked
    · obtain ⟨rfl, hp⟩ := hwait
      cases hwake : r'.executor.wake with
      | true => exact ⟨[.drive], q', follow_singleton ((roused_of_wake hwake).symm ▸ hs), rfl, .same rfl⟩
      | false =>
        -- Without a wake-up, the other run goes on waiting.
        obtain ⟨-, hcancelled⟩ := hpatient hp hwake
        simp [step?, drive?, hp, whileParked?, hwake, hcancelled] at hs
    · have hs' := step_roused (s := s) fun h hp => hwait ⟨h, hp⟩
      rw [hs] at hs'
      exact ⟨[s], q'.roused, follow_singleton hs', rfl, .roused rfl⟩
  | woken hp h =>
    subst h
    cases s with
    | control c =>
      cases hs
      exact ⟨[.control c], { r' with executor := (r'.executor.call c).2, phase := .boundary }, rfl, rfl, .woken hp rfl⟩
    | pass ms =>
      cases hs
      exact ⟨[.pass ms], { r' with now := r'.now + ms, phase := .boundary }, rfl, rfl, .woken hp rfl⟩
    | run | wake => simp [step?, runNode?, wakeNode?, hp] at hs
    | drive =>
      cases hwake : r'.executor.wake with
      | true =>
        obtain rfl := Option.some.inj (hs.symm.trans (drive_of_wake hp hwake))
        refine ⟨[], _, rfl, rfl, .roused ?_⟩
        unfold Run.roused Executor.notify
        rw [← hwake]
      | false =>
        obtain ⟨-, hcancelled⟩ := hpatient hp hwake
        simp [step?, drive?, hp, whileParked?, hwake, hcancelled] at hs

theorem Signal.others_append (signals signals' : List Signal) :
    others (signals ++ signals') = others signals ++ others signals' :=
  List.filter_append ..

theorem Patient.follow {signals : List Signal} (h : r.Patient) (hf : r.follow signals = some r') : r'.Patient := by
  induction signals generalizing r with
  | nil =>
    cases hf
    exact h
  | cons s rest ih =>
    obtain ⟨r₁, hs, hf⟩ := Option.bind_eq_some_iff.1 hf
    exact ih (h.step hs) hf

/-- **Runs that differ by a wake-up mirror each other.** -/
theorem Echoes.mirrors (h : r.Echoes r') (hpatient : r'.Patient) : r.Mirrors r' where
  forward signals q hf := by
    induction signals generalizing r r' with
    | nil =>
      cases hf
      exact ⟨[], r', rfl, rfl, h⟩
    | cons s rest ih =>
      obtain ⟨r₁, hs, hf⟩ := Option.bind_eq_some_iff.1 hf
      obtain ⟨first, r₁', hfirst, hothers, h₁⟩ := h.forth hpatient hs
      obtain ⟨later, q', hlater, hothers', hq⟩ := ih h₁ (hpatient.follow hfirst) hf
      refine ⟨first ++ later, q', ?_, ?_, hq⟩
      · rw [follow_append, hfirst]
        exact hlater
      · rw [Signal.others_append, hothers, hothers', ← Signal.others_append]
        rfl
  backward signals' q' hf := by
    induction signals' generalizing r r' with
    | nil =>
      cases hf
      exact ⟨[], r, rfl, rfl, h⟩
    | cons s rest ih =>
      obtain ⟨r₁', hs, hf⟩ := Option.bind_eq_some_iff.1 hf
      obtain ⟨first, r₁, hfirst, hothers, h₁⟩ := h.back hpatient hs
      obtain ⟨later, q, hlater, hothers', hq⟩ := ih h₁ (hpatient.step hs) hf
      refine ⟨first ++ later, q, ?_, ?_, hq⟩
      · rw [follow_append, hfirst]
        exact hlater
      · rw [Signal.others_append, hothers, hothers', ← Signal.others_append]
        rfl

end Run

end Dataflow
