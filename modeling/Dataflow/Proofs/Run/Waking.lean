import Dataflow.Proofs.Run.Rousing

/-!
# Calls and a driver that waits

A call changes what the executor keeps, and leaves its wake-up only after that. The driver finds out whether its run is
cancelled, then reads the state, and then decides with what it has seen, perhaps to wait. Between any two of these
accesses anything may happen.

* `Executor.accept` is the first half of a call, and `Executor.perform_eq_accept` says what the other half is;
* `Run.decideOn` is the decision of a driver, with what it has seen before;
* `Interplay` is a run together with what its driver has seen and with the wake-ups that are still to be left;
  `Interplay.beat?` is what a single access changes, and `Interplay.play` what some of them change one after the other;
* `Interplay.exists_play`: whatever a run does step by step is one of these courses;
* `Interplay.Attentive` is the invariant: there is a wake-up for everything that the driver has overlooked;
* `Interplay.no_call_lost`: a driver that waits, and that nothing is going to wake, waits for a run that is paused and
  not cancelled.
-/

namespace Dataflow

/-- Whether an accepted call leaves a wake-up. -/
def Control.wakes : Control → Bool
  | .pause => false
  | .resume | .step | .cancel => true

namespace Executor

/-- The first half of a call: what it changes at once, without the wake-up. -/
def accept (x : Executor) (c : Control) : Except TransitionError Executor :=
  match c with
  | .cancel => (x.state.apply .cancel).map fun _ => { x with cancelled := true }
  | c => x.transition c.transition

/-- **A call is its first half, and then the wake-up if it leaves one.** -/
theorem perform_eq_accept (x : Executor) (c : Control) :
    x.perform c = (x.accept c).map fun y => if c.wakes then y.notify else y := by
  cases c with
  | pause =>
    show x.transition .pause = (x.transition .pause).map fun y => y
    cases x.transition .pause <;> rfl
  | resume | step => rfl
  | cancel =>
    show (x.state.apply .cancel).map _ = ((x.state.apply .cancel).map _).map _
    cases x.state.apply .cancel <;> rfl

/-- A call that leaves no wake-up has paused the run. -/
theorem accept_spec {x y : Executor} {c : Control} (h : x.accept c = .ok y) :
    y.wake = x.wake ∧ (c.wakes = true ∨ y.state = .paused ∧ y.cancelled = x.cancelled) := by
  cases c with
  | pause =>
    obtain ⟨next, hnext, rfl⟩ := Except.map_eq_ok.1 h
    refine ⟨rfl, Or.inr ⟨?_, rfl⟩⟩
    unfold ExecutionState.apply at hnext
    cases hs : x.state <;> rw [hs] at hnext <;> cases hnext
    rfl
  | resume | step =>
    obtain ⟨next, -, rfl⟩ := Except.map_eq_ok.1 h
    exact ⟨rfl, Or.inl rfl⟩
  | cancel =>
    obtain ⟨-, -, rfl⟩ := Except.map_eq_ok.1 h
    exact ⟨rfl, Or.inl rfl⟩

end Executor

namespace Run

/-- Decide at a boundary, with what the driver has seen before. The executor may have changed since then, and is left as
it is by now. -/
def decideOn (r : Run) (seen : ExecutionState) : Run :=
  let decided := { r with executor := { r.executor with state := seen, cancelled := false } }.atBoundary
  { decided with
    executor := { decided.executor with state := r.executor.state, cancelled := r.executor.cancelled } }

/-- At a boundary, the driver does nothing but publish to its executor. -/
theorem atBoundary_executor (r : Run) :
    ∃ kinds, r.atBoundary.executor =
      { r.executor with bus := r.executor.bus.publishAll r.executor.executionId kinds } := by
  unfold atBoundary
  by_cases hc : r.executor.cancelled = true
  · rw [if_pos hc]
    exact ⟨[], rfl⟩
  · rw [if_neg hc]
    cases r.executor.state with
    | paused | idle => exact ⟨[], rfl⟩
    | running | stepping =>
      dsimp only
      rw [beginIteration_executor, begun]
      split_ifs
      · exact ⟨[], rfl⟩
      · exact ⟨_, Executor.replay_publish _ _⟩

/-- If nothing has changed, this is the decision of the driver. -/
theorem decideOn_state {r : Run} (hc : r.executor.cancelled = false) : r.decideOn r.executor.state = r.atBoundary := by
  have hsame : ({ r with executor := { r.executor with state := r.executor.state, cancelled := false } } : Run) = r := by
    rw [← hc]
  obtain ⟨kinds, hkinds⟩ := r.atBoundary_executor
  unfold decideOn
  rw [hsame]
  dsimp only
  rw [hkinds]
  dsimp only
  rw [← hkinds]

theorem decideOn_executor (r : Run) (seen : ExecutionState) : (r.decideOn seen).executor.state = r.executor.state ∧
    (r.decideOn seen).executor.cancelled = r.executor.cancelled ∧ (r.decideOn seen).executor.wake = r.executor.wake := by
  obtain ⟨kinds, hkinds⟩ :=
    ({ r with executor := { r.executor with state := seen, cancelled := false } } : Run).atBoundary_executor
  refine ⟨rfl, rfl, ?_⟩
  unfold decideOn
  dsimp only
  rw [hkinds]

/-- The driver decides to wait only if it has seen that the run is paused. -/
theorem seen_of_parked {r : Run} {seen : ExecutionState} (hp : r.phase = .boundary)
    (hp' : (r.decideOn seen).phase = .parked) : seen = .paused := by
  let r' : Run := { r with executor := { r.executor with state := seen, cancelled := false } }
  have hdrive : r'.drive? = some r'.atBoundary := by
    rw [drive?, show r'.phase = .boundary from hp]
  obtain ⟨kinds, hkinds⟩ := r'.atBoundary_executor
  have hpaused := (drive_parked hdrive hp').1
  rw [hkinds] at hpaused
  exact hpaused

end Run

/-! ### One access at a time -/

/-- What the driver has seen at a boundary. -/
inductive View where
  | nothing
  /-- The run is not cancelled. -/
  | uncancelled
  /-- The run is not cancelled, and the state was then read. -/
  | saw (state : ExecutionState)

/-- A run whose driver and whose callers take turns at every single access to the executor. -/
structure Interplay where
  run : Run
  view : View
  /-- The wake-ups that accepted calls are still to leave. -/
  owed : Nat

/-- A single access, or what happens without any. -/
inductive Beat where
  /-- The driver goes on. At a boundary it takes three beats: it finds out whether the run is cancelled, it reads the
  state, and it decides. -/
  | drive
  /-- The driver that waits takes a wake-up. One that was left meanwhile may stay behind. -/
  | rouse (another : Bool)
  /-- The driver that waits notices that its run is cancelled. -/
  | leave
  /-- The first half of a call. -/
  | accept (call : Control)
  /-- The second half of one of the calls whose first half is over. -/
  | notify
  | run (node : NodeId)
  | wake (node : NodeId)
  | pass (ms : Nat)
  /-- The next run begins on the same executor. -/
  | start (graph : Graph) (context : Context) (mode : StartMode) (now : Nat)

namespace Interplay

/-- A run whose driver has not looked at anything yet. -/
def fresh (r : Run) (owed : Nat) : Interplay :=
  ⟨r, .nothing, owed⟩

/-- The driver goes on, unless it waits for a wake-up. -/
def drive? (i : Interplay) : Option Interplay :=
  match i.run.phase with
  | .boundary =>
    match i.view with
    | .nothing =>
      if i.run.executor.cancelled then some { i with run := i.run.endWith .cancelled }
      else some { i with view := .uncancelled }
    | .uncancelled => some { i with view := .saw i.run.executor.state }
    | .saw seen => some { i with run := i.run.decideOn seen, view := .nothing }
  | .parked => none
  | _ => i.run.drive?.map fun r => { i with run := r }

/-- The driver stops waiting. -/
def rouse? (i : Interplay) (another : Bool) : Option Interplay :=
  match i.run.phase with
  | .parked =>
    if i.run.executor.wake then
      some { i with
        run := { i.run with executor := { i.run.executor with wake := another }, phase := .boundary } }
    else none
  | _ => none

/-- The driver stops waiting, since the run is cancelled. -/
def leave? (i : Interplay) : Option Interplay :=
  match i.run.phase with
  | .parked => if i.run.executor.cancelled then some { i with run := { i.run with phase := .boundary } } else none
  | _ => none

/-- The first half of a call. The wake-up is owed from then on; a refused call changes nothing. -/
def accept (i : Interplay) (c : Control) : Interplay :=
  match i.run.executor.accept c with
  | .ok x => { i with run := { i.run with executor := x }, owed := if c.wakes then i.owed + 1 else i.owed }
  | .error _ => i

/-- Leave a wake-up that is owed. -/
def notify? (i : Interplay) : Option Interplay :=
  match i.owed with
  | 0 => none
  | owed + 1 => some { i with run := i.run.roused, owed }

/-- What happens in a beat; none if it cannot come now. -/
def beat? (i : Interplay) : Beat → Option Interplay
  | .drive => i.drive?
  | .rouse another => i.rouse? another
  | .leave => i.leave?
  | .accept c => some (i.accept c)
  | .notify => i.notify?
  | .run node => (i.run.runNode? node).map fun r => { i with run := r }
  | .wake node => (i.run.wakeNode? node).map fun r => { i with run := r }
  | .pass ms => some { i with run := { i.run with now := i.run.now + ms } }
  | .start g context mode now =>
    (Run.start i.run.executor g context mode now).toOption.map fun r => fresh r i.owed

/-- What happens in some beats, one after the other. -/
def play (i : Interplay) : List Beat → Option Interplay
  | [] => some i
  | b :: rest => (i.beat? b).bind fun i => play i rest

theorem play_append (i : Interplay) (beats beats' : List Beat) :
    i.play (beats ++ beats') = (i.play beats).bind fun i => i.play beats' := by
  induction beats generalizing i with
  | nil => rfl
  | cons b rest ih =>
    rw [List.cons_append, play, play]
    cases i.beat? b with
    | none => rfl
    | some i₁ => exact ih i₁

theorem play_singleton {i i' : Interplay} {b : Beat} (h : i.beat? b = some i') : i.play [b] = some i' := by
  rw [play, h]
  rfl

/-! ### Whole steps -/

section Steps

variable {r r' : Run}

/-- At a boundary, the driver does in three beats what it does in one step. -/
theorem play_boundary (hp : r.phase = .boundary) (owed : Nat) :
    ∃ beats, (fresh r owed).play beats = some (fresh r.atBoundary owed) := by
  cases hc : r.executor.cancelled with
  | true =>
    have hend : r.atBoundary = r.endWith .cancelled := by rw [Run.atBoundary, if_pos hc]
    refine ⟨[.drive], play_singleton ?_⟩
    simp only [beat?, drive?, fresh, hp, hc, if_true, hend]
  | false =>
    refine ⟨[.drive, .drive, .drive], ?_⟩
    simp [play, beat?, drive?, fresh, hp, hc, Run.decideOn_state hc]

theorem play_drive (hs : r.drive? = some r') (owed : Nat) :
    ∃ beats, (fresh r owed).play beats = some (fresh r' owed) := by
  cases hp : r.phase with
  | boundary =>
    simp only [Run.drive?, hp, Option.some.injEq] at hs
    subst hs
    exact play_boundary hp owed
  | parked =>
    simp only [Run.drive?, hp, Run.whileParked?] at hs
    split_ifs at hs with hwake hc <;> cases hs
    · refine ⟨[.rouse false], play_singleton ?_⟩
      simp only [beat?, rouse?, fresh, hp, hwake, if_true]
    · refine ⟨[.leave], play_singleton ?_⟩
      simp only [beat?, leave?, fresh, hp, hc, if_true]
  | _ =>
    refine ⟨[.drive], play_singleton ?_⟩
    simp only [beat?, drive?, fresh, hp, hs, Option.map_some]

/-- A whole call is its first half, with the second half right after it. -/
theorem play_call (r : Run) (c : Control) (owed : Nat) :
    ∃ beats, (fresh r owed).play beats = some (fresh { r with executor := (r.executor.call c).2 } owed) := by
  unfold Executor.call
  rw [Executor.perform_eq_accept]
  cases ha : r.executor.accept c with
  | error e =>
    refine ⟨[.accept c], play_singleton ?_⟩
    simp only [beat?, accept, fresh, ha, Except.map]
  | ok x =>
    cases hw : c.wakes with
    | false =>
      refine ⟨[.accept c], play_singleton ?_⟩
      simp [beat?, accept, fresh, ha, hw, Except.map]
    | true =>
      refine ⟨[.accept c, .notify], ?_⟩
      simp [play, beat?, accept, notify?, fresh, ha, hw, Except.map, Run.roused]

theorem play_step {s : Run.Signal} (hs : r.step? s = some r') (owed : Nat) :
    ∃ beats, (fresh r owed).play beats = some (fresh r' owed) := by
  cases s with
  | drive => exact play_drive hs owed
  | run node =>
    refine ⟨[.run node], play_singleton ?_⟩
    rw [beat?, show (fresh r owed).run.runNode? node = some r' from hs]
    rfl
  | wake node =>
    refine ⟨[.wake node], play_singleton ?_⟩
    rw [beat?, show (fresh r owed).run.wakeNode? node = some r' from hs]
    rfl
  | control c =>
    cases hs
    exact play_call r c owed
  | pass ms =>
    cases hs
    exact ⟨[.pass ms], rfl⟩

/-- **Whatever a run does step by step, it can do one access at a time.** -/
theorem exists_play {signals : List Run.Signal} (hf : r.follow signals = some r') (owed : Nat) :
    ∃ beats, (fresh r owed).play beats = some (fresh r' owed) := by
  induction signals generalizing r with
  | nil =>
    cases hf
    exact ⟨[], rfl⟩
  | cons s rest ih =>
    obtain ⟨r₁, hs, hf⟩ := Option.bind_eq_some_iff.1 hf
    obtain ⟨first, hfirst⟩ := play_step hs owed
    obtain ⟨later, hlater⟩ := ih hf
    exact ⟨first ++ later, by rw [play_append, hfirst, Option.bind_some, hlater]⟩

end Steps

/-! ### What the driver has overlooked -/

/-- Whether there is a wake-up, or will be one. -/
def Called (i : Interplay) : Prop :=
  i.run.executor.wake = true ∨ 0 < i.owed

/-- There is a wake-up for everything that the driver has overlooked. -/
structure Attentive (i : Interplay) : Prop where
  looking : i.view ≠ .nothing → i.run.phase = .boundary
  /-- If the run is not paused, though the driver waits or is about to, there is a wake-up. -/
  paused : i.view = .saw .paused ∨ i.run.phase = .parked → i.run.executor.state = .paused ∨ i.Called
  /-- If the run is cancelled, though the driver has not noticed, there is a wake-up. -/
  cancelled : i.view ≠ .nothing ∨ i.run.phase = .parked → i.run.executor.cancelled = false ∨ i.Called

section Attentive

variable {i i' : Interplay}

/-- A driver that has seen nothing and does not wait overlooks nothing. -/
theorem Attentive.of_nothing (hview : i.view = .nothing) (hp : i.run.phase ≠ .parked) : i.Attentive where
  looking h := absurd hview h
  paused h := by
    rcases h with h | h
    · rw [hview] at h
      cases h
    · exact absurd h hp
  cancelled h := absurd hview (h.resolve_right hp)

/-- A run that has just begun. -/
theorem attentive_fresh {x : Executor} {g : Graph} {context : Context} {mode : StartMode} {now : Nat} {r : Run}
    (h : Run.start x g context mode now = .ok r) (owed : Nat) : (fresh r owed).Attentive :=
  .of_nothing rfl fun hp => by
    rw [show (fresh r owed).run.phase = .boundary from (Run.start_eq h).1] at hp
    cases hp

/-- Away from a boundary, the driver has seen nothing. -/
theorem Attentive.view_eq (h : i.Attentive) (hp : i.run.phase ≠ .boundary) : i.view = .nothing := by
  by_contra hview
  exact hp (h.looking hview)

/-- At a boundary, the driver finds out whether the run is cancelled. -/
theorem Attentive.look (h : i.Attentive) (hp : i.run.phase = .boundary) (hc : i.run.executor.cancelled = false) :
    Attentive { i with view := .uncancelled } where
  looking _ := hp
  paused hwait := by
    rcases hwait with hsaw | hp'
    · cases hsaw
    · exact h.paused (Or.inr hp')
  cancelled _ := Or.inl hc

/-- It then reads the state. -/
theorem Attentive.read (h : i.Attentive) (hp : i.run.phase = .boundary) (hview : i.view = .uncancelled) :
    Attentive { i with view := .saw i.run.executor.state } where
  looking _ := hp
  paused hwait := by
    rcases hwait with hsaw | hp'
    · exact Or.inl (View.saw.inj hsaw)
    · exact h.paused (Or.inr hp')
  cancelled _ := h.cancelled (Or.inl (by rw [hview]; simp))

/-- It decides by what it has seen; whatever has changed since then came with a wake-up. -/
theorem Attentive.decide (h : i.Attentive) (hp : i.run.phase = .boundary) {seen : ExecutionState}
    (hview : i.view = .saw seen) : Attentive { i with run := i.run.decideOn seen, view := .nothing } := by
  obtain ⟨hstate, hcancelled, hwake⟩ := i.run.decideOn_executor seen
  have hcalled : i.Called → Called { i with run := i.run.decideOn seen, view := .nothing } := Or.imp_left hwake.trans
  refine ⟨fun hnone => absurd rfl hnone, fun hwait => ?_, fun _ => ?_⟩
  · rcases hwait with hsaw | hp'
    · cases hsaw
    · obtain rfl := Run.seen_of_parked hp hp'
      exact (h.paused (Or.inl hview)).imp hstate.trans hcalled
  · exact (h.cancelled (Or.inl (by rw [hview]; simp))).imp hcancelled.trans hcalled

theorem Attentive.drive (h : i.Attentive) (hd : i.drive? = some i') : i'.Attentive := by
  unfold drive? at hd
  by_cases hp : i.run.phase = .boundary
  · simp only [hp] at hd
    cases hview : i.view with
    | nothing =>
      simp only [hview] at hd
      split_ifs at hd with hc <;> cases hd
      · exact .of_nothing rfl fun hp' => by cases hp'
      · exact h.look hp (by simpa using hc)
    | uncancelled =>
      simp only [hview] at hd
      cases hd
      exact h.read hp hview
    | saw seen =>
      simp only [hview] at hd
      cases hd
      exact h.decide hp hview
  · -- Only a look at the executor leads to a wait.
    have hmap : ∃ r, i.run.drive? = some r ∧ { i with run := r } = i' := by
      cases hphase : i.run.phase with
      | boundary => exact absurd hphase hp
      | parked => rw [hphase] at hd; cases hd
      | _ =>
        rw [hphase] at hd
        exact Option.map_eq_some_iff.1 hd
    obtain ⟨r, hr, rfl⟩ := hmap
    exact .of_nothing (h.view_eq hp) fun hp' => hp (Run.boundary_of_parked hr hp')

/-- A driver that stops waiting overlooks nothing: it is going to look again. -/
theorem Attentive.stir (h : i.Attentive) (hp : i.run.phase = .parked) {x : Executor} :
    Attentive { i with run := { i.run with executor := x, phase := .boundary } } :=
  .of_nothing (h.view_eq (by rw [hp]; simp)) (by simp)

/-- The first half of a call changes what the driver may have seen only if a wake-up is owed from then on. -/
theorem Attentive.accept (h : i.Attentive) (c : Control) : (i.accept c).Attentive := by
  unfold Interplay.accept
  cases ha : i.run.executor.accept c with
  | error e => exact h
  | ok x =>
    obtain ⟨hwake, hwakes⟩ := Executor.accept_spec ha
    rcases hwakes with hw | ⟨hpaused, hsame⟩
    · have hcalled : Called { i with
          run := { i.run with executor := x }, owed := if c.wakes then i.owed + 1 else i.owed } := by
        refine Or.inr ?_
        show 0 < if c.wakes then i.owed + 1 else i.owed
        rw [if_pos hw]
        omega
      exact ⟨h.looking, fun _ => Or.inr hcalled, fun _ => Or.inr hcalled⟩
    · refine ⟨h.looking, fun _ => Or.inl hpaused, fun hwait => ?_⟩
      refine (h.cancelled hwait).imp hsame.trans fun hcalled => ?_
      refine hcalled.imp hwake.trans fun howed => ?_
      show 0 < if c.wakes then i.owed + 1 else i.owed
      split_ifs <;> omega

/-- The second half of a call leaves the wake-up that was owed. -/
theorem Attentive.notify (h : i.Attentive) (hn : i.notify? = some i') : i'.Attentive := by
  unfold notify? at hn
  cases howed : i.owed with
  | zero =>
    rw [howed] at hn
    cases hn
  | succ owed =>
    rw [howed] at hn
    cases hn
    exact ⟨h.looking, fun _ => Or.inr (Or.inl rfl), fun _ => Or.inr (Or.inl rfl)⟩

/-- **Every beat keeps a wake-up for what the driver has overlooked.** -/
theorem Attentive.beat {b : Beat} (h : i.Attentive) (hb : i.beat? b = some i') : i'.Attentive := by
  cases b with
  | drive => exact h.drive hb
  | rouse another =>
    simp only [beat?, rouse?] at hb
    split at hb
    · rename_i hp
      split_ifs at hb
      cases hb
      exact h.stir hp
    · cases hb
  | leave =>
    simp only [beat?, leave?] at hb
    split at hb
    · rename_i hp
      split_ifs at hb
      cases hb
      exact h.stir hp
    · cases hb
  | accept c =>
    cases hb
    exact h.accept c
  | notify => exact h.notify hb
  | run node =>
    obtain ⟨r, hr, rfl⟩ := Option.map_eq_some_iff.1 hb
    obtain ⟨batch, task, batch', hp, -, rfl, -⟩ := Run.runNode_turned hr
    exact .of_nothing (h.view_eq (by rw [hp]; simp)) (by simp)
  | wake node =>
    obtain ⟨r, hr, rfl⟩ := Option.map_eq_some_iff.1 hb
    obtain ⟨batch, batch', hp, rfl, -⟩ := Run.wakeNode_turned hr
    exact .of_nothing (h.view_eq (by rw [hp]; simp)) (by simp)
  | pass ms =>
    cases hb
    exact ⟨h.looking, h.paused, h.cancelled⟩
  | start g context mode now =>
    obtain ⟨r, hr, rfl⟩ := Option.map_eq_some_iff.1 hb
    cases hstart : Run.start i.run.executor g context mode now with
    | error e =>
      rw [hstart] at hr
      cases hr
    | ok q =>
      rw [hstart] at hr
      cases hr
      exact attentive_fresh hstart i.owed

theorem Attentive.play {beats : List Beat} (h : i.Attentive) (hplay : i.play beats = some i') : i'.Attentive := by
  induction beats generalizing i with
  | nil =>
    cases hplay
    exact h
  | cons b rest ih =>
    obtain ⟨i₁, hb, hplay⟩ := Option.bind_eq_some_iff.1 hplay
    exact ih (h.beat hb) hplay

end Attentive

/-- **No accepted call is lost on a driver that waits.** Whatever calls arrive, however their accesses fall between those
of the driver, and whatever wake-ups earlier calls and earlier runs have left or are still to leave: if the driver waits
and nothing is going to wake it, then the run is paused and not cancelled. -/
theorem no_call_lost {x : Executor} {g : Graph} {context : Context} {mode : StartMode} {now : Nat} {r : Run}
    (h : Run.start x g context mode now = .ok r) {owed : Nat} {beats : List Beat} {i : Interplay}
    (hplay : (fresh r owed).play beats = some i) (hp : i.run.phase = .parked) (hwake : i.run.executor.wake = false)
    (howed : i.owed = 0) : i.run.executor.state = .paused ∧ i.run.executor.cancelled = false := by
  have hattentive := (attentive_fresh h owed).play hplay
  have hcalled : ¬ i.Called := by
    rintro (hw | ho)
    · rw [hwake] at hw
      cases hw
    · omega
  exact ⟨(hattentive.paused (Or.inr hp)).resolve_right hcalled, (hattentive.cancelled (Or.inr hp)).resolve_right hcalled⟩

/-- An executor with a wake-up that is left over. -/
def staleExecutor : Executor :=
  (Executor.create .standard).notify

/-- A run on it, paused at its start. -/
def staleStart : Run :=
  (Run.start staleExecutor Graph.signalPair default .step 0).toOption.getD Run.signalStart

/-- The run is resumed and paused again just when the driver has read the state. It waits, is woken by what is left over,
and waits again until the wake-up of the call comes. -/
def stalePath : List Beat :=
  [.drive, .drive, .accept .resume, .drive, .accept .pause, .rouse false, .drive, .drive, .drive, .notify, .rouse false,
    .drive, .drive, .drive]

/-- The run when it waits for the third time. -/
def staleEnd : Interplay :=
  ((fresh staleStart 0).play stalePath).getD (fresh staleStart 0)

/-- The driver waits for a run that is paused. -/
theorem no_call_lost_stale : staleEnd.run.executor.wake = false ∧ staleEnd.owed = 0 ∧
    staleEnd.run.executor.state = .paused ∧ staleEnd.run.executor.cancelled = false := by
  have hstart : Run.start staleExecutor Graph.signalPair default .step 0 = .ok staleStart := rfl
  have hplay : (fresh staleStart 0).play stalePath = some staleEnd := rfl
  have hwake : staleEnd.run.executor.wake = false := rfl
  have howed : staleEnd.owed = 0 := rfl
  exact ⟨hwake, howed, no_call_lost hstart hplay rfl hwake howed⟩

end Interplay

end Dataflow
