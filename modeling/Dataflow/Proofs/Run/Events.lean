import Dataflow.Proofs.Run.Moves

/-!
# What a run publishes

* `Run.voices` are the events of a step, and `Run.events` those of a run;
* `Run.executor_follow`: the bus of the executor gets these events, in this order, and all under the execution that the
  run was started with.

Nothing is asked of the graph here.
-/

namespace Dataflow.Run

/-- The events of a step. -/
def voices (r : Run) (s : Signal) : List EventKind :=
  Deed.voicesAll r.executor.state (r.deeds s)

/-- The events of a run, signal by signal. -/
def events (r : Run) : List Signal → List EventKind
  | [] => []
  | s :: rest => r.voices s ++ (r.step? s).elim [] fun r => r.events rest

theorem events_append {r r' : Run} {signals : List Signal} (h : r.follow signals = some r') (more : List Signal) :
    r.events (signals ++ more) = r.events signals ++ r'.events more := by
  induction signals generalizing r with
  | nil =>
    cases h
    rfl
  | cons s rest ih =>
    obtain ⟨r₁, hs, h⟩ := Option.bind_eq_some_iff.1 h
    rw [List.cons_append, events, events, hs, Option.elim_some, Option.elim_some, ih h, List.append_assoc]

theorem uncancelled_step {r r' : Run} {s : Signal} (hs : r.step? s = some r') (hc : r'.executor.cancelled = false) :
    r.executor.cancelled = false :=
  Executor.replay_cancelled (executor_step hs ▸ hc)

theorem uncancelled_follow {r r' : Run} {signals : List Signal} (hf : r.follow signals = some r')
    (hc : r'.executor.cancelled = false) : r.executor.cancelled = false := by
  induction signals generalizing r with
  | nil => cases hf; exact hc
  | cons s rest ih =>
    obtain ⟨r₁, hs, hf⟩ := Option.bind_eq_some_iff.1 hf
    exact uncancelled_step hs (ih hf)

theorem executor_follow {r r' : Run} {signals : List Signal} (h : r.follow signals = some r') :
    r'.executor.bus = r.executor.bus.publishAll r.executor.executionId (r.events signals) ∧
      r'.executor.executionId = r.executor.executionId ∧ r'.executor.config = r.executor.config := by
  induction signals generalizing r with
  | nil =>
    cases h
    exact ⟨rfl, rfl, rfl⟩
  | cons s rest ih =>
    -- All events of a run are published under the execution that it was started with.
    obtain ⟨r₁, hs, h⟩ := Option.bind_eq_some_iff.1 h
    obtain ⟨hbus, hid, hconfig⟩ := ih h
    obtain ⟨-, hbus₁, hid₁, hconfig₁⟩ := r.executor.replay_spec (r.deeds s)
    rw [executor_step hs] at hbus hid hconfig
    rw [hbus₁, hid₁] at hbus
    refine ⟨?_, hid.trans hid₁, hconfig.trans hconfig₁⟩
    rw [hbus, events, hs, Option.elim_some, EventBus.publishAll_append]
    rfl

end Dataflow.Run
