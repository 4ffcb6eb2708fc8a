import Dataflow.Proofs.Run.Events

/-!
# How scripts end

A script may make calls to the executor, and go on differently after different answers. What it comes to in the end is
its result and what its node remembers then.

* `Script.Ends` lists all endings of a script, over all answers to its calls;
* `Script.Determined` says that a script has one ending only, which is `Script.halt` and `Script.memory`, and
  `Behavior.Determined` says so of all activations;
* `Script.Silent` says that a script makes no calls, so that it has one ending only; `Script.Tame` is what is asked of
  the scripts of a run;
* `Run.perform_determined`: a script with one ending is carried to it, however often it is interrupted by waits.
-/

namespace Dataflow

/-- How an activation comes to its end. -/
inductive Halt where
  | finished (result : Except NodeError Output)
  | panicked (message : String)

namespace Script

/-- How a script comes to its end, if all its calls are accepted while the executor is running. -/
def halt : Script → Halt
  | finish result => .finished result
  | panic message => .panicked message
  | emit _ rest | log _ rest | remember _ rest | sleep _ _ rest => rest.halt
  | control _ rest => (rest (.ok ()) .running).halt

/-- What is remembered at the end of a script, if all its calls are accepted while the executor is running. -/
def memory (m : Memory) : Script → Memory
  | finish _ | panic _ => m
  | emit _ rest | log _ rest | sleep _ _ rest => rest.memory m
  | remember m rest => rest.memory m
  | control _ rest => (rest (.ok ()) .running).memory m

/-- The endings of a script, over all answers to its calls. -/
inductive Ends : Memory → Script → Halt → Memory → Prop
  | finish {m : Memory} {result : Except NodeError Output} : Ends m (finish result) (.finished result) m
  | panic {m : Memory} {message : String} : Ends m (panic message) (.panicked message) m
  | emit {m m' : Memory} {event : NodeEvent} {rest : Script} {h : Halt} (hrest : Ends m rest h m') :
      Ends m (emit event rest) h m'
  | control {m m' : Memory} {c : Control} {rest : Except TransitionError Unit → ExecutionState → Script} {h : Halt}
      (answer : Except TransitionError Unit) (s : ExecutionState) (hrest : Ends m (rest answer s) h m') :
      Ends m (control c rest) h m'
  | log {m m' : Memory} {entry : Value} {rest : Script} {h : Halt} (hrest : Ends m rest h m') :
      Ends m (log entry rest) h m'
  | remember {m m₁ m' : Memory} {rest : Script} {h : Halt} (hrest : Ends m₁ rest h m') :
      Ends m (remember m₁ rest) h m'
  | sleep {m m' : Memory} {ms : Nat} {heedsCancel : Bool} {rest : Script} {h : Halt} (hrest : Ends m rest h m') :
      Ends m (sleep ms heedsCancel rest) h m'

/-- A script has one ending, whatever its calls are answered. -/
def Determined (m : Memory) (script : Script) : Prop :=
  ∀ h m', Ends m script h m' → h = script.halt ∧ m' = script.memory m

/-- Every script has an ending. -/
theorem ends_halt (m : Memory) (script : Script) : Ends m script script.halt (script.memory m) := by
  induction script generalizing m with
  | finish => exact .finish
  | panic => exact .panic
  | emit event rest ih => exact .emit (ih m)
  | control c rest ih => exact .control (.ok ()) .running (ih (.ok ()) .running m)
  | log entry rest ih => exact .log (ih m)
  | remember m₁ rest ih => exact .remember (ih m₁)
  | sleep ms heedsCancel rest ih => exact .sleep (ih m)

section Determined

variable {m : Memory} {rest : Script}

theorem Determined.emit {event : NodeEvent} (hd : Determined m (.emit event rest)) : Determined m rest :=
  fun h m' he => hd h m' (.emit he)

theorem Determined.log {entry : Value} (hd : Determined m (.log entry rest)) : Determined m rest :=
  fun h m' he => hd h m' (.log he)

theorem Determined.remember {m₁ : Memory} (hd : Determined m (.remember m₁ rest)) : Determined m₁ rest :=
  fun h m' he => hd h m' (.remember he)

theorem Determined.sleep {ms : Nat} {heedsCancel : Bool} (hd : Determined m (.sleep ms heedsCancel rest)) :
    Determined m rest :=
  fun h m' he => hd h m' (.sleep he)

/-- Whatever a call is answered, the rest has the ending of the whole. -/
theorem Determined.control {c : Control} {rest : Except TransitionError Unit → ExecutionState → Script}
    (hd : Determined m (.control c rest)) (answer : Except TransitionError Unit) (s : ExecutionState) :
    Determined m (rest answer s) ∧ (rest answer s).halt = (Script.control c rest).halt ∧
      (rest answer s).memory m = (Script.control c rest).memory m := by
  have hends := hd _ _ (.control answer s (ends_halt m (rest answer s)))
  refine ⟨fun h m' he => ?_, hends⟩
  rw [hends.1, hends.2]
  exact hd h m' (.control answer s he)

end Determined

/-- A script that makes no calls. -/
inductive Silent : Script → Prop
  | finish {result : Except NodeError Output} : Silent (finish result)
  | panic {message : String} : Silent (panic message)
  | emit {event : NodeEvent} {rest : Script} (hrest : Silent rest) : Silent (emit event rest)
  | log {entry : Value} {rest : Script} (hrest : Silent rest) : Silent (log entry rest)
  | remember {m : Memory} {rest : Script} (hrest : Silent rest) : Silent (remember m rest)
  | sleep {ms : Nat} {heedsCancel : Bool} {rest : Script} (hrest : Silent rest) : Silent (sleep ms heedsCancel rest)

/-- A script that makes no calls has one ending, since it gets no answers. -/
theorem Silent.determined {script : Script} (hs : Silent script) (m : Memory) : Determined m script := by
  intro h m' he
  induction he with
  | finish | panic => exact ⟨rfl, rfl⟩
  | emit _ ih => cases hs with | emit hrest => exact ih hrest
  | control => cases hs
  | log _ ih => cases hs with | log hrest => exact ih hrest
  | remember _ ih => cases hs with | remember hrest => exact ih hrest
  | sleep _ ih => cases hs with | sleep hrest => exact ih hrest

/-- A script with one ending, which moreover makes no calls if this is asked for. -/
structure Tame (silent : Bool) (m : Memory) (script : Script) : Prop where
  determined : Determined m script
  calm : silent = true → Silent script

end Script

/-- A behavior whose activations depend on nothing but what they start from: the configuration, the inputs and
controls, the iteration, and what the node remembers of its earlier activations. -/
def Behavior.Determined (b : Behavior) : Prop :=
  ∀ a m, Script.Determined m (b.activate a m)

/-- A behavior that makes no calls. -/
def Behavior.Silent (b : Behavior) : Prop :=
  ∀ a m, (b.activate a m).Silent

/-- A behavior whose activations have one ending, and moreover make no calls if this is asked for. -/
def Behavior.Tame (silent : Bool) (b : Behavior) : Prop :=
  ∀ a m, Script.Tame silent m (b.activate a m)

theorem Behavior.Determined.tame {b : Behavior} (hb : b.Determined) : b.Tame false :=
  fun a m => ⟨hb a m, fun h => by cases h⟩

theorem Behavior.Silent.tame {b : Behavior} (hb : b.Silent) : b.Tame true :=
  fun a m => ⟨(hb a m).determined m, fun _ => hb a m⟩

namespace Run

/-! ### Carrying out a script -/

/-- How far a script with an ending got: to this ending, or to a wait before it. -/
def Stop.Reaches (stop : Stop) (m : Memory) (h : Halt) (m' : Memory) : Prop :=
  match stop with
  | .finished result => h = .finished result ∧ m' = m
  | .panicked message => h = .panicked message ∧ m' = m
  | .asleep _ rest => rest.Determined m ∧ h = rest.halt ∧ m' = rest.memory m

/-- In a run that is not cancelled, a script with one ending is carried towards it, and changes nothing in the graph but
the memory of its node. -/
theorem perform_determined {node : NodeId} {script : Script} {r : Run} {n : Node} (hn : r.graph.node? node = some n)
    (hid : n.id = node) (hd : script.Determined n.memory) (hc : (perform node script r).2.executor.cancelled = false) :
    ∃ m, (perform node script r).2.graph = r.graph.setNode { n with memory := m } ∧
      (perform node script r).1.Reaches m script.halt (script.memory n.memory) := by
  have hsame : r.graph.setNode n = r.graph := by
    unfold Graph.setNode
    rw [Table.set_of_find? (by rw [hid]; exact hn)]
  induction script generalizing r n with
  | finish | panic => exact ⟨n.memory, hsame.symm, rfl, rfl⟩
  | sleep =>
    rw [perform_sleep] at hc ⊢
    rw [hc, Bool.and_false]
    exact ⟨n.memory, hsame.symm, hd.sleep, rfl, rfl⟩
  | emit event rest ih => exact ih (r := r.publish _) hn hid hd.emit hc hsame
  | log entry rest ih => exact ih (r := { r with log := _ }) hn hid hd.log hc hsame
  | control c rest ih =>
    -- The script goes on with the answer it gets, and would come to the same end with any other.
    obtain ⟨hrest, hhalt, hmemory⟩ := hd.control (r.executor.call c).1 (r.executor.call c).2.state
    rw [← hhalt, ← hmemory]
    exact ih _ _ (r := { r with executor := _ }) hn hid hrest hc hsame
  | remember m₁ rest ih =>
    -- The node remembers something else; the graph after it is as if it had remembered the last of these at once.
    have hmodify : (r.modifyNode node fun n => { n with memory := m₁ }).graph = r.graph.setNode { n with memory := m₁ } := by
      simp only [modifyNode, Graph.modifyNode, hn]
    have hnode : (r.modifyNode node fun n => { n with memory := m₁ }).graph.node? node = some { n with memory := m₁ } := by
      rw [hmodify, Graph.node?_setNode, if_pos hid]
    obtain ⟨m, hgraph, hstop⟩ := ih hnode hid hd.remember hc (by rw [hmodify]; simp [Graph.setNode])
    refine ⟨m, ?_, hstop⟩
    rw [perform, hgraph, hmodify]
    simp [Graph.setNode]

/-- What is left of a script that makes no calls makes none either. -/
theorem silent_asleep {node : NodeId} {script rest : Script} {r : Run} {ms : Nat} (hs : script.Silent)
    (h : (perform node script r).1 = .asleep ms rest) : rest.Silent := by
  induction hs generalizing r with
  | finish | panic => cases h
  | emit _ ih => exact ih h
  | log _ ih => exact ih h
  | remember _ ih => exact ih h
  | sleep hrest _ =>
    rw [perform_sleep] at h
    dsimp only at h
    split_ifs at h
    cases h
    exact hrest

end Run

end Dataflow
