/-!
# The state of an executor

An executor is idle, or it runs a graph, has paused, or runs a single iteration.

* `ExecutionState.apply` is the table of allowed transitions;
* `TransitionError` is a transition that the table does not allow.
-/

namespace Dataflow

/-- The state of an executor. -/
inductive ExecutionState where
  | idle
  | running
  | paused
  | stepping
  deriving DecidableEq, Repr, Inhabited

/-- How a run starts: at full speed, or paused before its first iteration. -/
inductive StartMode where
  | continuous
  | step
  deriving DecidableEq, Repr, Inhabited

/-- What may happen to the state of an executor. -/
inductive Transition where
  | start (mode : StartMode)
  | pause
  | resume
  | step
  | stepComplete
  | cancel
  | complete
  | fail
  deriving DecidableEq, Repr, Inhabited

/-- The name of a state. -/
def ExecutionState.name : ExecutionState → String
  | idle => "idle"
  | running => "running"
  | paused => "paused"
  | stepping => "stepping"

/-- What a transition does, in words. -/
def Transition.describe : Transition → String
  | start .continuous => "start"
  | start .step => "start in step mode"
  | pause => "pause"
  | resume => "resume"
  | step => "step"
  | stepComplete => "complete a step"
  | cancel => "cancel"
  | complete => "complete"
  | fail => "fail"

/-- A transition that is not allowed from a state. -/
structure TransitionError where
  state : ExecutionState
  transition : Transition
  deriving DecidableEq, Repr

/-- The wording of a refused transition. -/
def TransitionError.message (e : TransitionError) : String :=
  "cannot " ++ e.transition.describe ++ " while " ++ e.state.name

namespace ExecutionState

/-- Whether a run is under way. -/
def isActive (s : ExecutionState) : Bool :=
  s != idle

/-- The state after a transition, if the transition is allowed. -/
def next? (s : ExecutionState) (t : Transition) : Option ExecutionState :=
  match s, t with
  | idle, .start .continuous => some running
  | idle, .start .step => some paused
  | running, .pause => some paused
  | paused, .resume => some running
  | paused, .step => some stepping
  | stepping, .stepComplete => some paused
  | s, .cancel | s, .complete | s, .fail => if s.isActive then some idle else none
  | _, _ => none

/-- The state after a transition, or the refusal. -/
def apply (s : ExecutionState) (t : Transition) : Except TransitionError ExecutionState :=
  match s.next? t with
  | some next => .ok next
  | none => .error ⟨s, t⟩

end ExecutionState

/-- The calls by which a host steers a run. -/
inductive Control where
  | pause
  | resume
  | step
  | cancel
  deriving DecidableEq, Repr, Inhabited

/-- The name of a call. -/
def Control.name : Control → String
  | pause => "pause"
  | resume => "resume"
  | step => "step"
  | cancel => "cancel"

/-- The call with a name. -/
def Control.ofName? (name : String) : Option Control :=
  [pause, resume, step, cancel].find? (·.name = name)

/-- The transition that a call asks for. -/
def Control.transition : Control → Transition
  | pause => .pause
  | resume => .resume
  | step => .step
  | cancel => .cancel

end Dataflow
