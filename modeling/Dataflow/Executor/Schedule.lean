import Dataflow.Executor.Run

/-!
# Running to the end on a clock

Time stands still while anything can go on, and then passes to the next instant at which something is
due. At one instant the driver goes as far as it can, then the requests that are due are answered, then
activations go on, and then the driver looks at what they have done.

* `Request` is what a host asks of an executor at a given instant;
* `Schedule` is a run with the requests that are still to come and the answers so far;
* `Schedule.advance?` does what is next, `Schedule.runFor` goes on for a number of such steps.
-/

namespace Dataflow

/-- What a host asks of an executor. -/
inductive Request where
  | control (call : Control)
  | start (mode : StartMode)
  deriving DecidableEq, Repr

/-- The name of a request. -/
def Request.name : Request → String
  | control call => call.name
  | start .continuous => "start"
  | start .step => "start_step"

/-- The request with a name. -/
def Request.ofName? (name : String) : Option Request :=
  ([start .continuous, start .step].find? (·.name = name)).or ((Control.ofName? name).map control)

/-- The answer to a request, with the state of the executor after it. -/
structure Answer where
  request : Request
  answer : Except TransitionError Unit
  state : ExecutionState

/-- A run with requests at instants, in ascending order. -/
structure Schedule where
  run : Run
  requests : List (Nat × Request)
  answers : List Answer

namespace Schedule

/-- Let an activation go on at the current instant, or wake one up whose instant has come. -/
def activate? (s : Schedule) : Option Schedule := do
  let .activating batch := s.run.phase | none
  let signal ← match batch.runnable.head? with
    | some task => some (.run task.node)
    | none => (batch.asleep.find? (·.wakeAt ≤ s.run.now)).map fun sleeper => .wake sleeper.task.node
  let run ← s.run.step? signal
  return { s with run }

/-- A step of the driver. -/
def drive? (s : Schedule) : Option Schedule :=
  (s.run.step? .drive).map fun run => { s with run }

/-- The least of some instants. -/
def earliest? (instants : List Nat) : Option Nat :=
  instants.foldl (fun least t => some (match least with
    | some s => min s t
    | none => t)) none

/-- The instants at which a run goes on by itself. -/
def alarms (r : Run) : List Nat :=
  match r.phase with
  | .activating batch => batch.asleep.map Sleeper.wakeAt
  | .relaying relay _ _ => [relay.wakeAt]
  | .delaying wakeAt => [wakeAt]
  | _ => []

/-- Whether a run is over. -/
def isOver (r : Run) : Bool :=
  match r.phase with
  | .over _ | .broken _ => true
  | _ => false

/-- Answer a request. A start is refused while a run is under way. -/
def answer (s : Schedule) (request : Request) : Schedule :=
  match request with
  | .control call =>
    let (answer, executor) := s.run.executor.call call
    { s with run := { s.run with executor }, answers := s.answers ++ [⟨request, answer, executor.state⟩] }
  | .start mode =>
    let answer := (s.run.executor.begin mode .nil).map fun _ => ()
    { s with answers := s.answers ++ [⟨request, answer, s.run.executor.state⟩] }

/-- Answer the next request, if its instant has come. -/
def answerDue? (s : Schedule) : Option Schedule :=
  match s.requests with
  | (instant, request) :: requests =>
    if instant ≤ s.run.now then some ({ s with requests }.answer request) else none
  | [] => none

/-- Whether activations are under way, so that the driver comes last. -/
def isActivating (r : Run) : Bool :=
  match r.phase with
  | .activating _ => true
  | _ => false

/-- What can go on at the current instant. -/
def ready? (s : Schedule) : Option Schedule :=
  if isOver s.run then none
  else if isActivating s.run then s.answerDue? <|> s.activate? <|> s.drive?
  else s.drive? <|> s.answerDue?

/-- The next instant at which something is due. -/
def nextInstant? (s : Schedule) : Option Nat :=
  earliest? (alarms s.run ++ (s.requests.head?.map Prod.fst).toList)

/-- Let a number of milliseconds pass. -/
def pass (ms : Nat) (s : Schedule) : Schedule :=
  { s with run := (s.run.step? (.pass ms)).getD s.run }

/-- Do what is next: go on, or let time pass. None if the run is over, or nothing is ever due. -/
def advance? (s : Schedule) : Option Schedule :=
  s.ready? <|> (if isOver s.run then none else s.nextInstant?.map fun instant => s.pass (instant - s.run.now))

/-- Go on for at most the given number of steps. -/
def runFor : Nat → Schedule → Schedule
  | 0, s => s
  | fuel + 1, s =>
    match s.advance? with
    | none => s
    | some s => runFor fuel s

end Schedule

end Dataflow
