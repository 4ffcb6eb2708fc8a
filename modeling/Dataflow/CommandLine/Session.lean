import Dataflow.CommandLine.Failure
import Dataflow.CommandLine.Report
import Dataflow.Engine
import Dataflow.Text.Blank

/-!
# Runs at a terminal

A run whose events are printed as they come, and which typed lines may steer.

* `Session.start` begins a run, `Session.ready?` does what can be done at once, `Session.pass` lets time
  pass;
* `Session.enter` obeys a typed line;
* `Session.ending?` is what is left to print when the run is over, and how it failed.

Each of them returns the lines to print.
-/

namespace Dataflow

/-- A run with the place up to which its events are printed. -/
structure Session where
  schedule : Schedule
  subscription : Subscription

namespace Session

/-- The lines of the events that are not printed yet. -/
def report (s : Session) : List String × Session :=
  let (events, subscription) := s.schedule.run.executor.bus.drain s.subscription
  (events.flatMap fun event => event.kind.lines, { s with subscription })

/-- Begin a run of a graph, which is to be cancelled at an instant if one is given. -/
def start (engine : Engine) (g : Graph) (context : Context) (mode : StartMode) (timeout : Option Nat) :
    Except TransitionError (List String × Session) :=
  let (subscription, bus) := engine.executor.bus.subscribe
  (Run.start { engine.executor with bus } g context mode 0).map fun run =>
    let requests := timeout.toList.map fun instant => (instant, Request.control .cancel)
    report ⟨⟨run, requests, []⟩, subscription⟩

/-- Do what can be done at the current instant, if there is anything. -/
def ready? (s : Session) : Option (List String × Session) :=
  s.schedule.ready?.map fun schedule => report { s with schedule }

/-- The number of milliseconds until something is due, if anything ever is. -/
def wait? (s : Session) : Option Nat :=
  s.schedule.nextInstant?.map (· - s.schedule.run.now)

/-- Let a number of milliseconds pass. -/
def pass (ms : Nat) (s : Session) : Session :=
  { s with schedule := s.schedule.pass ms }

/-- Whether the run is over. -/
def isOver (s : Session) : Bool :=
  Schedule.isOver s.schedule.run

/-- What is printed when typed lines steer a run. -/
def help : String :=
  "Step mode: Enter = step, c = continue, p = pause, q = cancel"

/-- The call that a typed line asks for; white space around it does not count. -/
def command? (line : List Char) : Option Control :=
  match line with
  | [] | ['s'] => some .step
  | ['c'] => some .resume
  | ['p'] => some .pause
  | ['q'] => some .cancel
  | _ => none

/-- Obey a typed line. A refused call is printed with its reason. -/
def enter (line : String) (s : Session) : List String × Session :=
  let typed := Text.trim line.toList
  match command? typed with
  | none => (Text.lines ("unknown command: " ++ String.ofList typed), s)
  | some call =>
    let (answer, executor) := s.schedule.run.executor.call call
    let (lines, s) := report { s with schedule := { s.schedule with run := { s.schedule.run with executor } } }
    match answer with
    | .ok _ => (lines, s)
    | .error e => (lines ++ [e.message], s)

/-- The failure of a run that did not complete. -/
def failureOf : Outcome → Option Failure
  | .completed => none
  | .cancelled => some ⟨"execution cancelled", []⟩
  | .failed error => some ⟨"execution failed: " ++ error, []⟩

/-- When the run is over: its summary, the outputs of the graph, and how it failed. -/
def ending? (s : Session) : Option (List String × Option Failure) :=
  match s.schedule.run.phase with
  | .over result => some (result.summary ++ s.schedule.run.graph.outputLines, failureOf result.outcome)
  | .broken message => some ([], some ⟨message, []⟩)
  | _ => none

end Session

end Dataflow
