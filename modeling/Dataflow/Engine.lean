import Dataflow.Codec.Document
import Dataflow.Executor.Schedule
import Dataflow.Registry

/-!
# Engines

An engine knows types of nodes and has an executor. It builds graphs from documents and runs them.

* `Engine.load` builds the graph of a document, `Engine.loadFile` that of a file;
* `Engine.execute` runs a graph to its end, with requests at given instants;
* `EngineError` lists what may keep an engine from doing so, and `EngineError.causes` why.
-/

namespace Dataflow

/-- Why a file cannot be read or written. -/
inductive FileError where
  | notFound
  | isDirectory
  | notDirectory
  | notText
  | other (message : String)
  deriving DecidableEq, Repr

/-- The wording of a file error. -/
def FileError.message : FileError → String
  | notFound => "No such file or directory (os error 2)"
  | isDirectory => "Is a directory (os error 21)"
  | notDirectory => "Not a directory (os error 20)"
  | notText => "stream did not contain valid UTF-8"
  | other message => message

/-- The texts of files by path. -/
abbrev Files := String → Except FileError String

/-- What keeps an engine from doing something. -/
inductive EngineError where
  | graph (source : GraphError)
  | transition (source : TransitionError)
  | file (source : FileError)
  | text (source : ReadError)

/-- The name of an error. -/
def EngineError.kind : EngineError → String
  | graph source => "Graph." ++ source.kind
  | transition _ => "StateTransition"
  | file _ => "Io"
  | text _ => "Serialization"

/-- The wording of an error. -/
def EngineError.message : EngineError → String
  | graph source => "Graph error: " ++ source.message
  | transition source => "State transition error: " ++ source.message
  | file source => "IO error: " ++ source.message
  | text source => "Serialization error: " ++ source.message

/-- A refusal and what it follows from, the nearest cause first. -/
def GraphError.causes (e : GraphError) : List String :=
  match e with
  | .write _ source => [e.message, source.message]
  | _ => [e.message]

/-- An error and what it follows from, the nearest cause first. -/
def EngineError.causes (e : EngineError) : List String :=
  e.message :: match e with
    | graph source => source.causes
    | transition source => [source.message]
    | file source => [source.message]
    | text source => [source.message]

/-- Types of nodes, and an executor. -/
structure Engine where
  registry : Registry
  executor : Executor

/-- A run that is over: how it ended, its events, the answers to the requests, and what it left. -/
structure Execution where
  result : ExecutionResult
  events : List Event
  answers : List Answer
  log : List Value
  graph : Graph
  engine : Engine

namespace Engine

/-- An engine with an idle executor. -/
def create (registry : Registry) (config : ExecutorConfig) : Engine :=
  { registry, executor := .create config }

/-- Build the graph of a document, with identifiers from a supply. -/
def load (engine : Engine) (d : GraphDocument) (supply : Supply) : Except EngineError Graph :=
  (d.restore engine.registry.construct supply).mapError .graph

/-- What the text of a file denotes. -/
def readFile {α : Type} (files : Files) (read : String → Except ReadError α) (path : String) :
    Except EngineError α := do
  let text ← (files path).mapError .file
  (read text).mapError .text

/-- Build the graph of the document in a file. -/
def loadFile (engine : Engine) (files : Files) (path : String) (supply : Supply) : Except EngineError Graph := do
  engine.load (← readFile files GraphDocument.read path) supply

/-- Run a graph to its end, within a number of steps; none if a relay broke down or the steps do not
suffice. The events are those that a subscriber still gets at the end. -/
def execute (fuel : Nat) (engine : Engine) (g : Graph) (context : Context) (mode : StartMode)
    (requests : List (Nat × Request)) : Except EngineError (Option Execution) :=
  let (subscription, bus) := engine.executor.bus.subscribe
  match Run.start { engine.executor with bus } g context mode 0 with
  | .error e => .error (.transition e)
  | .ok run =>
    let done := Schedule.runFor fuel ⟨run, requests, []⟩
    let executor := done.run.executor
    match done.run.phase with
    | .over result => .ok (some
      { result, events := (executor.bus.drain subscription).1, answers := done.answers, log := done.run.log
        graph := done.run.graph
        engine := { engine with executor := { executor with bus := executor.bus.unsubscribe } } })
    | _ => .ok none

end Engine

end Dataflow
