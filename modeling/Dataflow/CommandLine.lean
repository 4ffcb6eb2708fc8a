import Dataflow.CommandLine.Arguments
import Dataflow.CommandLine.Session
import Dataflow.Engine
import Dataflow.Standard.Example

/-!
# The commands

* `Command.begin` carries out a command as far as it goes by itself;
* `Progress` is how far that is: to its end, to a file to be written, or to a run.
-/

namespace Dataflow

/-- What a command printed, and how it failed if it did. -/
structure Report where
  lines : List String
  failure : Option Failure := none

/-- How far a command gets by itself. -/
inductive Progress where
  /-- The command is over. -/
  | done (report : Report)
  /-- A text is to be written to a file; the report holds if that succeeds. -/
  | writing (path text : String) (report : Report)
  /-- A run is under way, after some lines. -/
  | running (lines : List String) (session : Session)

namespace Command

/-- The report of a command that failed after printing some lines. -/
def failed (lines : List String) (message : String) (causes : List String) : Progress :=
  .done ⟨lines, some ⟨message, causes⟩⟩

/-- The settings of a run: from a file, unless options say otherwise. -/
def settings (files : Files) (options : RunOptions) : Except EngineError ExecutorConfig := do
  let config ← match options.config with
    | some path => Engine.readFile files (Json.decode ExecutorConfig.ofEngineJson) path
    | none => pure .standard
  return { config with
    iterationDelay := options.delay.getD config.iterationDelay
    maxRelayDepth := options.maxRelayDepth.getD config.maxRelayDepth }

/-- The text of a context: that of a file if there is one with this name, or the argument itself. -/
def contextText (files : Files) (argument : String) : Except FileError String :=
  match files argument with
  | .error .notText => .error .notText
  | .error (.other message) => .error (.other message)
  | .error _ => .ok argument
  | .ok text => .ok text

/-- The context of a run. -/
def context (files : Files) (options : RunOptions) : Except Failure Context :=
  match options.context with
  | none => .ok []
  | some argument =>
    match contextText files argument with
    | .error e => .error ⟨"reading context file " ++ argument, [e.message]⟩
    | .ok text => (Json.decode NamedValues.ofJson text).mapError fun e =>
      ⟨"context must be a JSON object", [e.message]⟩

/-- What is printed about a graph before it runs. -/
def announcement (g : Graph) : List String :=
  let flagged := if g.flagged.isEmpty then [] else ["   Incompatible edges: " ++ toString g.flagged.length]
  g.sizeLines ++ flagged ++ [""]

/-- Begin to run the graph of a file. -/
def beginRun (files : Files) (supply : Supply) (options : RunOptions) : Progress :=
  match settings files options with
  | .error e => failed [] ("loading config " ++ options.config.getD "") e.causes
  | .ok config =>
    match context files options with
    | .error failure => .done ⟨[], some failure⟩
    | .ok context =>
      let engine := Engine.create Standard.registry config
      let loading := ["Loading graph from: " ++ options.file]
      match engine.loadFile files options.file supply with
      | .error e => failed loading ("loading graph " ++ options.file) e.causes
      | .ok g =>
        let before := loading ++ announcement g ++ if options.step then [Session.help] else []
        let mode := if options.step then StartMode.step else .continuous
        match Session.start engine g context mode options.timeout with
        | .error e => failed before (EngineError.transition e).message [e.message]
        | .ok (lines, session) => .running (before ++ lines) session

/-- Look for problems of the graph of a file. -/
def validateFile (files : Files) (supply : Supply) (file : String) : Progress :=
  let validating := ["Validating graph: " ++ file]
  match (Engine.create Standard.registry .standard).loadFile files file supply with
  | .error e => failed validating ("loading graph " ++ file) e.causes
  | .ok g =>
    let lines := validating ++ g.sizeLines ++ g.problems.flatMap Text.lines
    match g.problems.length with
    | 0 => .done ⟨lines ++ ["Graph is valid"], none⟩
    | n => failed lines (toString n ++ " problem(s) found") []

/-- What is printed when the example graph has been written. -/
def exampleLines (output : String) : List String :=
  ["Created example graph: " ++ output, "", "Run it with:", "  pulse run --file " ++ output]

/-- Write the example graph. -/
def writeExample (supply : Supply) (output : String) : Progress :=
  match Standard.example? supply with
  | .error e => failed [] e.message (e.causes.drop 1)
  | .ok g => .writing output (GraphDocument.ofGraph g).prettyText ⟨exampleLines output, none⟩

/-- Carry out a command as far as it goes by itself, with identifiers from a supply. -/
def begin (files : Files) (supply : Supply) : Command → Progress
  | run options => beginRun files supply options
  | validate file => validateFile files supply file
  | nodes => .done ⟨Standard.registry.listing, none⟩
  | init output => writeExample supply output

/-- Whether typed lines steer what a command does. -/
def takesTypedLines : Command → Bool
  | run options => options.step
  | _ => false

/-- The paths that a command may read. -/
def paths : Command → List String
  | run options => options.config.toList ++ options.context.toList ++ [options.file]
  | validate file => [file]
  | nodes | init _ => []

end Command

/-- The status with which the program ends when its arguments are wrong. -/
def UsageError.status : Nat := 2

/-- The lines about wrong arguments. -/
def UsageError.lines (e : UsageError) : List String :=
  Text.lines ("error: " ++ e.message)

/-- The report of a file that cannot be written. -/
def Report.ofFileError (e : FileError) : Report :=
  ⟨[], some ⟨e.message, []⟩⟩

/-- The status with which the program ends: zero unless the command failed. -/
def Report.status (r : Report) : Nat :=
  if r.failure.isSome then 1 else 0

/-- The lines about a failure. -/
def Report.errorLines (r : Report) : List String :=
  (r.failure.map Failure.lines).getD []

end Dataflow
