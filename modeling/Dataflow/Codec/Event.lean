import Dataflow.Codec.Settings
import Dataflow.Event

/-!
# Events as JSON

* `StampedEvent` is an event with the time at which it was published;
* `Timestamp` is such a time, in seconds and in universal time.
-/

namespace Dataflow

/-- Write an identifier. -/
def Id.toJson (id : Id) : Json := .string id.text

/-- Read an identifier. -/
def Id.ofJson (j : Json) : Except Fault Id := do
  let text ← Codec.string j
  match Id.read? text with
  | some id => return id
  | none => throw (.expected "an identifier")

/-- Write something that may be missing. -/
def Json.ofOption {α : Type} (encode : α → Json) : Option α → Json
  | some a => encode a
  | none => .null

/-- Write the ending of a run. -/
def Outcome.toJson : Outcome → Json
  | completed => .object [("status", .string "completed")]
  | cancelled => .object [("status", .string "cancelled")]
  | failed error => .object [("status", .string "failed"), ("error", .string error)]

/-- Read the ending of a run. -/
def Outcome.ofJson (j : Json) : Except Fault Outcome := do
  match ← Codec.tagged "status" j with
  | ("completed", _) => return completed
  | ("cancelled", _) => return cancelled
  | ("failed", rest) =>
    let r ← Record.read ["error"] rest
    return failed (← r.required "error" Codec.string)
  | (name, _) => throw (.unknownCase name)

/-- Write the report of a run. -/
def ExecutionResult.toJson (r : ExecutionResult) : Json :=
  .object
    [("execution_id", r.executionId.toJson), ("outcome", r.outcome.toJson), ("iterations", .integer r.iterations),
     ("duration_ms", .integer r.duration)]

/-- Read the report of a run. -/
def ExecutionResult.ofJson (j : Json) : Except Fault ExecutionResult := do
  let r ← Record.read ["execution_id", "outcome", "iterations", "duration_ms"] j
  return {
    executionId := ← r.required "execution_id" Id.ofJson
    outcome := ← r.required "outcome" Outcome.ofJson
    iterations := ← r.required "iterations" Codec.natural
    duration := ← r.required "duration_ms" Codec.natural }

/-- Write a transfer. -/
def Transfer.toJson (t : Transfer) : Json :=
  .object [("from_port", t.source.toJson), ("to_port", t.target.toJson), ("value", t.value.toJson)]

/-- Read a transfer. -/
def Transfer.ofJson (j : Json) : Except Fault Transfer := do
  let r ← Record.read ["from_port", "to_port", "value"] j
  return {
    source := ← r.required "from_port" Id.ofJson
    target := ← r.required "to_port" Id.ofJson
    value := ← r.required "value" Value.ofJson }

/-- Write a message of a node. -/
def NodeEvent.toJson : NodeEvent → Json
  | info message => .object [("event_type", .string "Info"), ("message", .string message)]
  | warning message => .object [("event_type", .string "Warning"), ("message", .string message)]
  | progress percent message =>
    .object
      [("event_type", .string "Progress"), ("percent", .number percent), ("message", Json.ofOption .string message)]

/-- Read a message of a node. -/
def NodeEvent.ofJson (j : Json) : Except Fault NodeEvent := do
  match ← Codec.tagged "event_type" j with
  | ("Info", rest) =>
    let r ← Record.read ["message"] rest
    return info (← r.required "message" Codec.string)
  | ("Warning", rest) =>
    let r ← Record.read ["message"] rest
    return warning (← r.required "message" Codec.string)
  | ("Progress", rest) =>
    let r ← Record.read ["percent", "message"] rest
    return progress (← r.required "percent" Codec.double) (← r.optional "message" Codec.string)
  | (name, _) => throw (.unknownCase name)

/-- A time in seconds and in universal time, by its digits. -/
structure Timestamp where
  text : String
  deriving DecidableEq, Repr, Inhabited

namespace Timestamp

/-- The form of a time: `0` stands for any digit. -/
def form : List Char := "0000-00-00T00:00:00Z".toList

/-- Whether a text has the form of a time. -/
def hasForm (text : List Char) : Bool :=
  text.length = form.length &&
    (text.zip form).all fun (c, f) => if f = '0' then Text.isDigit c else c = f

/-- The number in some places of a text. -/
def numberAt (text : List Char) (start length : Nat) : Nat :=
  Text.digitsValue ((text.drop start).take length)

/-- The number of days of a month. -/
def daysIn (year month : Nat) : Nat :=
  if month = 2 then
    if year % 4 = 0 ∧ (year % 100 ≠ 0 ∨ year % 400 = 0) then 29 else 28
  else if month = 4 ∨ month = 6 ∨ month = 9 ∨ month = 11 then 30
  else 31

/-- Whether a text of the right form is a time of the calendar. -/
def inCalendar (text : List Char) : Bool :=
  let month := numberAt text 5 2
  let day := numberAt text 8 2
  1 ≤ month && month ≤ 12 && 1 ≤ day && day ≤ daysIn (numberAt text 0 4) month &&
    numberAt text 11 2 ≤ 23 && numberAt text 14 2 ≤ 59 && numberAt text 17 2 ≤ 60

/-- Write a time. -/
def toJson (t : Timestamp) : Json := .string t.text

/-- Read a time. -/
def ofJson (j : Json) : Except Fault Timestamp := do
  let text ← Codec.string j
  if hasForm text.toList && inCalendar text.toList then return ⟨text⟩ else throw (.expected "a time")

end Timestamp

/-- An event with the time at which it was published. -/
structure StampedEvent where
  event : Event
  timestamp : Timestamp
  deriving DecidableEq, Repr, Inhabited

/-- The name of what happened, and the fields between the execution and the time. -/
def EventKind.fields : EventKind → String × List (String × Json)
  | started nodes edges => ("Started", [("node_count", .integer nodes), ("edge_count", .integer edges)])
  | stateChanged source target => ("StateChanged", [("from", source.toJson), ("to", target.toJson)])
  | iteration number => ("Iteration", [("iteration", .integer number)])
  | nodeStarted node typeId => ("NodeStarted", [("node_id", node.toJson), ("node_type", .string typeId)])
  | nodeCompleted node success error duration =>
    ("NodeCompleted",
      [("node_id", node.toJson), ("success", .boolean success), ("error", Json.ofOption .string error),
       ("duration_ms", .integer duration)])
  | dataPropagated node transfers =>
    ("DataPropagated", [("node_id", node.toJson), ("transfers", .array (transfers.map Transfer.toJson))])
  | nodeEvent node event => ("NodeEvent", [("node_id", node.toJson), ("event", event.toJson)])
  | completed result => ("Completed", [("result", result.toJson)])
  | cancelled result => ("Cancelled", [("result", result.toJson)])
  | failed error result => ("Failed", [("error", .string error), ("result", result.toJson)])

/-- Write an event with its time. -/
def StampedEvent.toJson (e : StampedEvent) : Json :=
  let (name, fields) := e.event.kind.fields
  .object
    (("type", .string name) :: ("execution_id", e.event.executionId.toJson) :: fields ++
      [("timestamp", e.timestamp.toJson)])

/-- The fields of each event besides the execution and the time. -/
def EventKind.fieldNames : List (String × List String) :=
  [("Started", ["node_count", "edge_count"]), ("StateChanged", ["from", "to"]), ("Iteration", ["iteration"]),
   ("NodeStarted", ["node_id", "node_type"]), ("NodeCompleted", ["node_id", "success", "error", "duration_ms"]),
   ("DataPropagated", ["node_id", "transfers"]), ("NodeEvent", ["node_id", "event"]), ("Completed", ["result"]),
   ("Cancelled", ["result"]), ("Failed", ["error", "result"])]

/-- Read what happened from the fields of an event with the given name. -/
def EventKind.ofRecord (name : String) (r : Record) : Except Fault EventKind := do
  match name with
  | "Started" =>
    return started (← r.required "node_count" Codec.natural) (← r.required "edge_count" Codec.natural)
  | "StateChanged" =>
    return stateChanged (← r.required "from" ExecutionState.ofJson) (← r.required "to" ExecutionState.ofJson)
  | "Iteration" => return iteration (← r.required "iteration" Codec.natural)
  | "NodeStarted" => return nodeStarted (← r.required "node_id" Id.ofJson) (← r.required "node_type" Codec.string)
  | "NodeCompleted" =>
    return nodeCompleted (← r.required "node_id" Id.ofJson) (← r.required "success" Codec.boolean)
      (← r.optional "error" Codec.string) (← r.required "duration_ms" Codec.natural)
  | "DataPropagated" =>
    return dataPropagated (← r.required "node_id" Id.ofJson)
      (← r.required "transfers" (Codec.list Transfer.ofJson))
  | "NodeEvent" => return nodeEvent (← r.required "node_id" Id.ofJson) (← r.required "event" NodeEvent.ofJson)
  | "Completed" => return completed (← r.required "result" ExecutionResult.ofJson)
  | "Cancelled" => return cancelled (← r.required "result" ExecutionResult.ofJson)
  | "Failed" =>
    return failed (← r.required "error" Codec.string) (← r.required "result" ExecutionResult.ofJson)
  | _ => throw (.unknownCase name)

/-- Read an event with its time. -/
def StampedEvent.ofJson (j : Json) : Except Fault StampedEvent := do
  let (name, rest) ← Codec.tagged "type" j
  let names := (Keyed.find? name EventKind.fieldNames).getD []
  let r ← Record.read ("execution_id" :: "timestamp" :: names) rest
  let executionId ← r.required "execution_id" Id.ofJson
  let timestamp ← r.required "timestamp" Timestamp.ofJson
  let kind ← EventKind.ofRecord name r
  return { event := { executionId, kind }, timestamp }

end Dataflow
