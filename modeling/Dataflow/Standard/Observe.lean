import Dataflow.Registry

/-!
# Node types that report and wait

* `log` reports its input and passes it on;
* `delay` passes its input on after some time.
-/

namespace Dataflow.Standard

/-- Reports its input and passes it on. -/
def logBehavior : Behavior where
  typeId := "debug.log"
  ports := [.input "message" .null, .output "message" .null]
  activate a _ :=
    let message := (NamedValues.lookup "message" a.inputs).getD .null
    .emit (.info ("DEBUG: " ++ message.display)) (.done (.single "message" message))

/-- Passes its input on after a number of milliseconds. -/
def delayBehavior (ms : Nat) : Behavior where
  typeId := "time.delay"
  ports := [.input "in" .null, .output "out" .null]
  activate a _ :=
    let value := (NamedValues.lookup "in" a.inputs).getD .null
    .emit (.info ("Delaying for " ++ toString ms ++ "ms"))
      (.sleep ms true (.done (.single "out" value)))

/-- The delay of a node that has no setting for it. -/
def standardDelay : Nat := 1000

/-- The delay of a node in milliseconds. -/
def delayOf (config : Config) : Except NodeError Nat :=
  match Keyed.find? "delay_ms" config with
  | none => .ok standardDelay
  | some v =>
    match v.asNumber?.filter Binary64.isNonnegative with
    | some ms => .ok ms.toWord
    | none => .error (.configuration ("delay_ms must be a non-negative number, got " ++ v.display))

/-- The type of nodes that report their input. -/
def log : NodeType where
  typeId := "debug.log"
  create _ := .ok logBehavior
  metadata := ⟨"Logs input values for debugging", "debug"⟩

/-- The type of nodes that wait. The setting is `delay_ms`. -/
def delay : NodeType where
  typeId := "time.delay"
  create config := (delayOf config).map delayBehavior
  metadata := ⟨"Delay a value for delay_ms milliseconds", "time"⟩

end Dataflow.Standard
