import Dataflow.Registry

/-!
# Node types that compute values

* `constant` emits a value from its settings;
* `add` adds two numbers;
* `jsonParse` and `jsonStringify` turn text into values and back.
-/

namespace Dataflow.Standard

/-- Emits a value, once or in every iteration. -/
def constantBehavior (value : Value) (again : Bool) : Behavior where
  typeId := "value.constant"
  ports := [.output "value" value.dataType]
  activate _ _ := .done (.single "value" value)
  refires := again

/-- The double of a required input. -/
def operand (name : String) (inputs : NamedValues) : Except NodeError Binary64 := do
  let v ← NamedValues.require name inputs
  match v.asNumber? with
  | some x => return x
  | none => throw (.invalidInputType name "number" v.dataType.name)

/-- Adds its two inputs. -/
def addBehavior : Behavior where
  typeId := "math.add"
  ports := [.input "a" .number, .input "b" .number, .output "sum" .number]
  activate a _ := .finish do
    let x ← operand "a" a.inputs
    let y ← operand "b" a.inputs
    return .single "sum" (.number (x.add y))

/-- Reads a text as JSON. -/
def parseInput (inputs : NamedValues) : Except NodeError Output := do
  let v ← NamedValues.require "json" inputs
  let some text := v.asString? | throw (.invalidInputType "json" "string" v.dataType.name)
  match Value.read text with
  | .ok parsed => return .single "parsed" parsed
  | .error e => throw (.executionFailed ("JSON parse error: " ++ e.message))

/-- Reads its input as JSON. -/
def jsonParseBehavior : Behavior where
  typeId := "transform.json_parse"
  ports := [.input "json" .string, .output "parsed" .null]
  activate a _ := .finish (parseInput a.inputs)

/-- Writes its input as JSON. -/
def jsonStringifyBehavior (pretty : Bool) : Behavior where
  typeId := "transform.json_stringify"
  ports := [.input "value" .null, .output "json" .string]
  activate a _ :=
    let value := (NamedValues.lookup "value" a.inputs).getD .null
    .done (.single "json" (.string (if pretty then value.prettyText else value.text)))

/-- The type of constants. The settings are `value` and `repeat`. -/
def constant : NodeType where
  typeId := "value.constant"
  create config := .ok (constantBehavior (Config.getOr "value" .null config) (Config.isOn "repeat" config))
  metadata := ⟨"Emit the configured value", "value"⟩

/-- The type of nodes that add. -/
def add : NodeType where
  typeId := "math.add"
  create _ := .ok addBehavior
  metadata := ⟨"Add inputs a and b", "math"⟩

/-- The type of nodes that read JSON. -/
def jsonParse : NodeType where
  typeId := "transform.json_parse"
  create _ := .ok jsonParseBehavior
  metadata := ⟨"Parse JSON string", "transform"⟩

/-- The type of nodes that write JSON. The setting `pretty` asks for several lines. -/
def jsonStringify : NodeType where
  typeId := "transform.json_stringify"
  create config := .ok (jsonStringifyBehavior (Config.isOn "pretty" config))
  metadata := ⟨"Convert value to JSON string", "transform"⟩

end Dataflow.Standard
