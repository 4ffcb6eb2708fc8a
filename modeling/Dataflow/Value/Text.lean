import Dataflow.Json.Reader
import Dataflow.Json.Writer
import Dataflow.Value

/-!
# Values as JSON

* `Value.toJson` and `Value.ofJson` relate values and JSON trees; where a key occurs twice in an object,
  the last member counts;
* `Value.text` writes a value, `Value.read` reads one;
* `Value.display` is the text shown to a reader: a string stands without quotes.
-/

namespace Dataflow.Value

mutual
/-- The tree of a value. -/
def toJson : Value → Json
  | null => .null
  | boolean b => .boolean b
  | integer i => .integer i
  | number x => .number x
  | string s => .string s
  | array items => .array (itemsToJson items)
  | object fields => .object (fieldsToJson fields)
termination_by structural v => v

/-- The trees of values. -/
def itemsToJson : List Value → List Json
  | [] => []
  | v :: vs => toJson v :: itemsToJson vs
termination_by structural vs => vs

/-- The members for fields. -/
def fieldsToJson : List (String × Value) → List (String × Json)
  | [] => []
  | (key, v) :: vs => (key, toJson v) :: fieldsToJson vs
termination_by structural vs => vs
end

mutual
/-- The value of a tree. An integer that a value cannot hold becomes a number. -/
def ofJson : Json → Except Fault Value
  | .null => .ok null
  | .boolean b => .ok (boolean b)
  | .integer i => .ok (if integerInRange i then integer i else number (Binary64.ofInt i))
  | .number x => .ok (number x)
  | .string s => .ok (string s)
  | .array items => (itemsOfJson items).map array
  | .object members => (fieldsOfJson members).map fun fields => object (Keyed.ofList fields)
  | .unreadable fault => .error fault
termination_by structural j => j

/-- The values of trees. -/
def itemsOfJson : List Json → Except Fault (List Value)
  | [] => .ok []
  | j :: js => do
    let v ← ofJson j
    let vs ← itemsOfJson js
    return v :: vs
termination_by structural js => js

/-- The values of members, in the order of the members. -/
def fieldsOfJson : List (String × Json) → Except Fault (List (String × Value))
  | [] => .ok []
  | (key, j) :: js => do
    let v ← ofJson j
    let vs ← fieldsOfJson js
    return (key, v) :: vs
termination_by structural js => js
end

/-- The compact JSON text of a value. -/
def text (v : Value) : String :=
  String.ofList v.toJson.compact

/-- The JSON text of a value over several lines. -/
def prettyText (v : Value) : String :=
  String.ofList v.toJson.pretty

/-- Read a value from JSON text. -/
def read (text : String) : Except ReadError Value :=
  Json.decode ofJson text

/-- The text shown to a reader: a string as it is, anything else as JSON. -/
def display : Value → String
  | string s => s
  | v => v.text

end Dataflow.Value
