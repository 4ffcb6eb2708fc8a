/-!
# Data types

The types that ports declare, their names, and which types may flow into which.

* `DataType` lists the seven types;
* `DataType.flowsInto` is the compatibility relation; `null` is a wildcard on either side.
-/

namespace Dataflow

/-- The declared type of a port. -/
inductive DataType where
  | string
  | number
  | integer
  | boolean
  | array
  | object
  | null
  deriving DecidableEq, Repr, Inhabited

namespace DataType

/-- Every data type. -/
def all : List DataType :=
  [string, number, integer, boolean, array, object, null]

/-- The name of a data type. -/
def name : DataType → String
  | string => "string"
  | number => "number"
  | integer => "integer"
  | boolean => "boolean"
  | array => "array"
  | object => "object"
  | null => "null"

/-- The data type with a name. -/
def ofName? (name : String) : Option DataType :=
  all.find? (·.name = name)

/-- Arrays and objects have elements. -/
def isContainer : DataType → Bool
  | array | object => true
  | _ => false

/-- Strings, numbers, integers and booleans. -/
def isScalar : DataType → Bool
  | string | number | integer | boolean => true
  | _ => false

/-- Whether values of one type may flow into a port of another. Texts flow into everything and
everything flows into texts; scalars flow into each other; `null` goes with every type. -/
def flowsInto (source target : DataType) : Bool :=
  match source, target with
  | null, _ | _, null => true
  | string, _ | _, string => true
  | array, array | object, object => true
  | _, _ => source.isScalar && target.isScalar

theorem mem_all (t : DataType) : t ∈ all := by
  cases t <;> decide

@[simp] theorem flowsInto_self (t : DataType) : t.flowsInto t = true := by
  cases t <;> rfl

@[simp] theorem flowsInto_null (t : DataType) : t.flowsInto null = true := by
  cases t <;> rfl

@[simp] theorem null_flowsInto (t : DataType) : flowsInto null t = true := rfl

end DataType

end Dataflow
