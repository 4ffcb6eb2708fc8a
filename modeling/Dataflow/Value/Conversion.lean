import Dataflow.Text.Blank
import Dataflow.Text.Quoted
import Dataflow.Value.Text

/-!
# Converting values

* `Value.convert` brings a value into a data type or says why it cannot be;
* `ConversionError` lists the reasons, `ConversionError.message` words them.

`null` is a wildcard: the value `null` fits every type, and every value fits the type `null`.
-/

namespace Dataflow

/-- Why a value cannot be brought into a data type. -/
inductive ConversionError where
  /-- The types are incompatible. -/
  | incompatible (source target : DataType)
  /-- The text cannot be read as the type, or the number is beyond its range. -/
  | parse (input : String) (target : DataType)
  /-- The text is JSON of another type. -/
  | shape (expected actual : DataType)
  /-- Infinities and `nan` are not stored. -/
  | nonFinite (number : Binary64)
  deriving DecidableEq, Repr

/-- The wording of a conversion error. -/
def ConversionError.message : ConversionError → String
  | incompatible source target => "cannot convert " ++ source.name ++ " to " ++ target.name
  | parse input target => "cannot parse " ++ Text.quote input ++ " as " ++ target.name
  | shape expected actual => "expected " ++ expected.name ++ " after parsing JSON, got " ++ actual.name
  | nonFinite x => "non-finite number " ++ String.ofList x.plain ++ " cannot be stored"

/-- The name of a reason. -/
def ConversionError.kind : ConversionError → String
  | incompatible .. => "Incompatible"
  | parse .. => "Parse"
  | shape .. => "Shape"
  | nonFinite _ => "NonFinite"

namespace Value

open Text

/-- A number that may be stored. -/
def finite (x : Binary64) : Except ConversionError Binary64 :=
  if x.isFinite then .ok x else .error (.nonFinite x)

/-- The integer part of a number, if it is within the range of integers. -/
def truncate (x : Binary64) : Except ConversionError Value :=
  match x.truncate? with
  | none => .error (.nonFinite x)
  | some i =>
    if integerInRange i then .ok (integer i)
    else .error (.parse (String.ofList (Binary64.ofInt i).plain) .integer)

/-- From here on whole numbers are written like other numbers. -/
def wholeLimit : Int := Nat.pow 10 15

/-- The text of a number: a whole number below `10 ^ 15` is written as an integer. -/
def numberToText (x : Binary64) : String :=
  match x.truncate? with
  | some i =>
    if x.isWhole && (-wholeLimit < i && i < wholeLimit) then String.ofList (signed i)
    else String.ofList x.plain
  | none => String.ofList x.plain

/-- Read a text as a number. -/
def textToNumber (s : String) : Except ConversionError Value :=
  match Binary64.numeral? (trim s.toList) with
  | some x => if x.isFinite then .ok (number x) else .error (.parse s .number)
  | none => .error (.parse s .number)

/-- Read a text as an integer; a number in other notation loses its fraction. -/
def textToInteger (s : String) : Except ConversionError Value :=
  let trimmed := trim s.toList
  match (integer? trimmed).filter integerInRange with
  | some i => .ok (integer i)
  | none =>
    match Binary64.numeral? trimmed with
    | some x => if x.isFinite then truncate x else .error (.parse s .integer)
    | none => .error (.parse s .integer)

/-- Read a text as a truth value. -/
def textToBoolean (s : String) : Except ConversionError Value :=
  let word := String.ofList (Binary64.lowered (trim s.toList))
  if word = "true" ∨ word = "1" then .ok (boolean true)
  else if word = "false" ∨ word = "0" then .ok (boolean false)
  else .error (.parse s .boolean)

/-- Read a text as an array or an object in JSON. -/
def textToContainer (s : String) (target : DataType) : Except ConversionError Value :=
  match read s with
  | .error _ => .error (.parse s target)
  | .ok v => if v.dataType = target then .ok v else .error (.shape target v.dataType)

/-- Bring a text into a type. -/
def convertText (s : String) (target : DataType) : Except ConversionError Value :=
  match target with
  | .number => textToNumber s
  | .integer => textToInteger s
  | .boolean => textToBoolean s
  | .array | .object => textToContainer s target
  | .string | .null => .ok (string s)

/-- Bring a number into a type. -/
def convertNumber (x : Binary64) (target : DataType) : Except ConversionError Value :=
  match target with
  | .number => (finite x).map number
  | .integer => truncate x
  | .boolean => .ok (boolean (!x.isZero && x != .nan))
  | .string => .ok (string (numberToText x))
  | .null => .ok (number x)
  | .array | .object => .error (.incompatible .number target)

/-- Bring an integer into a type. -/
def convertInteger (i : Int) (target : DataType) : Except ConversionError Value :=
  match target with
  | .integer | .null => .ok (integer i)
  | .number => .ok (number (Binary64.ofInt i))
  | .boolean => .ok (boolean (i != 0))
  | .string => .ok (string (String.ofList (signed i)))
  | .array | .object => .error (.incompatible .integer target)

/-- Bring a truth value into a type. -/
def convertBoolean (b : Bool) (target : DataType) : Except ConversionError Value :=
  match target with
  | .boolean | .null => .ok (boolean b)
  | .number => .ok (number (Binary64.ofInt (if b then 1 else 0)))
  | .integer => .ok (integer (if b then 1 else 0))
  | .string => .ok (string (if b then "true" else "false"))
  | .array | .object => .error (.incompatible .boolean target)

/-- Bring a container into a type: its own, or a text in JSON. -/
def convertContainer (v : Value) (target : DataType) : Except ConversionError Value :=
  if target = v.dataType ∨ target = .null then .ok v
  else if target = .string then .ok (string v.text)
  else .error (.incompatible v.dataType target)

/-- Bring a value into a data type, or say why it cannot be. -/
def convert (v : Value) (target : DataType) : Except ConversionError Value :=
  match v with
  | null => .ok null
  | string s => convertText s target
  | number x => convertNumber x target
  | integer i => convertInteger i target
  | boolean b => convertBoolean b target
  | array _ | object _ => convertContainer v target

end Value

end Dataflow
