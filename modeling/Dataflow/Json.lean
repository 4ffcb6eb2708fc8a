import Dataflow.Binary64

/-!
# JSON trees

* `Json` is the tree of a JSON text, with the members of an object in the order of the text;
* `Fault` says why a text is not JSON, or not JSON of the wanted shape;
* `Json.isReadable` holds when every part of a tree denotes something.
-/

namespace Dataflow

/-- Why a text is not JSON of the wanted shape. -/
inductive Fault where
  /-- The text ends too early. -/
  | endOfText
  /-- Something else should stand here. -/
  | expected (what : String)
  /-- Something follows the value. -/
  | trailingText
  /-- A control character stands inside a string. -/
  | controlCharacter
  /-- A backslash is followed by something that is no escape. -/
  | badEscape
  /-- An escape stands for one half of a surrogate pair. -/
  | loneSurrogate
  /-- A number is too large for a double. -/
  | numberOutOfRange
  /-- Containers are nested too deeply. -/
  | tooDeep
  /-- A field that is needed is not there. -/
  | missingField (name : String)
  /-- A field occurs twice. -/
  | duplicateField (name : String)
  /-- No case of a choice has this name. -/
  | unknownCase (name : String)
  deriving DecidableEq, Repr, Inhabited

/-- The wording of a fault. -/
def Fault.message : Fault → String
  | endOfText => "the text ends too early"
  | expected what => "expected " ++ what
  | trailingText => "trailing characters"
  | controlCharacter => "control character inside a string"
  | badEscape => "invalid escape"
  | loneSurrogate => "lone surrogate in an escape"
  | numberOutOfRange => "number out of range"
  | tooDeep => "containers nested too deeply"
  | missingField name => "missing field " ++ name
  | duplicateField name => "duplicate field " ++ name
  | unknownCase name => "unknown case " ++ name

/-- The tree of a JSON text. Integers without fraction and exponent are kept apart from other numbers as
long as they fit 64 bits, signed or not. -/
inductive Json where
  | null
  | boolean (value : Bool)
  | integer (value : Int)
  | number (value : Binary64)
  | string (text : String)
  | array (items : List Json)
  | object (members : List (String × Json))
  /-- A part of the text that is grammatical but denotes nothing; it may only be passed over. -/
  | unreadable (fault : Fault)
  deriving Repr, Inhabited

namespace Json

/-- The text of a string. -/
def asString? : Json → Option String
  | string text => some text
  | _ => none

/-- The value of an integer. -/
def asInteger? : Json → Option Int
  | integer value => some value
  | _ => none

/-- The value of a boolean. -/
def asBoolean? : Json → Option Bool
  | boolean value => some value
  | _ => none

/-- The items of an array. -/
def asArray? : Json → Option (List Json)
  | array items => some items
  | _ => none

/-- The first member of an object with a name. -/
def member? (j : Json) (name : String) : Option Json :=
  match j with
  | object members => members.lookup name
  | _ => none

mutual
/-- Whether every part of the tree denotes something. -/
def isReadable : Json → Bool
  | array items => areReadable items
  | object members => membersReadable members
  | unreadable _ => false
  | _ => true
termination_by structural j => j

/-- `isReadable` for every tree of a list. -/
def areReadable : List Json → Bool
  | [] => true
  | j :: js => isReadable j && areReadable js
termination_by structural js => js

/-- `isReadable` for the tree of every member. -/
def membersReadable : List (String × Json) → Bool
  | [] => true
  | (_, j) :: js => isReadable j && membersReadable js
termination_by structural js => js
end

end Json

end Dataflow
