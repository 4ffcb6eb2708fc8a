import Dataflow.Binary64
import Dataflow.DataType
import Dataflow.Keyed

/-!
# Values

The values that ports hold and activations exchange.

* `Value` is the type of values;
* `Value.dataType` is the type that a value belongs to;
* `Value.IsOrdered` says that the fields of every object inside are in ascending order;
* `Value.AllFinite` says that no number inside is infinite or `nan`.
-/

namespace Dataflow

/-- A dynamic value. Integers are kept apart from numbers; the fields of an object are in ascending
order of their names. -/
inductive Value where
  | null
  | boolean (value : Bool)
  | integer (value : Int)
  | number (value : Binary64)
  | string (text : String)
  | array (items : List Value)
  | object (fields : List (String × Value))
  deriving Repr, Inhabited

namespace Value

/-- The type a value belongs to. -/
def dataType : Value → DataType
  | null => .null
  | boolean _ => .boolean
  | integer _ => .integer
  | number _ => .number
  | string _ => .string
  | array _ => .array
  | object _ => .object

/-- Whether a value is `null`. -/
def isNull : Value → Bool
  | null => true
  | _ => false

/-- The truth value of a boolean. -/
def asBoolean? : Value → Option Bool
  | boolean b => some b
  | _ => none

/-- The integer of an integer value. -/
def asInteger? : Value → Option Int
  | integer i => some i
  | _ => none

/-- The double of a number or of an integer, the latter rounded. -/
def asNumber? : Value → Option Binary64
  | number x => some x
  | integer i => some (Binary64.ofInt i)
  | _ => none

/-- The text of a string. -/
def asString? : Value → Option String
  | string s => some s
  | _ => none

/-- The items of an array. -/
def asArray? : Value → Option (List Value)
  | array items => some items
  | _ => none

/-- The fields of an object. -/
def asObject? : Value → Option (Keyed Value)
  | object fields => some fields
  | _ => none

/-- The least integer that a value can hold. -/
def minInteger : Int := -Nat.pow 2 63

/-- The greatest integer that a value can hold. -/
def maxInteger : Int := Nat.pow 2 63 - 1

/-- Whether an integer lies within the range that a value can hold. -/
def integerInRange (i : Int) : Bool :=
  minInteger ≤ i && i ≤ maxInteger

mutual
/-- Structural equality of values. -/
def same : Value → Value → Bool
  | null, null => true
  | boolean a, boolean b => a == b
  | integer a, integer b => a == b
  | number a, number b => a == b
  | string a, string b => a == b
  | array as, array bs => sameItems as bs
  | object as, object bs => sameFields as bs
  | _, _ => false
termination_by structural v => v

/-- Structural equality of lists of values. -/
def sameItems : List Value → List Value → Bool
  | [], [] => true
  | a :: as, b :: bs => same a b && sameItems as bs
  | _, _ => false
termination_by structural vs => vs

/-- Structural equality of lists of fields. -/
def sameFields : List (String × Value) → List (String × Value) → Bool
  | [], [] => true
  | (k, a) :: as, (l, b) :: bs => k == l && same a b && sameFields as bs
  | _, _ => false
termination_by structural vs => vs
end

mutual
theorem same_iff (v w : Value) : same v w = true ↔ v = w := by
  cases v with
  | array as => cases w <;> simp [same, sameItems_iff as]
  | object as => cases w <;> simp [same, sameFields_iff as]
  | _ => cases w <;> simp [same]
termination_by structural v

theorem sameItems_iff (vs ws : List Value) : sameItems vs ws = true ↔ vs = ws := by
  cases vs with
  | nil => cases ws <;> simp [sameItems]
  | cons v vs => cases ws <;> simp [sameItems, same_iff v, sameItems_iff vs]
termination_by structural vs

theorem sameFields_iff (vs ws : List (String × Value)) : sameFields vs ws = true ↔ vs = ws := by
  cases vs with
  | nil => cases ws <;> simp [sameFields]
  | cons entry vs =>
    obtain ⟨k, v⟩ := entry
    cases ws with
    | nil => simp [sameFields]
    | cons entry' ws =>
      obtain ⟨l, w⟩ := entry'
      simp [sameFields, same_iff v, sameFields_iff vs, and_assoc]
termination_by structural vs
end

instance : DecidableEq Value := fun v w =>
  decidable_of_iff (same v w = true) (same_iff v w)

mutual
/-- The fields of every object inside are in ascending order, and every integer is in range. -/
def IsOrdered : Value → Prop
  | integer i => integerInRange i = true
  | array items => ItemsOrdered items
  | object fields => Keyed.Ascending fields ∧ FieldsOrdered fields
  | _ => True
termination_by structural v => v

/-- `IsOrdered` for every value of a list. -/
def ItemsOrdered : List Value → Prop
  | [] => True
  | v :: vs => IsOrdered v ∧ ItemsOrdered vs
termination_by structural vs => vs

/-- `IsOrdered` for the value of every field. -/
def FieldsOrdered : List (String × Value) → Prop
  | [] => True
  | (_, v) :: vs => IsOrdered v ∧ FieldsOrdered vs
termination_by structural vs => vs
end

mutual
/-- No number inside is infinite or `nan`. -/
def AllFinite : Value → Prop
  | number x => x.isFinite = true
  | array items => ItemsFinite items
  | object fields => FieldsFinite fields
  | _ => True
termination_by structural v => v

/-- `AllFinite` for every value of a list. -/
def ItemsFinite : List Value → Prop
  | [] => True
  | v :: vs => AllFinite v ∧ ItemsFinite vs
termination_by structural vs => vs

/-- `AllFinite` for the value of every field. -/
def FieldsFinite : List (String × Value) → Prop
  | [] => True
  | (_, v) :: vs => AllFinite v ∧ FieldsFinite vs
termination_by structural vs => vs
end

end Value

end Dataflow
