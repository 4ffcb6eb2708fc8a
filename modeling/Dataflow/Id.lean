/-!
# Identifiers

Nodes, ports and executions are told apart by 128-bit identifiers.

* `Id` is the type of identifiers, `Id.text` their text: 32 hexadecimal digits in five groups;
* `Id.read?` reads that text, also without hyphens, in braces or after `urn:uuid:`;
* `Supply` hands out identifiers that were not handed out before, in ascending order.
-/

namespace Dataflow

/-- An identifier. -/
structure Id where
  value : Nat
  deriving DecidableEq, Repr, Inhabited

/-- The identifier of a node. -/
abbrev NodeId := Id

/-- The identifier of a port. -/
abbrev PortId := Id

/-- The identifier of an execution. -/
abbrev ExecutionId := Id

namespace Id

/-- The identifier of nothing. -/
def nil : Id := ⟨0⟩

/-- The number of hexadecimal digits of an identifier. -/
def width : Nat := 32

/-- The hexadecimal digit of a number below sixteen. -/
def hexDigit (n : Nat) : Char :=
  if n < 10 then Char.ofNat (48 + n) else Char.ofNat (87 + n)

/-- The last `count` hexadecimal digits of a number. -/
def hexDigits : Nat → Nat → List Char
  | 0, _ => []
  | count + 1, n => hexDigits count (n / 16) ++ [hexDigit (n % 16)]

/-- Whether a hyphen stands before the digit with this index. -/
def isGroupStart (index : Nat) : Bool :=
  index = 8 || index = 12 || index = 16 || index = 20

/-- Put a hyphen before each group but the first. -/
def grouped (digits : List Char) : List Char :=
  digits.zipIdx.flatMap fun (c, index) => if isGroupStart index then ['-', c] else [c]

/-- The text of an identifier. -/
def text (id : Id) : String :=
  String.ofList (grouped (hexDigits width id.value))

/-- The value of a hexadecimal digit, in either case. -/
def hexValue? (c : Char) : Option Nat :=
  if '0' ≤ c ∧ c ≤ '9' then some (c.toNat - 48)
  else if 'a' ≤ c ∧ c ≤ 'f' then some (c.toNat - 87)
  else if 'A' ≤ c ∧ c ≤ 'F' then some (c.toNat - 55)
  else none

/-- Read hexadecimal digits only, after those of `start`. -/
def readHex? (start : Nat) : List Char → Option Nat
  | [] => some start
  | c :: rest => (hexValue? c).bind fun digit => readHex? (start * 16 + digit) rest

/-- Read 32 digits without hyphens. -/
def readPlain? (text : List Char) : Option Id :=
  if text.length = width then (readHex? 0 text).map Id.mk else none

/-- Read 32 digits with hyphens between the groups. -/
def readGrouped? (text : List Char) : Option Id :=
  let digits := text.filter (· != '-')
  if grouped digits = text then readPlain? digits else none

/-- What may stand before the groups. -/
def scheme : List Char :=
  ['u', 'r', 'n', ':', 'u', 'u', 'i', 'd', ':']

/-- Read an identifier: its digits in groups or in one run, or groups in braces or after a scheme. -/
def read? (text : String) : Option Id :=
  let cs := text.toList
  if cs.length = width then readPlain? cs
  else if (cs.take scheme.length).map Char.toLower = scheme then readGrouped? (cs.drop scheme.length)
  else match cs with
    | '{' :: rest => if rest.getLast? = some '}' then readGrouped? rest.dropLast else none
    | _ => readGrouped? cs

end Id

/-- A supply of identifiers: all of them from `next` on are still to be handed out. -/
structure Supply where
  next : Nat
  deriving DecidableEq, Repr, Inhabited

/-- Take an identifier. -/
def Supply.draw (s : Supply) : Id × Supply :=
  (⟨s.next⟩, ⟨s.next + 1⟩)

/-- Whether an identifier was handed out already, or lies below everything that ever will be. -/
def Supply.Used (s : Supply) (id : Id) : Prop :=
  id.value < s.next

end Dataflow
