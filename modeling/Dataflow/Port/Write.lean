import Dataflow.Port
import Dataflow.Text.Digits

/-!
# Writing to ports

* `Port.write` converts a value to the declared type and stores it;
* `Port.writeAt` writes to an element port and folds the result into every container above it;
* `Port.setDataType` changes the declared type and clears a value that no longer fits.

After a container has stored a value, its element ports have exactly the keys of the value. A key that
was there before keeps its port, so what is wired to it stays wired.
-/

namespace Dataflow.Port

/-- The key of the element with an index. -/
def indexKey (index : Nat) : String :=
  String.ofList (Text.decimal index)

/-- The element port under `key` for a value of the given type: the one that is there already, with its
type changed, or a fresh one. One that is no container any more loses its elements. -/
def elementFor (parent : Port) (key : String) (dataType : DataType) (s : Supply) : Port × Supply :=
  match Keyed.find? key parent.elements with
  | some p =>
    let elements := if p.dataType ≠ dataType ∧ !dataType.isContainer then [] else p.elements
    ({ p with dataType, elements }, s)
  | none => make key parent.direction parent.kind dataType s

/-- Count a write. -/
def bump (p : Port) : Port :=
  { p with version := p.version + 1 }

mutual
/-- Put a value into a port without counting a write. A container gets element ports for the elements of
the value, each of which counts a write. -/
def place : Value → Port → Supply → Port × Supply
  | .array items, p, s =>
    if p.isContainer then
      let (elements, s) := placeItems p 0 items s
      ({ p with data := .array items, elements }, s)
    else ({ p with data := .array items }, s)
  | .object fields, p, s =>
    if p.isContainer then
      let (elements, s) := placeFields p fields s
      ({ p with data := .object fields, elements }, s)
    else ({ p with data := .object fields }, s)
  | v, p, s => ({ p with data := v, elements := if p.isContainer then [] else p.elements }, s)
termination_by structural v => v

/-- Element ports for the items of an array, from an index on. -/
def placeItems (parent : Port) (index : Nat) : List Value → Supply → List (String × Port) × Supply
  | [], s => ([], s)
  | v :: vs, s =>
    let (p, s) := elementFor parent (indexKey index) v.dataType s
    let (p, s) := place v p.bump s
    let (rest, s) := placeItems parent (index + 1) vs s
    (Keyed.insert (indexKey index) p rest, s)
termination_by structural vs => vs

/-- Element ports for the fields of an object. -/
def placeFields (parent : Port) : List (String × Value) → Supply → List (String × Port) × Supply
  | [], s => ([], s)
  | (key, v) :: vs, s =>
    let (p, s) := elementFor parent key v.dataType s
    let (p, s) := place v p.bump s
    let (rest, s) := placeFields parent vs s
    (Keyed.insert key p rest, s)
termination_by structural vs => vs
end

/-- Store a value of the declared type. -/
def store (v : Value) (p : Port) (s : Supply) : Port × Supply :=
  place v p.bump s

/-- Convert a value to the declared type and store it; the result is the value as stored. The value
`null` empties the port. -/
def write (p : Port) (v : Value) (s : Supply) : Except ConversionError (Value × Port × Supply) :=
  if v.isNull then .ok (.null, { p with data := .null, version := p.version + 1, elements := [] }, s)
  else (v.convert p.dataType).map fun w => (w, store w p s)

/-- Put an item before all those of a greater or equal index. -/
def insertIndexed (entry : Nat × Value) : List (Nat × Value) → List (Nat × Value)
  | [] => [entry]
  | other :: rest =>
    if entry.1 ≤ other.1 then entry :: other :: rest else other :: insertIndexed entry rest

/-- The index that the key of one of `count` elements stands for. An index has 64 bits, unless there are
more elements than that. -/
def index? (count : Nat) (key : String) : Option Nat :=
  (Text.natural? key.toList).filter (· < max UInt64.size count)

/-- The array of the values of element ports, in the order of their indexes. A key that is no index has
no place in an array. -/
def foldedItems (elements : List (String × Port)) : List Value :=
  let entries := elements.filterMap fun (key, p) =>
    (index? elements.length key).map fun index => (index, p.data)
  (entries.foldr insertIndexed []).map Prod.snd

/-- The fields of the values of element ports. -/
def foldedFields (elements : List (String × Port)) : Keyed Value :=
  elements.map fun (key, p) => (key, p.data)

/-- Rebuild the value of a container from its element ports and count a write. -/
def fold (p : Port) : Port :=
  match p.dataType with
  | .array => { p with data := .array (foldedItems p.elements), version := p.version + 1 }
  | .object => { p with data := .object (foldedFields p.elements), version := p.version + 1 }
  | _ => p

mutual
/-- Write to the first port with an identifier, this one or one below it, and fold the result into every
container above it. None if there is no such port. -/
def writeAt (target : PortId) (v : Value) :
    Port → Supply → Option (Except ConversionError (Value × Port × Supply))
  | ⟨id, name, direction, kind, dataType, data, version, lastRead, elements⟩, s =>
    let p : Port := ⟨id, name, direction, kind, dataType, data, version, lastRead, elements⟩
    if id = target then some (p.write v s)
    else (writeIn target v elements s).map fun result =>
      result.map fun (w, elements, s) => (w, fold { p with elements }, s)
termination_by structural p => p

/-- Write to the first port with an identifier among element ports and those below them. -/
def writeIn (target : PortId) (v : Value) :
    List (String × Port) → Supply → Option (Except ConversionError (Value × List (String × Port) × Supply))
  | [], _ => none
  | (key, p) :: rest, s =>
    match writeAt target v p s with
    | some result => some (result.map fun (w, p, s) => (w, (key, p) :: rest, s))
    | none => (writeIn target v rest s).map fun result =>
      result.map fun (w, rest, s) => (w, (key, p) :: rest, s)
termination_by structural ps => ps
end

/-- Change the declared type. The value is converted, or cleared if it does not fit. -/
def setDataType (p : Port) (dataType : DataType) (s : Supply) : Port × Supply :=
  if p.dataType = dataType then (p, s)
  else
    let p := { p with dataType, elements := if dataType.isContainer then p.elements else [] }
    match p.data.convert dataType with
    | .ok v => place v p s
    | .error _ => (clear { p with elements := [] }, s)

/-- The port with saved state: its identifier, type, value and element ports. The value is converted to
the type; a value other than `null` counts as one write. -/
def restored (p : Port) (id : PortId) (dataType : DataType) (data : Value) (elements : List (String × Port)) :
    Except ConversionError Port := do
  let data ← if data.isNull then pure data else data.convert dataType
  return { p with id, dataType, data, version := if data.isNull then 0 else 1, lastRead := 0, elements }

end Dataflow.Port
