import Dataflow.Id
import Dataflow.Value.Conversion

/-!
# Ports

A port is a typed cell that holds at most one value and counts its writes. An array or object port also
has an element port for every element of its value, so that elements can be wired like any other port.

* `Port` is the type of ports, with its element ports inside;
* `Port.ids` lists the identifiers of a port and of everything below it, parent first;
* `Port.find?` and `Port.replace?` look up and exchange the first port with an identifier;
* `Port.read` marks a value as consumed, `Port.clear` goes back to the state before the first write.
-/

namespace Dataflow

/-- The side of a node that a port is on. -/
inductive Direction where
  | input
  | output
  deriving DecidableEq, Repr, Inhabited

/-- What a port carries: values, control signals, or the execution trigger. -/
inductive PortKind where
  | data
  | control
  | exec
  deriving DecidableEq, Repr, Inhabited

/-- The name of a direction. -/
def Direction.name : Direction → String
  | input => "input"
  | output => "output"

/-- The name of a kind of port. -/
def PortKind.name : PortKind → String
  | data => "data"
  | control => "control"
  | exec => "exec"

/-- A port. `elements` holds the element ports under their keys, in ascending order. -/
structure Port where
  id : PortId
  name : String
  direction : Direction
  kind : PortKind
  dataType : DataType
  data : Value
  version : Nat
  lastRead : Nat
  elements : List (String × Port)
  deriving Repr, Inhabited

namespace Port

/-- A port that was never written. -/
def new (id : PortId) (name : String) (direction : Direction) (kind : PortKind) (dataType : DataType) : Port :=
  { id, name, direction, kind, dataType, data := .null, version := 0, lastRead := 0, elements := [] }

/-- A port that was never written, with a fresh identifier. -/
def make (name : String) (direction : Direction) (kind : PortKind) (dataType : DataType) (s : Supply) :
    Port × Supply :=
  let (id, s) := s.draw
  (new id name direction kind dataType, s)

/-- An execution trigger, which takes any value. -/
def makeTrigger (name : String) (direction : Direction) (s : Supply) : Port × Supply :=
  make name direction .exec .null s

/-- Whether the declared type has elements. -/
def isContainer (p : Port) : Bool :=
  p.dataType.isContainer

/-- Whether the port was written or holds a value. -/
def hasData (p : Port) : Bool :=
  0 < p.version || !p.data.isNull

/-- Whether the port was written since it was last read. -/
def hasNewData (p : Port) : Bool :=
  p.lastRead < p.version

/-- Whether values of this port may flow into another one. -/
def canConnect (p target : Port) : Bool :=
  p.dataType.flowsInto target.dataType

/-- The value, with the port after it was consumed; the value stays stored. -/
def read (p : Port) : Value × Port :=
  (p.data, { p with lastRead := p.version })

mutual
/-- The identifiers of a port and of everything below it, parent first. -/
def ids : Port → List PortId
  | ⟨id, _, _, _, _, _, _, _, elements⟩ => id :: idsAll elements
termination_by structural p => p

/-- The identifiers of all element ports and of everything below them. -/
def idsAll : List (String × Port) → List PortId
  | [] => []
  | (_, p) :: rest => ids p ++ idsAll rest
termination_by structural ps => ps
end

mutual
/-- A port and everything below it, parent first. -/
def flatten : Port → List Port
  | ⟨id, name, direction, kind, dataType, data, version, lastRead, elements⟩ =>
    ⟨id, name, direction, kind, dataType, data, version, lastRead, elements⟩ :: flattenAll elements
termination_by structural p => p

/-- All element ports and everything below them. -/
def flattenAll : List (String × Port) → List Port
  | [] => []
  | (_, p) :: rest => flatten p ++ flattenAll rest
termination_by structural ps => ps
end

/-- The first port with an identifier: this one or one below it. -/
def find? (target : PortId) (p : Port) : Option Port :=
  p.flatten.find? (·.id = target)

/-- Whether a port with this identifier is here or below. -/
def hasId (target : PortId) (p : Port) : Bool :=
  p.ids.contains target

mutual
/-- Exchange the first port with an identifier: this one or one below it. -/
def replace? (target : PortId) (new : Port) : Port → Option Port
  | ⟨id, name, direction, kind, dataType, data, version, lastRead, elements⟩ =>
    if id = target then some new
    else (replaceIn? target new elements).map fun elements =>
      ⟨id, name, direction, kind, dataType, data, version, lastRead, elements⟩
termination_by structural p => p

/-- Exchange the first port with an identifier among element ports and those below them. -/
def replaceIn? (target : PortId) (new : Port) : List (String × Port) → Option (List (String × Port))
  | [] => none
  | (key, p) :: rest =>
    match replace? target new p with
    | some p => some ((key, p) :: rest)
    | none => (replaceIn? target new rest).map ((key, p) :: ·)
termination_by structural ps => ps
end

mutual
/-- Go back to the state before the first write. Element ports are reset too and stay where they are. -/
def clear : Port → Port
  | ⟨id, name, direction, kind, dataType, _, _, _, elements⟩ =>
    ⟨id, name, direction, kind, dataType, .null, 0, 0, clearAll elements⟩
termination_by structural p => p

/-- Reset all element ports. -/
def clearAll : List (String × Port) → List (String × Port)
  | [] => []
  | (key, p) :: rest => (key, clear p) :: clearAll rest
termination_by structural ps => ps
end

/-- The port at a path of element keys. -/
def atPath? : List String → Port → Option Port
  | [], p => some p
  | key :: path, p => (Keyed.find? key p.elements).bind (atPath? path)

end Port

end Dataflow
