import Dataflow.Registry

/-!
# Node types that route values

* `relay` passes a value on within the iteration that brought it;
* `distribute` takes arrays apart and emits one element per activation;
* `merge` passes on whichever input arrived.
-/

namespace Dataflow.Standard

/-- Passes its input on within the same iteration. -/
def relayBehavior : Behavior where
  typeId := "flow.relay"
  ports := [.input "in" .null, .output "out" .null]
  activate a _ := .done (.single "out" ((NamedValues.lookup "in" a.inputs).getD .null))
  isDirectThrough := true

/-- Emit the first of the waiting elements, with the number of those that are left. -/
def emitNext : Memory → Script
  | [] => .remember [] (.done .empty)
  | item :: rest =>
    .remember rest (.done ⟨[("item", item)], [("remaining", .integer rest.length)]⟩)

/-- Appends the elements of every array it is given to those that wait, and emits one element per
activation. It stays ready until none is left. -/
def distributeBehavior : Behavior where
  typeId := "flow.distribute"
  ports := [.input "items" .array, .output "item" .null, .controlOutput "remaining" .integer]
  activate a waiting :=
    match NamedValues.lookup "items" a.inputs with
    | none => emitNext waiting
    | some (.array items) => emitNext (waiting ++ items)
    | some v => .fail (.invalidInputType "items" "array" v.dataType.name)
  hasPendingWork waiting := !waiting.isEmpty

/-- Passes on whichever input has a value, `a` before `b`. -/
def mergeBehavior : Behavior where
  typeId := "flow.merge"
  ports := [.input "a" .null, .input "b" .null, .output "value" .null]
  activate a _ :=
    let value := (NamedValues.lookup "a" a.inputs).or (NamedValues.lookup "b" a.inputs)
    .done (.single "value" (value.getD .null))
  policy := .anyConnected

/-- The type of relays. -/
def relay : NodeType where
  typeId := "flow.relay"
  create _ := .ok relayBehavior
  metadata := ⟨"Pass a value through within the same iteration", "flow"⟩

/-- The type of nodes that take arrays apart. -/
def distribute : NodeType where
  typeId := "flow.distribute"
  create _ := .ok distributeBehavior
  metadata := ⟨"Emit array elements one per iteration", "flow"⟩

/-- The type of nodes that merge two inputs. -/
def merge : NodeType where
  typeId := "flow.merge"
  create _ := .ok mergeBehavior
  metadata := ⟨"Forward whichever input has data", "flow"⟩

end Dataflow.Standard
