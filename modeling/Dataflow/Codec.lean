import Dataflow.Json.Reader
import Dataflow.Keyed

/-!
# Reading structured data from JSON

* `Record` holds the fields found in a JSON tree: in an object by name, or in an array by position;
* `Record.required`, `optional` and `defaulted` read one field;
* `Codec.choice` reads one of several names, `Codec.tagged` a case that is named by a field.

Fields that are not asked for are passed over. A field that occurs twice is refused.
-/

namespace Dataflow

/-- The fields found in a JSON tree, and whether they were found by position. -/
structure Record where
  positional : Bool
  found : List (String × Json)
  deriving Repr, Inhabited

namespace Record

/-- Keep the members with the given names, each of which may occur once. -/
def gather (names : List String) : List (String × Json) → Except Fault (List (String × Json))
  | [] => .ok []
  | (name, j) :: rest => do
    let found ← gather names rest
    if names.contains name then
      if Keyed.contains name found then throw (.duplicateField name) else return (name, j) :: found
    else return found

/-- The fields with the given names. -/
def read (names : List String) : Json → Except Fault Record
  | .object members => (gather names members).map fun found => ⟨false, found⟩
  | .array items =>
    if names.length < items.length then .error (.expected "fewer items") else .ok ⟨true, names.zip items⟩
  | .unreadable fault => .error fault
  | _ => .error (.expected "an object")

variable {α : Type}

/-- A field that has to be there. -/
def required (r : Record) (name : String) (decode : Json → Except Fault α) : Except Fault α :=
  match Keyed.find? name r.found with
  | some j => decode j
  | none => .error (.missingField name)

/-- A field that has a value of its own when it is not there. -/
def defaulted (r : Record) (name : String) (default : α) (decode : Json → Except Fault α) : Except Fault α :=
  match Keyed.find? name r.found with
  | some j => decode j
  | none => .ok default

/-- What is read from a tree that may be `null`. -/
def nullable (decode : Json → Except Fault α) : Json → Except Fault (Option α)
  | .null => .ok none
  | j => (decode j).map some

/-- A field that may be `null`, and that may be missing if fields are found by name. -/
def optional (r : Record) (name : String) (decode : Json → Except Fault α) : Except Fault (Option α) :=
  match Keyed.find? name r.found with
  | some j => nullable decode j
  | none => if r.positional then .error (.missingField name) else .ok none

end Record

namespace Codec

variable {α : Type}

/-- The fault of a tree of the wrong kind. -/
def mismatch (wanted : String) : Json → Fault
  | .unreadable fault => fault
  | _ => .expected wanted

/-- A text. -/
def string : Json → Except Fault String
  | .string s => .ok s
  | j => .error (mismatch "a string" j)

/-- A truth value. -/
def boolean : Json → Except Fault Bool
  | .boolean b => .ok b
  | j => .error (mismatch "a boolean" j)

/-- A natural number of 64 bits; a fraction is refused even if it is zero. -/
def natural (j : Json) : Except Fault Nat :=
  match j with
  | .integer i => if 0 ≤ i then .ok i.toNat else .error (.expected "a natural number")
  | _ => .error (mismatch "a natural number" j)

/-- A double, which may be written as an integer. -/
def double : Json → Except Fault Binary64
  | .number x => .ok x
  | .integer i => .ok (Binary64.ofInt i)
  | j => .error (mismatch "a number" j)

/-- A list. -/
def list (decode : Json → Except Fault α) : Json → Except Fault (List α)
  | .array items => items.mapM decode
  | j => .error (mismatch "an array" j)

/-- Named things; of several with one name the last counts. -/
def keyed (decode : Json → Except Fault α) : Json → Except Fault (Keyed α)
  | .object members => do
    let entries ← members.mapM fun member => do
      let a ← decode member.2
      return (member.1, a)
    return Keyed.ofList entries
  | j => .error (mismatch "an object" j)

/-- The name of a case without content: a text, or an object with the name and `null`. -/
def caseName : Json → Except Fault String
  | .string name => .ok name
  | .object [(name, .null)] => .ok name
  | j => .error (mismatch "the name of a case" j)

/-- One of several cases without content. -/
def choice (cases : List α) (nameOf : α → String) (j : Json) : Except Fault α := do
  let name ← caseName j
  match cases.find? (nameOf · = name) with
  | some a => return a
  | none => throw (.unknownCase name)

/-- The name of a case in the field `tag`, and the object. Everything in it has to be readable. -/
def tagged (tag : String) (j : Json) : Except Fault (String × Json) := do
  if !j.isReadable then throw .tooDeep
  match j with
  | .object members =>
    let found ← Record.gather [tag] members
    match found with
    | [(_, .string name)] => return (name, .object (members.filter fun member => member.1 ≠ tag))
    | _ => throw (.missingField tag)
  | _ => throw (mismatch "an object" j)

end Codec

end Dataflow
