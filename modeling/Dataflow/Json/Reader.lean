import Dataflow.Json.Numeral

/-!
# Reading JSON

A strict reader: no comments, no trailing commas, no leading zeros, blank space is space, tab, line feed
and carriage return only, and control characters inside strings are refused.

* `Json.readValue` reads one value from the front of a text;
* `Json.read?` reads a whole text.

Containers may be nested to a given depth. A container beyond it, a string with one half of a surrogate
pair and a number that is too large are grammatical, so they may be passed over where nothing looks at
them; they are kept as `Json.unreadable`.
-/

namespace Dataflow

/-- A fault with its place in the text, both counted from one. -/
structure ReadError where
  fault : Fault
  line : Nat
  column : Nat
  deriving DecidableEq, Repr

/-- The wording of a fault with its place. -/
def ReadError.message (e : ReadError) : String :=
  e.fault.message ++ " at line " ++ toString e.line ++ " column " ++ toString e.column

/-- The error for a fault that is noticed where `rest` is left of `text`. -/
def ReadError.locate (text : List Char) (fault : Fault) (rest : List Char) : ReadError :=
  let before := text.take (text.length - rest.length)
  { fault
    line := before.count '\n' + 1
    column := (before.reverse.takeWhile (· != '\n')).length + 1 }

namespace Json

open Text


/-- The blank characters of JSON. -/
def isSpace (c : Char) : Bool :=
  c = ' ' || c = '\t' || c = '\n' || c = '\r'

/-- Pass over blank space. -/
def skipSpace (text : List Char) : List Char :=
  text.dropWhile isSpace

/-- The fault of a text that should go on with something else. -/
def unexpected {α : Type} (what : String) (text : List Char) : Except Halt (α × List Char) :=
  .error (if text.isEmpty then .endOfText else .expected what, text)

/-- The value of a hexadecimal digit, in either case. -/
def hexDigit? (c : Char) : Option Nat :=
  if '0' ≤ c ∧ c ≤ '9' then some (c.toNat - 48)
  else if 'a' ≤ c ∧ c ≤ 'f' then some (c.toNat - 87)
  else if 'A' ≤ c ∧ c ≤ 'F' then some (c.toNat - 55)
  else none

/-- The value of four hexadecimal digits. -/
def hexUnit? (a b c d : Char) : Option Nat := do
  let a ← hexDigit? a
  let b ← hexDigit? b
  let c ← hexDigit? c
  let d ← hexDigit? d
  return ((a * 16 + b) * 16 + c) * 16 + d

/-- What the content of a string is made of. -/
inductive Piece where
  /-- A character, written plainly or by a short escape. -/
  | char (c : Char)
  /-- A 16-bit unit, written by its number. -/
  | unit (code : Nat)
  deriving DecidableEq, Repr

/-- The character of a short escape. -/
def shortEscape? (c : Char) : Option Char :=
  match c with
  | '"' => some '"'
  | '\\' => some '\\'
  | '/' => some '/'
  | 'b' => some '\x08'
  | 'f' => some '\x0c'
  | 'n' => some '\n'
  | 'r' => some '\r'
  | 't' => some '\t'
  | _ => none

/-- Put a piece in front of those read after it. -/
def Piece.push (piece : Piece) (rest : Except Halt (List Piece × List Char)) : Except Halt (List Piece × List Char) :=
  rest.map fun (pieces, left) => (piece :: pieces, left)

/-- Read the content of a string and the quote that closes it. -/
def readPieces : List Char → Except Halt (List Piece × List Char)
  | [] => .error (.endOfText, [])
  | '"' :: rest => .ok ([], rest)
  | '\\' :: 'u' :: a :: b :: c :: d :: rest =>
    match hexUnit? a b c d with
    | some code => (Piece.unit code).push (readPieces rest)
    | none => .error (.badEscape, a :: b :: c :: d :: rest)
  | '\\' :: c :: rest =>
    match shortEscape? c with
    | some e => (Piece.char e).push (readPieces rest)
    | none => .error (.badEscape, c :: rest)
  | c :: rest =>
    if c = '\\' then .error (.endOfText, rest)
    else if c.toNat < 0x20 then .error (.controlCharacter, c :: rest)
    else (Piece.char c).push (readPieces rest)

/-- Whether a unit is the first half of a surrogate pair. -/
def isHighSurrogate (code : Nat) : Bool :=
  0xd800 ≤ code && code < 0xdc00

/-- Whether a unit is the second half of a surrogate pair. -/
def isLowSurrogate (code : Nat) : Bool :=
  0xdc00 ≤ code && code < 0xe000

/-- The characters that pieces stand for; none if half of a surrogate pair stands alone. -/
def join? : List Piece → Option (List Char)
  | [] => some []
  | .char c :: rest => (join? rest).map (c :: ·)
  | .unit high :: .unit low :: rest =>
    if isHighSurrogate high then
      if isLowSurrogate low then
        (join? rest).map (Char.ofNat (0x10000 + (high - 0xd800) * 0x400 + (low - 0xdc00)) :: ·)
      else none
    else if isLowSurrogate high then none
    else (join? (.unit low :: rest)).map (Char.ofNat high :: ·)
  | .unit code :: rest =>
    if isHighSurrogate code || isLowSurrogate code then none
    else (join? rest).map (Char.ofNat code :: ·)

/-- Read a string after its opening quote; none stands for one that denotes nothing. -/
def readString (text : List Char) : Except Halt (Option String × List Char) :=
  (readPieces text).map fun (pieces, rest) => ((join? pieces).map String.ofList, rest)

/-- The tree of a string. -/
def ofString? : Option String → Json
  | some text => string text
  | none => unreadable .loneSurrogate

/-- The tree of an array, at a place where `depth` more containers may be nested. -/
def ofItems (depth : Nat) (items : List Json) : Json :=
  if depth = 0 then unreadable .tooDeep else array items

/-- The members of an object; none if a key denotes nothing. -/
abbrev Members := Option (List (String × Json))

/-- Put a member in front. -/
def pushMember (key : Option String) (value : Json) (members : Members) : Members :=
  match key, members with
  | some key, some members => some ((key, value) :: members)
  | _, _ => none

/-- The tree of an object, at a place where `depth` more containers may be nested. -/
def ofMembers (depth : Nat) (members : Members) : Json :=
  if depth = 0 then unreadable .tooDeep
  else match members with
    | some members => object members
    | none => unreadable .loneSurrogate

/-- Read a key, after the quote that opens it, and the colon that follows. -/
def readKey (text : List Char) : Except Halt (Option String × List Char) := do
  let (key, rest) ← readString text
  match skipSpace rest with
  | ':' :: rest => return (key, rest)
  | rest => unexpected "a colon" rest

mutual
/-- Read a value, at a place where `depth` more containers may be nested. -/
def readValue : (fuel depth : Nat) → List Char → Except Halt (Json × List Char)
  | 0, _, text => .error (.endOfText, text)
  | fuel + 1, depth, text =>
    match skipSpace text with
    | 'n' :: 'u' :: 'l' :: 'l' :: rest => .ok (null, rest)
    | 't' :: 'r' :: 'u' :: 'e' :: rest => .ok (boolean true, rest)
    | 'f' :: 'a' :: 'l' :: 's' :: 'e' :: rest => .ok (boolean false, rest)
    | '"' :: rest => (readString rest).map fun (text, rest) => (ofString? text, rest)
    | '[' :: rest => do
      match skipSpace rest with
      | ']' :: rest => return (ofItems depth [], rest)
      | rest =>
        let (items, rest) ← readItems fuel (depth - 1) rest
        return (ofItems depth items, rest)
    | '{' :: rest => do
      match skipSpace rest with
      | '}' :: rest => return (ofMembers depth (some []), rest)
      | rest =>
        let (members, rest) ← readMembers fuel (depth - 1) rest
        return (ofMembers depth members, rest)
    | c :: rest =>
      if c = '-' || isDigit c then
        (Numeral.read (c :: rest)).map fun (n, rest) => (n.value, rest)
      else unexpected "a value" (c :: rest)
    | [] => unexpected "a value" []

/-- Read the items of an array, of which there is at least one, and the bracket that closes it. -/
def readItems : (fuel depth : Nat) → List Char → Except Halt (List Json × List Char)
  | 0, _, text => .error (.endOfText, text)
  | fuel + 1, depth, text => do
    let (item, rest) ← readValue fuel depth text
    match skipSpace rest with
    | ',' :: rest =>
      let (items, rest) ← readItems fuel depth rest
      return (item :: items, rest)
    | ']' :: rest => return ([item], rest)
    | rest => unexpected "a comma or a closing bracket" rest

/-- Read the members of an object, of which there is at least one, and the brace that closes it. -/
def readMembers : (fuel depth : Nat) → List Char → Except Halt (Members × List Char)
  | 0, _, text => .error (.endOfText, text)
  | fuel + 1, depth, text =>
    match skipSpace text with
    | '"' :: rest => do
      let (key, rest) ← readKey rest
      let (value, rest) ← readValue fuel depth rest
      match skipSpace rest with
      | ',' :: rest =>
        let (members, rest) ← readMembers fuel depth rest
        return (pushMember key value members, rest)
      | '}' :: rest => return (pushMember key value (some []), rest)
      | rest => unexpected "a comma or a closing brace" rest
    | rest => unexpected "a key" rest
end

/-- How deeply containers may be nested. -/
def maxDepth : Nat := 127

/-- Fuel that is enough for a text: no character needs more than two calls. -/
def fuelFor (text : List Char) : Nat :=
  2 * text.length + 2

/-- Read a whole text that may nest `depth` containers. -/
def readWithin (depth : Nat) (text : List Char) : Except ReadError Json :=
  match readValue (fuelFor text) depth text with
  | .error (fault, rest) => .error (ReadError.locate text fault rest)
  | .ok (json, rest) =>
    match skipSpace rest with
    | [] => .ok json
    | rest => .error (ReadError.locate text .trailingText rest)

/-- Read a whole text. -/
def read (text : List Char) : Except ReadError Json :=
  readWithin maxDepth text

/-- Read a whole text and what it denotes; a fault of the second step has its place at the text's end. -/
def decode {α : Type} (decoder : Json → Except Fault α) (text : String) : Except ReadError α := do
  let json ← read text.toList
  (decoder json).mapError fun fault => ReadError.locate text.toList fault []

end Json

end Dataflow
