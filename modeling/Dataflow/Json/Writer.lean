import Dataflow.Json.Numeral

/-!
# Writing JSON

* `Json.compact` writes a tree without any blank space;
* `Json.pretty` puts every item and every member on a line of its own, two spaces further in than its
  container; an empty container stays on its line;
* `compactWith` takes the way in which numbers are written as an argument.

Strings escape the quote, the backslash and control characters below U+0020, and nothing else.
-/

namespace Dataflow.Json

open Text

/-- The hexadecimal digit of a number below sixteen, in lower case. -/
def hexDigit (n : Nat) : Char :=
  if n < 10 then Char.ofNat (48 + n) else Char.ofNat (87 + n)

/-- A character inside a string. -/
def escaped (c : Char) : List Char :=
  match c with
  | '"' => ['\\', '"']
  | '\\' => ['\\', '\\']
  | '\x08' => ['\\', 'b']
  | '\x0c' => ['\\', 'f']
  | '\n' => ['\\', 'n']
  | '\r' => ['\\', 'r']
  | '\t' => ['\\', 't']
  | _ =>
    if c.toNat < 0x20 then ['\\', 'u', '0', '0', hexDigit (c.toNat / 16), hexDigit (c.toNat % 16)]
    else [c]

/-- A string with its quotes. -/
def quoted (text : String) : List Char :=
  '"' :: text.toList.flatMap escaped ++ ['"']

mutual
/-- A tree without blank space. -/
def compactWith (numeral : Binary64 → List Char) : Json → List Char
  | null => ['n', 'u', 'l', 'l']
  | boolean true => ['t', 'r', 'u', 'e']
  | boolean false => ['f', 'a', 'l', 's', 'e']
  | integer i => signed i
  | number x => numeral x
  | string text => quoted text
  | array items => '[' :: itemsWith numeral items ++ [']']
  | object members => '{' :: membersWith numeral members ++ ['}']
  | unreadable _ => ['n', 'u', 'l', 'l']
termination_by structural j => j

/-- Trees with commas between them. -/
def itemsWith (numeral : Binary64 → List Char) : List Json → List Char
  | [] => []
  | j :: js => compactWith numeral j ++ itemsAfter numeral js
termination_by structural js => js

/-- Trees with a comma before each. -/
def itemsAfter (numeral : Binary64 → List Char) : List Json → List Char
  | [] => []
  | j :: js => ',' :: compactWith numeral j ++ itemsAfter numeral js
termination_by structural js => js

/-- Members with commas between them. -/
def membersWith (numeral : Binary64 → List Char) : List (String × Json) → List Char
  | [] => []
  | (key, j) :: js => quoted key ++ ':' :: compactWith numeral j ++ membersAfter numeral js
termination_by structural js => js

/-- Members with a comma before each. -/
def membersAfter (numeral : Binary64 → List Char) : List (String × Json) → List Char
  | [] => []
  | (key, j) :: js => ',' :: quoted key ++ ':' :: compactWith numeral j ++ membersAfter numeral js
termination_by structural js => js
end

/-- A tree without blank space. -/
def compact (j : Json) : List Char :=
  compactWith numberText j

/-- A line feed and the space before what stands `level` containers deep. -/
def newline (level : Nat) : List Char :=
  '\n' :: List.replicate (2 * level) ' '

mutual
/-- A tree over several lines, where `level` containers enclose it. -/
def prettyAt (level : Nat) : Json → List Char
  | null => ['n', 'u', 'l', 'l']
  | boolean true => ['t', 'r', 'u', 'e']
  | boolean false => ['f', 'a', 'l', 's', 'e']
  | integer i => signed i
  | number x => numberText x
  | string text => quoted text
  | array [] => ['[', ']']
  | array (j :: js) =>
    '[' :: newline (level + 1) ++ prettyAt (level + 1) j ++ prettyItems (level + 1) js ++ newline level ++ [']']
  | object [] => ['{', '}']
  | object ((key, j) :: js) =>
    '{' :: newline (level + 1) ++ quoted key ++ ':' :: ' ' :: prettyAt (level + 1) j ++
      prettyMembers (level + 1) js ++ newline level ++ ['}']
  | unreadable _ => ['n', 'u', 'l', 'l']
termination_by structural j => j

/-- Further items, each on its line. -/
def prettyItems (level : Nat) : List Json → List Char
  | [] => []
  | j :: js => ',' :: newline level ++ prettyAt level j ++ prettyItems level js
termination_by structural js => js

/-- Further members, each on its line. -/
def prettyMembers (level : Nat) : List (String × Json) → List Char
  | [] => []
  | (key, j) :: js =>
    ',' :: newline level ++ quoted key ++ ':' :: ' ' :: prettyAt level j ++ prettyMembers level js
termination_by structural js => js
end

/-- A tree over several lines. -/
def pretty (j : Json) : List Char :=
  prettyAt 0 j

end Dataflow.Json
