import Dataflow.Text.Hidden

/-!
# Quoted text in messages

`quote` shows a text between quotes, on one line and with every character visible: the quote and the
backslash are escaped, tab, line feed, carriage return and NUL have short escapes, and any other
character that cannot be seen on its own is written by its number.
-/

namespace Dataflow.Text

/-- The hexadecimal digits of a number, in lower case. -/
def hexadecimal (n : Nat) : List Char :=
  Nat.toDigits 16 n

/-- A character inside quotes. -/
def shown (c : Char) : List Char :=
  match c with
  | '"' => ['\\', '"']
  | '\\' => ['\\', '\\']
  | '\t' => ['\\', 't']
  | '\n' => ['\\', 'n']
  | '\r' => ['\\', 'r']
  | '\x00' => ['\\', '0']
  | _ => if isHidden c then '\\' :: 'u' :: '{' :: hexadecimal c.toNat ++ ['}'] else [c]

/-- A text between quotes. -/
def quote (text : String) : String :=
  String.ofList ('"' :: text.toList.flatMap shown ++ ['"'])

end Dataflow.Text
