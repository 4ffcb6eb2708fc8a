/-!
# Decimal digits

* `decimal` writes a natural number, `signed` an integer;
* `readDigits` reads a run of digits;
* `natural?` and `integer?` read a whole text as a number: digits after an optional sign, where a
  natural number may not have a minus.
-/

namespace Dataflow.Text

/-- The digits of a natural number. -/
def decimal (n : Nat) : List Char :=
  Nat.toDigits 10 n

/-- The digits of an integer, after a minus if it is negative. -/
def signed : Int → List Char
  | .ofNat n => decimal n
  | .negSucc n => '-' :: decimal (n + 1)

/-- Whether a character is one of the ten ASCII digits. -/
def isDigit (c : Char) : Bool :=
  '0' ≤ c && c ≤ '9'

/-- The number a digit stands for. -/
def digitValue (c : Char) : Nat :=
  c.toNat - '0'.toNat

/-- The number that a run of digits stands for, read after the digits of `start`. -/
def digitsValueFrom (start : Nat) (digits : List Char) : Nat :=
  digits.foldl (fun n c => 10 * n + digitValue c) start

/-- The number that a run of digits stands for. -/
def digitsValue (digits : List Char) : Nat :=
  digitsValueFrom 0 digits

/-- Split a text after the digits that it starts with. -/
def readDigits (text : List Char) : List Char × List Char :=
  (text.takeWhile isDigit, text.dropWhile isDigit)

/-- Take off a sign; `true` stands for a minus. -/
def readSign : List Char → Bool × List Char
  | '+' :: rest => (false, rest)
  | '-' :: rest => (true, rest)
  | text => (false, text)

/-- Read digits only. -/
def digits? (text : List Char) : Option Nat :=
  if text.isEmpty || !text.all isDigit then none else some (digitsValue text)

/-- Read a natural number: digits, after a plus or nothing. -/
def natural? : List Char → Option Nat
  | '+' :: rest => digits? rest
  | text => digits? text

/-- Read an integer: digits, after a plus, a minus or nothing. -/
def integer? (text : List Char) : Option Int :=
  let (negative, rest) := readSign text
  (digits? rest).map fun n => if negative then -(n : Int) else n

end Dataflow.Text
