import Dataflow.Binary64.Numeral
import Dataflow.Json

/-!
# Numbers in JSON

* `Numeral` is the text of a number in its parts, `Numeral.read?` reads one;
* `Numeral.value` is the tree that it denotes;
* `numberText` writes a double.

An integer that fits 64 bits is read exactly. Of any other number, as many leading digits as fit 64
bits are rounded to a double first, which is then scaled by a power of ten; each of the steps rounds,
so that the last bit may differ from the double nearest to the text.
-/

namespace Dataflow.Json

open Text

/-- Where reading stops for good: a fault and the text where it was noticed. -/
abbrev Halt := Fault × List Char

/-- The parts of a number in a text. -/
structure Numeral where
  negative : Bool
  whole : List Char
  fraction : List Char
  exponent : Option (Bool × List Char)
  deriving Repr, DecidableEq

namespace Numeral

/-- Digits of which there must be at least one. -/
def readSome (text : List Char) : Except Halt (List Char × List Char) :=
  let (ds, rest) := readDigits text
  if ds.isEmpty then
    .error (if rest.isEmpty then .endOfText else .expected "a digit", rest)
  else .ok (ds, rest)

/-- The digits before the point: a zero alone or digits of which the first is not zero. -/
def readWhole : List Char → Except Halt (List Char × List Char)
  | '0' :: rest => .ok (['0'], rest)
  | text => readSome text

/-- The digits after a point, if there is one. -/
def readFraction : List Char → Except Halt (List Char × List Char)
  | '.' :: rest => readSome rest
  | text => .ok ([], text)

/-- The exponent, if there is one. -/
def readExponent : List Char → Except Halt (Option (Bool × List Char) × List Char)
  | [] => .ok (none, [])
  | c :: rest =>
    if c = 'e' || c = 'E' then
      let (negative, rest) := readSign rest
      (readSome rest).map fun (ds, rest) => (some (negative, ds), rest)
    else .ok (none, c :: rest)

/-- Read a number. -/
def read (text : List Char) : Except Halt (Numeral × List Char) := do
  let (negative, rest) := match text with
    | '-' :: rest => (true, rest)
    | _ => (false, text)
  let (whole, rest) ← readWhole rest
  let (fraction, rest) ← readFraction rest
  let (exponent, rest) ← readExponent rest
  return ({ negative, whole, fraction, exponent }, rest)

/-- Numbers below this fit an unsigned 64-bit word. -/
def wordLimit : Nat := UInt64.size

/-- Append digits to a significand as long as it fits 64 bits, and return those that are left. -/
def accumulate (significand : Nat) : List Char → Nat × List Char
  | [] => (significand, [])
  | d :: ds =>
    let next := 10 * significand + digitValue d
    if next < wordLimit then accumulate next ds else (significand, d :: ds)

/-- The largest power of ten that is multiplied by in one step. -/
def maxPower : Nat := 308

/-- The double nearest to a power of ten. -/
def power (e : Nat) : Binary64 :=
  Binary64.ofDecimal false 1 e

/-- Scale a double by a power of ten, rounding at every step. Below the least power the division is done
in several steps, at most as many as the first argument says. -/
def scale? : Nat → Binary64 → Int → Option Binary64
  | _, x, .ofNat e =>
    if e ≤ maxPower then
      let y := x.mul (power e)
      if y.isFinite then some y else none
    else if x.isZero then some x
    else none
  | 0, x, .negSucc _ => some (x.mul (Binary64.zero false))
  | steps + 1, x, .negSucc e =>
    if e + 1 ≤ maxPower then some (x.div (power (e + 1)))
    else if x.isZero then some x
    else scale? steps (x.div (power maxPower)) (Int.negSucc e + maxPower)

/-- The exponent of a numeral. -/
def exponentValue (n : Numeral) : Int :=
  match n.exponent with
  | none => 0
  | some (negative, ds) => if negative then -(digitsValue ds : Int) else digitsValue ds

/-- The double of a numeral; none if it is too large. -/
def toBinary64? (n : Numeral) : Option Binary64 :=
  let (high, wholeLeft) := accumulate 0 n.whole
  let (significand, fractionLeft) := accumulate high n.fraction
  let places : Int := (n.fraction.length : Int) - fractionLeft.length
  let magnitude := scale? 3 (Binary64.round false significand 1) (wholeLeft.length - places + n.exponentValue)
  magnitude.map fun x => if n.negative then x.negate else x

/-- The tree that a numeral denotes. -/
def value (n : Numeral) : Json :=
  let double := match n.toBinary64? with
    | some x => number x
    | none => unreadable .numberOutOfRange
  if n.fraction.isEmpty && n.exponent.isNone then
    let magnitude := digitsValue n.whole
    if n.negative then
      if 0 < magnitude && magnitude ≤ Nat.pow 2 63 then integer (-(magnitude : Int)) else double
    else if magnitude < wordLimit then integer magnitude else double
  else double

end Numeral

/-- A double with its shortest digits; `null` stands for one that is not finite. -/
def numberText (x : Binary64) : List Char :=
  x.scientific?.getD ['n', 'u', 'l', 'l']

end Dataflow.Json
