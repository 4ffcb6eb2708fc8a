/-!
# Double-precision numbers

A finite double is a sign, a significand below `2 ^ 53` and a power of two. Every operation is exact
arithmetic on natural numbers and integers followed by one rounding to the nearest double, where a
tie goes to the even significand.

* `Binary64` is the type of doubles, `Canonical` the form that every operation returns;
* `Binary64.round` is the double nearest to a quotient of natural numbers;
* `ofInt`, `ofDecimal`, `add`, `mul` and `div` are rounded once from their exact results;
* `truncate?` drops the fraction, `toWord` saturates to 64 bits.
-/

namespace Dataflow

/-- A double-precision binary floating-point number. -/
inductive Binary64 where
  /-- The number `± significand * 2 ^ exponent`. -/
  | finite (negative : Bool) (significand : Nat) (exponent : Int)
  /-- An infinity. -/
  | infinite (negative : Bool)
  /-- Not a number. -/
  | nan
  deriving DecidableEq, Repr, Inhabited

namespace Binary64

/-- Significands have at most this many bits. -/
def precision : Nat := 53

/-- The exponent of the smallest positive double. -/
def minExponent : Int := -1074

/-- The exponent of the largest finite doubles. -/
def maxExponent : Int := 971

/-- The form in which a double is kept: the significand fills its bits unless the number is so small
that the exponent is the least one. -/
def Canonical : Binary64 → Prop
  | finite _ significand exponent =>
    significand < Nat.pow 2 precision ∧ minExponent ≤ exponent ∧ exponent ≤ maxExponent ∧
      (Nat.pow 2 (precision - 1) ≤ significand ∨ exponent = minExponent)
  | infinite _ | nan => True

/-- Zero, with its sign. -/
def zero (negative : Bool) : Binary64 :=
  finite negative 0 minExponent

/-- `num / den` in units of `2 ^ exponent`, again as a quotient. -/
def scaled (num den : Nat) (exponent : Int) : Nat × Nat :=
  match exponent with
  | .ofNat e => (num, den * Nat.pow 2 e)
  | .negSucc e => (num * Nat.pow 2 (e + 1), den)

/-- The integer nearest to `num / den`, the even one of two that are equally near. -/
def roundHalfEven (num den : Nat) : Nat :=
  let quotient := num / den
  let remainder := num % den
  if den < 2 * remainder || (2 * remainder == den && quotient % 2 == 1) then quotient + 1 else quotient

/-- The least exponent in whose units `num / den` has at most 53 bits before the point. -/
def gridExponent (num den : Nat) : Int :=
  let guess : Int := (num.log2 : Int) - (den.log2 : Int) - precision
  let unit := scaled num den guess
  max minExponent (if unit.1 < Nat.pow 2 precision * unit.2 then guess else guess + 1)

/-- The double nearest to `± num / den`. -/
def round (negative : Bool) (num den : Nat) : Binary64 :=
  if num = 0 then zero negative
  else
    let exponent := gridExponent num den
    let unit := scaled num den exponent
    let significand := roundHalfEven unit.1 unit.2
    if significand < Nat.pow 2 precision then
      if maxExponent < exponent then infinite negative else finite negative significand exponent
    else if maxExponent < exponent + 1 then infinite negative
    else finite negative (significand / 2) (exponent + 1)

/-- The double nearest to an integer. -/
def ofInt (i : Int) : Binary64 :=
  round (i < 0) i.natAbs 1

/-- The double nearest to `± digits * 10 ^ exponent`. Powers of ten that are out of reach are not
computed: above `10 ^ 400` every number is too large, and below `2 ^ -1100` it rounds to zero. -/
def ofDecimal (negative : Bool) (digits : Nat) (exponent : Int) : Binary64 :=
  if digits = 0 then zero negative
  else if 400 < exponent then infinite negative
  else if exponent < 0 ∧ (digits.log2 : Int) + 1 + 3 * exponent < -1100 then zero negative
  else match exponent with
    | .ofNat e => round negative (digits * Nat.pow 10 e) 1
    | .negSucc e => round negative digits (Nat.pow 10 (e + 1))

/-- Whether a double is neither infinite nor `nan`. -/
def isFinite : Binary64 → Bool
  | finite .. => true
  | _ => false

/-- Whether a double is one of the two zeros. -/
def isZero : Binary64 → Bool
  | finite _ significand _ => significand == 0
  | _ => false

/-- Whether a double is greater than zero. -/
def isPositive : Binary64 → Bool
  | finite negative significand _ => !negative && significand != 0
  | infinite negative => !negative
  | nan => false

/-- Whether a double is zero or greater. -/
def isNonnegative (x : Binary64) : Bool :=
  x.isPositive || x.isZero

/-- The magnitude of a finite double as a quotient. -/
def magnitude (significand : Nat) (exponent : Int) : Nat × Nat :=
  match exponent with
  | .ofNat e => (significand * Nat.pow 2 e, 1)
  | .negSucc e => (significand, Nat.pow 2 (e + 1))

/-- The integer part of a finite double, toward zero. -/
def truncate? : Binary64 → Option Int
  | finite negative significand exponent =>
    let (num, den) := magnitude significand exponent
    let whole : Int := (num / den : Nat)
    some (if negative then -whole else whole)
  | _ => none

/-- Whether a double is a whole number. -/
def isWhole : Binary64 → Bool
  | finite _ significand exponent =>
    let (num, den) := magnitude significand exponent
    num % den == 0
  | _ => false

/-- The integer part as a 64-bit word: too large saturates, and negative numbers and `nan` give zero. -/
def toWord : Binary64 → Nat
  | infinite negative => if negative then 0 else UInt64.size - 1
  | x => match x.truncate? with
    | some i => min i.toNat (UInt64.size - 1)
    | none => 0

/-- The significand with its sign. -/
def signedSignificand (negative : Bool) (significand : Nat) : Int :=
  if negative then -(significand : Int) else significand

/-- The double nearest to `i * 2 ^ exponent`. -/
def ofScaled (i : Int) (exponent : Int) : Binary64 :=
  let (num, den) := magnitude i.natAbs exponent
  round (i < 0) num den

/-- Add two doubles. A sum that is exactly zero is positive unless both terms are negative zeros. -/
def add : Binary64 → Binary64 → Binary64
  | nan, _ | _, nan => nan
  | infinite s, infinite t => if s = t then infinite s else nan
  | infinite s, finite .. => infinite s
  | finite .., infinite t => infinite t
  | finite s m e, finite t n f =>
    let low := min e f
    let left := signedSignificand s m * Nat.pow 2 (e - low).toNat
    let right := signedSignificand t n * Nat.pow 2 (f - low).toNat
    if left + right = 0 then zero (s && t) else ofScaled (left + right) low

/-- Multiply two doubles. -/
def mul : Binary64 → Binary64 → Binary64
  | nan, _ | _, nan => nan
  | infinite s, infinite t => infinite (s != t)
  | infinite s, finite t n _ => if n = 0 then nan else infinite (s != t)
  | finite s m _, infinite t => if m = 0 then nan else infinite (s != t)
  | finite s m e, finite t n f =>
    let (num, den) := magnitude (m * n) (e + f)
    round (s != t) num den

/-- Divide two doubles. -/
def div : Binary64 → Binary64 → Binary64
  | nan, _ | _, nan => nan
  | infinite _, infinite _ => nan
  | infinite s, finite t _ _ => infinite (s != t)
  | finite s _ _, infinite t => zero (s != t)
  | finite s m e, finite t n f =>
    if n = 0 then (if m = 0 then nan else infinite (s != t))
    else
      let (num, den) := magnitude m (e - f)
      round (s != t) num (den * n)

/-- Change the sign. -/
def negate : Binary64 → Binary64
  | finite negative significand exponent => finite (!negative) significand exponent
  | infinite negative => infinite (!negative)
  | nan => nan

end Binary64

end Dataflow
