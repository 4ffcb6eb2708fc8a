import Dataflow.Binary64

/-!
# The fewest digits that read back

A positive double is the nearest one for all reals of an interval around it, whose ends belong to it
when its significand is even. Among the decimals `digits * 10 ^ exponent` of that interval, those with
the fewest digits are the shortest ones, and of these the nearest to the double is chosen.

* `interval` gives a double and its two ends in common units;
* `onGrid?` tests the two neighbours of a double on one decimal grid;
* `shortest` takes the coarsest grid with a hit.
-/

namespace Dataflow.Binary64

/-- A double with the ends of the reals that round to it, in units of `1 / den`. -/
structure Interval where
  low : Nat
  value : Nat
  high : Nat
  den : Nat
  closed : Bool
  deriving Repr

/-- The reals that round to `significand * 2 ^ exponent`. Below a power of two the doubles lie twice as
dense, so the lower end is nearer there. -/
def interval (significand : Nat) (exponent : Int) : Interval :=
  let (num, den) := magnitude 1 (exponent - 2)
  let below := if significand = Nat.pow 2 (precision - 1) ∧ minExponent < exponent then 1 else 2
  { low := (4 * significand - below) * num
    value := 4 * significand * num
    high := (4 * significand + 2) * num
    den
    closed := significand % 2 == 0 }

/-- Whether `num / den` belongs to the interval. -/
def Interval.contains (i : Interval) (num den : Nat) : Bool :=
  let low := i.low * den
  let high := i.high * den
  let point := num * i.den
  if i.closed then low ≤ point && point ≤ high else low < point && point < high

/-- The number of decimal digits of a natural number. -/
def digitCount (n : Nat) : Nat :=
  (Nat.toDigits 10 n).length

/-- The exponent of the leading decimal digit of the positive quotient `num / den`. -/
def decade (num den : Nat) : Int :=
  if den ≤ num then (digitCount (num / den) : Int) - 1
  else -(digitCount ((den - 1) / num) : Int)

/-- Which of two equally near decimals is taken. -/
inductive Tie where
  | toEven
  | up
  deriving DecidableEq, Repr

/-- The multiple of `10 ^ exponent` that is nearest to the double, if a neighbour of the double on this
grid rounds to it. -/
def onGrid? (tie : Tie) (i : Interval) (exponent : Int) : Option Nat :=
  let power := Nat.pow 10 exponent.natAbs
  let (unit, scale) := if exponent < 0 then (1, power) else (power, 1)
  -- the double is `num / den` in units of the grid
  let num := i.value * scale
  let den := i.den * unit
  let floor := num / den
  let remainder := num % den
  let floorHit := 0 < floor && i.contains (floor * unit) scale
  let ceilHit := i.contains ((floor + 1) * unit) scale
  if remainder = 0 && floorHit then some floor
  else if floorHit && ceilHit then
    let upper := match tie with
      | .toEven => floor % 2 == 1
      | .up => true
    if den < 2 * remainder || (2 * remainder == den && upper) then some (floor + 1) else some floor
  else if floorHit then some floor
  else if ceilHit then some (floor + 1)
  else none

/-- Seventeen digits are enough for every double. -/
def maxDigits : Nat := 17

/-- The grids on which the leading digit of a number has place `decade`, from one digit to seventeen. -/
def grids (decade : Int) : List Int :=
  (List.range maxDigits).map fun (place : Nat) => decade - (place : Int)

/-- Take trailing zeros off, with their count. -/
def stripZeros : Nat → Nat → Int → Nat × Int
  | 0, digits, exponent => (digits, exponent)
  | fuel + 1, digits, exponent =>
    if digits % 10 = 0 ∧ digits ≠ 0 then stripZeros fuel (digits / 10) (exponent + 1) else (digits, exponent)

/-- The shortest decimal `digits * 10 ^ exponent` that rounds to `significand * 2 ^ exponent`, for a
positive significand. -/
def shortest (tie : Tie) (significand : Nat) (exponent : Int) : Nat × Int :=
  let i := interval significand exponent
  match (grids (decade i.value i.den)).findSome? fun grid => (onGrid? tie i grid).map (·, grid) with
  | some (digits, grid) => stripZeros (maxDigits + 1) digits grid
  | none => (0, 0)

end Dataflow.Binary64
