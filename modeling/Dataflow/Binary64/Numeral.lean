import Dataflow.Binary64.Shortest
import Dataflow.Text.Digits

/-!
# Doubles as text

* `plain` writes a double with its shortest digits and no exponent;
* `scientific` writes it with an exponent where the number is very large or very small;
* `numeral?` reads a number in decimal notation, an infinity or `nan`.

Both ways of writing state their decisions here: where plain notation ends, whether a whole number
keeps a fraction, how the exponent is marked and which of two equally near decimals is taken.
-/

namespace Dataflow.Binary64

open Text

/-- The digits `ds`, of which the first has the place `lead`, without an exponent. -/
def positional (ds : List Char) (lead : Int) : List Char :=
  match lead with
  | .ofNat e =>
    let whole := ds.take (e + 1)
    let fraction := ds.drop (e + 1)
    let filled := whole ++ List.replicate (e + 1 - whole.length) '0'
    if fraction.isEmpty then filled else filled ++ '.' :: fraction
  | .negSucc e => '0' :: '.' :: (List.replicate e '0' ++ ds)

/-- A minus for a negative number. -/
def signText (negative : Bool) : List Char :=
  if negative then ['-'] else []

/-- The shortest digits of a positive double, with the place of the first one. -/
def leadingDigits (tie : Tie) (significand : Nat) (exponent : Int) : List Char × Int :=
  let (digits, grid) := shortest tie significand exponent
  let ds := decimal digits
  (ds, grid + ds.length - 1)

/-- The shortest digits, never with an exponent; a whole number has no fraction, and a tie goes up. -/
def plain : Binary64 → List Char
  | nan => ['N', 'a', 'N']
  | infinite negative => signText negative ++ ['i', 'n', 'f']
  | finite negative significand exponent =>
    if significand = 0 then signText negative ++ ['0']
    else
      let (ds, lead) := leadingDigits .up significand exponent
      signText negative ++ positional ds lead

/-- Plain notation holds from this place of the first digit … -/
def plainFrom : Int := -5

/-- … to this one. -/
def plainTo : Int := 15

/-- The shortest digits of a finite double. From `10 ^ -5` to below `10 ^ 16` the notation is plain, and
a whole number has the fraction `.0`; elsewhere an exponent with its sign follows. A tie goes to the
even digit. There is no text for the other doubles. -/
def scientific? : Binary64 → Option (List Char)
  | finite negative significand exponent =>
    if significand = 0 then some (signText negative ++ ['0', '.', '0'])
    else
      let (ds, lead) := leadingDigits .toEven significand exponent
      if plainFrom ≤ lead ∧ lead ≤ plainTo then
        let text := positional ds lead
        let fraction := if text.contains '.' then [] else ['.', '0']
        some (signText negative ++ text ++ fraction)
      else
        let mantissa := match ds with
          | [] => []
          | [d] => [d]
          | d :: rest => d :: '.' :: rest
        let sign := if lead < 0 then '-' else '+'
        some (signText negative ++ mantissa ++ 'e' :: sign :: decimal lead.natAbs)
  | _ => none

/-- The letters of a text in lower case, as far as they are ASCII. -/
def lowered (text : List Char) : List Char :=
  text.map Char.toLower

/-- Read digits with at most one point, of which there must be at least one digit: the digits without
the point, and how many of them stand after it. -/
def readFixed? (text : List Char) : Option (List Char × Nat × List Char) :=
  let (whole, rest) := readDigits text
  let (fraction, rest) := match rest with
    | '.' :: after => readDigits after
    | _ => ([], rest)
  if whole.isEmpty && fraction.isEmpty then none else some (whole ++ fraction, fraction.length, rest)

/-- Read what follows the digits: nothing, or a mark and a signed integer. -/
def exponent? : List Char → Option Int
  | [] => some 0
  | c :: rest => if c = 'e' || c = 'E' then integer? rest else none

/-- Read a double: `inf`, `infinity` or `nan` in any case, or decimal digits with at most one point and
an exponent, all after a sign or none. The result is the nearest double. -/
def numeral? (text : List Char) : Option Binary64 :=
  let (negative, rest) := readSign text
  let word := String.ofList (lowered rest)
  if word = "inf" || word = "infinity" then some (infinite negative)
  else if word = "nan" then some nan
  else
    match readFixed? rest with
    | none => none
    | some (ds, places, after) =>
      (exponent? after).map fun e => ofDecimal negative (digitsValue ds) (e - places)

end Dataflow.Binary64
