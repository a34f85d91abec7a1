import ConfigSchema.Decimal.Binary64

/-!
# Shortest decimals

A number is written with the fewest digits that read back as the same number, and among those
with the digits nearest to its exact value.  The reals that read back as a number form an
interval around it, and a grid of decimals meets the interval only if one of the two grid points
next to the number does; so for each count of digits it is enough to look at these two.
-/

namespace ConfigSchema

namespace Binary64

/-- Reals that round to one number: four times the bounds and the number itself, as natural
numerators over a common denominator. -/
structure Neighbourhood where
  low : Nat
  value : Nat
  high : Nat
  den : Nat
  /-- Whether the bounds themselves round to the number. -/
  closed : Bool

/-- The interval of reals that round to `significand * 2 ^ exponent`. -/
def neighbourhood (significand : Nat) (exponent : Int) : Neighbourhood :=
  let below := if significand = 1 <<< 52 ∧ exponent > -1074 then 1 else 2
  let scale (n : Nat) : Nat := if exponent < 0 then n else n <<< exponent.natAbs
  { low := scale (4 * significand - below)
    value := scale (4 * significand)
    high := scale (4 * significand + 2)
    den := if exponent < 0 then 4 <<< exponent.natAbs else 4
    closed := significand % 2 = 0 }

/-- The fraction `num / den` in units of `10 ^ place`. -/
def inUnits (num den : Nat) (place : Int) : Nat × Nat :=
  if place < 0 then (num * Nat.pow 10 place.natAbs, den) else (num, den * Nat.pow 10 place.natAbs)

/-- The place of the first digit of the positive fraction `num / den`. -/
def leadingPlace (num den : Nat) : Int :=
  let guess : Int := (Nat.toDigits 10 num).length - (Nat.toDigits 10 den).length
  let units := inUnits num den guess
  if units.1 < units.2 then guess - 1 else guess

/-- Whether `digits * 10 ^ place` lies in the interval. -/
def Neighbourhood.holds (n : Neighbourhood) (digits : Nat) (place : Int) : Bool :=
  let low := inUnits n.low n.den place
  let high := inUnits n.high n.den place
  if n.closed then
    low.1 ≤ digits * low.2 && digits * high.2 ≤ high.1
  else
    low.1 < digits * low.2 && digits * high.2 < high.1

/-- The multiple of `10 ^ place` in the interval that is nearest to its number. -/
def Neighbourhood.onGrid? (n : Neighbourhood) (place : Int) : Option Nat :=
  let units := inUnits n.value n.den place
  let below := units.1 / units.2
  let twiceRest := 2 * (units.1 % units.2)
  let upFirst := units.2 < twiceRest || (units.2 = twiceRest && below % 2 = 1)
  let (first, second) := if upFirst then (below + 1, below) else (below, below + 1)
  if n.holds first place then some first
  else if n.holds second place then some second
  else none

/-- Digits and place of the shortest decimal that rounds to the number, looked for with `count`
digits and then with up to `more` further ones. -/
def Neighbourhood.shortestFrom (n : Neighbourhood) (leading : Int) (count : Nat) :
    (more : Nat) → Nat × Int
  | 0 => (n.value / n.den, 0)
  | more + 1 =>
      let place := leading - count + 1
      match n.onGrid? place with
      | some digits => (digits, place)
      | none => n.shortestFrom leading (count + 1) more

/-- Digits and place of the shortest decimal that reads back as `significand * 2 ^ exponent`;
seventeen digits always do. -/
def shortest (significand : Nat) (exponent : Int) : Nat × Int :=
  let n := neighbourhood significand exponent
  n.shortestFrom (leadingPlace n.value n.den) 1 17

end Binary64

/-- How a decimal is laid out: the range of leading places that are written without an exponent,
and the fewest digits of an exponent. -/
structure DecimalLayout where
  lowestPlace : Int
  highestPlace : Int
  exponentDigits : Nat

namespace DecimalLayout

def padded (width : Nat) (digits : List Char) : List Char :=
  List.replicate (width - digits.length) '0' ++ digits

/-- The digits with a point: at least one digit stands on either side of it. -/
def positional (digits : List Char) (leading : Int) : List Char :=
  if leading < 0 then
    '0' :: '.' :: (List.replicate (leading.natAbs - 1) '0' ++ digits)
  else
    let whole := leading.natAbs + 1
    if digits.length ≤ whole then
      digits ++ List.replicate (whole - digits.length) '0' ++ ['.', '0']
    else
      digits.take whole ++ '.' :: digits.drop whole

def scientific (layout : DecimalLayout) (digits : List Char) (leading : Int) : List Char :=
  let fraction := digits.drop 1
  digits.take 1 ++ (if fraction.isEmpty then [] else '.' :: fraction) ++
    'e' :: (if leading < 0 then '-' else '+') ::
      padded layout.exponentDigits (Nat.toDigits 10 leading.natAbs)

def write (layout : DecimalLayout) (digits : List Char) (place : Int) : List Char :=
  let leading := place + digits.length - 1
  let digits := (digits.reverse.dropWhile (· = '0')).reverse
  if layout.lowestPlace ≤ leading ∧ leading ≤ layout.highestPlace then
    positional digits leading
  else
    layout.scientific digits leading

end DecimalLayout

namespace Binary64

/-- Numbers are written without an exponent from `1e-4` up to sixteen digits before the point;
an exponent has a sign and at least two digits. -/
def layout : DecimalLayout := ⟨-4, 15, 2⟩

/-- The text of a finite number; the two infinities and the undefined number have names. -/
def render (infinity undefined : String) : Binary64 → String
  | .finite negative significand exponent =>
      let sign := if negative then "-" else ""
      if significand = 0 then sign ++ "0.0"
      else
        let (digits, place) := shortest significand exponent
        sign ++ String.ofList (layout.write (Nat.toDigits 10 digits) place)
  | .infinite negative => (if negative then "-" else "") ++ infinity
  | .notANumber => undefined

end Binary64

end ConfigSchema
