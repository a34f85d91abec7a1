/-!
# Double precision numbers

A finite number is a sign, a significand below `2 ^ 53` and a power of two.  Reading a decimal
rounds its exact value to the nearest such number, a tie to the even significand, and goes to
infinity where the nearest number would need an exponent that is too large.
-/

namespace ConfigSchema

inductive Binary64 where
  /-- The number `± significand * 2 ^ exponent`. -/
  | finite (negative : Bool) (significand : Nat) (exponent : Int)
  | infinite (negative : Bool)
  | notANumber
  deriving DecidableEq, Inhabited

namespace Binary64

def isZero : Binary64 → Bool
  | .finite _ 0 _ => true
  | _ => false

/-- `num / den` to the nearest natural number, a tie to the even one. -/
def roundedQuotient (num den : Nat) : Nat :=
  let quotient := num / den
  let twiceRest := 2 * (num % den)
  if twiceRest < den then quotient
  else if den < twiceRest then quotient + 1
  else quotient + quotient % 2

/-- The fraction `num / den` scaled by `2 ^ (-exponent)`, as numerator and denominator. -/
def scaledByPower (num den : Nat) (exponent : Int) : Nat × Nat :=
  if exponent < 0 then (num <<< exponent.natAbs, den) else (num, den <<< exponent.natAbs)

/-- The exponent at which `num / den` has a significand of 53 binary digits, but not below the
exponent of the smallest numbers. -/
def exponentFor (num den : Nat) : Int :=
  let guess : Int := (num.log2 : Int) - (den.log2 : Int) - 52
  let scaled := scaledByPower num den guess
  let exponent := if scaled.1 < scaled.2 <<< 52 then guess - 1 else guess
  max exponent (-1074)

/-- The number nearest to the positive fraction `num / den`. -/
def ofFraction (negative : Bool) (num den : Nat) : Binary64 :=
  let exponent := exponentFor num den
  let scaled := scaledByPower num den exponent
  let significand := roundedQuotient scaled.1 scaled.2
  let (significand, exponent) :=
    if significand = 1 <<< 53 then (1 <<< 52, exponent + 1) else (significand, exponent)
  if exponent > 971 then .infinite negative
  else if significand = 0 then .finite negative 0 0
  else .finite negative significand exponent

/-- The number nearest to `± digits * 10 ^ exponent`. -/
def ofDecimal (negative : Bool) (digits : Nat) (exponent : Int) : Binary64 :=
  let magnitude : Int := (digits.log2 : Int) / 4 + exponent
  if digits = 0 then .finite negative 0 0
  else if magnitude > 400 then .infinite negative
  else if exponent + (digits.log2 : Int) < -1200 then .finite negative 0 0
  else if exponent < 0 then ofFraction negative digits (Nat.pow 10 exponent.natAbs)
  else ofFraction negative (digits * Nat.pow 10 exponent.natAbs) 1

end Binary64

end ConfigSchema
