/-!
# Rows of digits

The number of a row of decimal digits.  A row that stands for an integer may not be longer than a
limit.
-/

namespace ConfigSchema

namespace Decimal

/-- The number of digits that an integer has at most. -/
def digitLimit : Nat := 4300

def natOfDigits (digits : List Char) : Nat :=
  digits.foldl (fun n c => 10 * n + (c.toNat - '0'.toNat)) 0

/-- The sign of a written number and the rest of it. -/
def signed : List Char → Bool × List Char
  | '-' :: rest => (true, rest)
  | '+' :: rest => (false, rest)
  | s => (false, s)

def intOfDigits (negative : Bool) (digits : List Char) : Int :=
  if negative then -(natOfDigits digits : Int) else natOfDigits digits

end Decimal

end ConfigSchema
