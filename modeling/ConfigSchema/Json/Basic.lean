import ConfigSchema.Entries
import ConfigSchema.Decimal.Binary64

/-!
# JSON values

Integers are exact and floats are double precision numbers.  An object keeps the order of its
names, and a name stands in it once.
-/

namespace ConfigSchema

inductive Json where
  | null
  | bool (value : Bool)
  | int (value : Int)
  | float (value : Binary64)
  | str (text : String)
  | arr (items : List Json)
  | obj (entries : List (String × Json))
  deriving Inhabited

namespace Json

/-- What a text of a value may not have too much of. -/
inductive Limit where
  /-- Arrays and objects that stand inside each other. -/
  | depth
  /-- Digits of an integer. -/
  | digits
  deriving DecidableEq, Inhabited

/-- Whether a value counts as given where an option may be left out: null, false, zero and
whatever is empty do not. -/
def isTruthy : Json → Bool
  | .null => false
  | .bool b => b
  | .int i => i ≠ 0
  | .float x => !x.isZero
  | .str s => s ≠ ""
  | .arr items => !items.isEmpty
  | .obj entries => !entries.isEmpty

/-- The value of a name in an object; other values have no names. -/
def get? (name : String) : Json → Option Json
  | .obj entries => Entries.get? name entries
  | _ => none

/-- The value of a name, unless it is missing or null. -/
def given? (name : String) (value : Json) : Option Json :=
  match value.get? name with
  | some .null => none
  | other => other

def text? : Json → Option String
  | .str s => some s
  | _ => none

def items? : Json → Option (List Json)
  | .arr items => some items
  | _ => none

def texts (values : List String) : Json :=
  .arr (values.map .str)

end Json

end ConfigSchema
