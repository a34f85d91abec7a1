import ConfigSchema.Text.Surrogate

/-!
# Names in bytes

The system takes names and paths as bytes that end in a zero.  A text with a lone surrogate has
no bytes, unless the surrogate stands for a byte itself, and a text with a zero would end too
early.
-/

namespace ConfigSchema

/-- Why a text cannot be handed to the system. -/
inductive NameFault where
  | unencodable
  /-- It holds a zero. -/
  | zero
  deriving DecidableEq, Inhabited

namespace Files

/-- The number of bytes that a name has at most. -/
def nameLimit : Nat := 255

/-- The number of bytes that a path has at most. -/
def pathLimit : Nat := 4095

/-- What is wrong with a text as a name; that it has no bytes comes first. -/
def nameFault? [Runtime] (text : String) : Option NameFault :=
  if !Text.isEncodable text then some .unencodable
  else if text.toList.contains '\x00' then some .zero
  else none

end Files

end ConfigSchema
