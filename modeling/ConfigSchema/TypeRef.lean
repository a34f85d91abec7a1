/-!
# Type references

A reference names a type under any number of list and required layers, in any order.  Its
notation is the one of GraphQL: `[T]` for a list, `T!` for what is required.
-/

namespace ConfigSchema

inductive TypeRef where
  | named (name : String)
  | list (of : TypeRef)
  | required (of : TypeRef)
  deriving DecidableEq, Inhabited

namespace TypeRef

/-- The name under all layers. -/
def base : TypeRef → String
  | .named name => name
  | .list of => of.base
  | .required of => of.base

/-- Whether a list layer stands at any depth. -/
def isList : TypeRef → Bool
  | .named _ => false
  | .list _ => true
  | .required of => of.isList

/-- Whether the outermost layer makes the reference required; what is required inside a list
does not count. -/
def isRequired : TypeRef → Bool
  | .required _ => true
  | _ => false

def listDepth : TypeRef → Nat
  | .named _ => 0
  | .list of => of.listDepth + 1
  | .required of => of.listDepth

/-- How many layers stand over the name. -/
def layers : TypeRef → Nat
  | .named _ => 0
  | .list of => of.layers + 1
  | .required of => of.layers + 1

theorem isList_iff_listDepth_pos (ref : TypeRef) : ref.isList = true ↔ 0 < ref.listDepth := by
  induction ref with
  | named name => simp [isList, listDepth]
  | list of _ => simp [isList, listDepth]
  | required of ih => simpa [isList, listDepth] using ih

def toText : TypeRef → String
  | .named name => name
  | .list of => "[" ++ of.toText ++ "]"
  | .required of => of.toText ++ "!"

/-- Reads a notation: a final mark makes the rest required, brackets around all make a list, and
anything else is a name. -/
def ofChars (s : List Char) : TypeRef :=
  if _hmark : s.getLast? = some '!' then .required (ofChars s.dropLast)
  else if _hlist : s.head? = some '[' ∧ s.getLast? = some ']' then
    .list (ofChars (s.drop 1).dropLast)
  else .named (String.ofList s)
termination_by s.length
decreasing_by
  · have : s ≠ [] := by rintro rfl; simp at _hmark
    have := List.length_pos_iff.2 this
    simp only [List.length_dropLast]; omega
  · have : s ≠ [] := by rintro rfl; simp at _hlist
    have := List.length_pos_iff.2 this
    simp only [List.length_dropLast, List.length_drop]; omega

def ofText (s : String) : TypeRef :=
  ofChars s.toList

end TypeRef

end ConfigSchema
