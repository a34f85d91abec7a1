import ConfigSchema.Entries
import ConfigSchema.Runtime
import ConfigSchema.TypeRef

/-!
# Type graphs

A graph lists type definitions in order and looks types up by name.  The two views usually
agree; in a graph made by hand names may repeat in the list, and the lookup may be given
separately.
-/

namespace ConfigSchema

structure Field where
  name : String
  type : TypeRef
  description : Option String := none
  directives : List String := []
  deriving DecidableEq, Inhabited

/-- What sets the kinds of types apart.  A type of no known kind is `other`. -/
inductive TypeShape where
  | scalar
  | enum (values : List String)
  | object (fields : List Field) (interfaces : List String)
  | interface (fields : List Field) (interfaces : List String)
  | union (members : List String)
  | other
  deriving DecidableEq, Inhabited

structure TypeDef where
  name : String
  description : Option String := none
  directives : List String := []
  shape : TypeShape
  deriving DecidableEq, Inhabited

namespace TypeDef

def isObject (type : TypeDef) : Bool :=
  match type.shape with
  | .object .. => true
  | _ => false

/-- The fields of a type whose kind has fields. -/
def fields? (type : TypeDef) : Option (List Field) :=
  match type.shape with
  | .object fields _ => some fields
  | .interface fields _ => some fields
  | _ => none

def fields (type : TypeDef) : List Field :=
  type.fields?.getD []

def interfaces (type : TypeDef) : List String :=
  match type.shape with
  | .object _ interfaces => interfaces
  | .interface _ interfaces => interfaces
  | _ => []

end TypeDef

/-- The types of a merged schema. -/
structure TypeGraph where
  types : List TypeDef
  /-- The names of the declared directives. -/
  directives : List String := []
  /-- The types that names stand for. -/
  index : Entries TypeDef
  deriving Inhabited

inductive GraphError where
  /-- A name stands for no type. -/
  | unknownType (name : String)
  /-- The variants of a union or an interface lead back to it. -/
  | endless (name : String)
  /-- Fields are asked of a type whose kind has none. -/
  | fieldless (name : String)
  /-- There is no room for the calls that lead to a type. -/
  | tooDeep
  deriving DecidableEq, Inhabited

namespace TypeGraph

/-- A result for which there has to be room for some calls. -/
def inRoom [Runtime] {α : Type} (calls : List Call) (result : Except GraphError α) :
    Except GraphError α :=
  if Runtime.hasRoom calls then result else .error .tooDeep

section InRoom

variable [Runtime] {α : Type} {calls : List Call} {result : Except GraphError α}

@[simp] theorem inRoom_eq_ok_iff {a : α} :
    inRoom calls result = .ok a ↔ Runtime.hasRoom calls = true ∧ result = .ok a := by
  unfold inRoom
  cases Runtime.hasRoom calls <;> simp

@[simp] theorem inRoom_eq_error_iff {e : GraphError} :
    inRoom calls result = .error e ↔
      Runtime.hasRoom calls = false ∧ e = .tooDeep ∨
        Runtime.hasRoom calls = true ∧ result = .error e := by
  unfold inRoom
  cases Runtime.hasRoom calls <;> simp [eq_comm]

theorem inRoom_of_hasRoom (hroom : Runtime.hasRoom calls = true) : inRoom calls result = result :=
  if_pos hroom

end InRoom

/-- The graph of a list of types; of types with one name the last is looked up. -/
def ofTypes (types : List TypeDef) (directives : List String := []) : TypeGraph :=
  { types, directives, index := Entries.ofList (types.map fun type => (type.name, type)) }

def type (graph : TypeGraph) (name : String) : Except GraphError TypeDef :=
  match graph.index.get? name with
  | some type => .ok type
  | none => .error (.unknownType name)

def objects (graph : TypeGraph) : List TypeDef :=
  graph.types.filter (·.isObject)

/-- The names of the object types that list an interface. -/
def implementors (graph : TypeGraph) (interface : String) : List String :=
  (graph.objects.filter fun type => type.interfaces.contains interface).map (·.name)

/-- The members of a union, none for a type of another kind. -/
def members (graph : TypeGraph) (union : String) : Except GraphError (List String) :=
  match graph.index.get? union with
  | some ⟨_, _, _, .union members⟩ => .ok members
  | some _ => .ok []
  | none => .error (.unknownType union)

end TypeGraph

end ConfigSchema
