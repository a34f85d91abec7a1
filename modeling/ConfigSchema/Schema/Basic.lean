import ConfigSchema.Sdl.Document

/-!
# Schemas

A schema holds the types of a merged document with all that their extensions add, and the
built-in types wherever they are named.  Defaults are kept as literals; what they come to depends
on the types of the schema.
-/

namespace ConfigSchema

namespace Schema

/-- An argument of a field or a directive, or a field of an input object. -/
structure InputValue where
  name : String
  description : Option String := none
  type : TypeRef
  default : Option Sdl.Value := none
  /-- The reason of a deprecation. -/
  deprecation : Option String := none
  deriving Inhabited

structure Field where
  name : String
  description : Option String := none
  arguments : List InputValue := []
  type : TypeRef
  deprecation : Option String := none
  /-- The names of the directives that are applied. -/
  directives : List String := []
  deriving Inhabited

structure EnumValue where
  name : String
  description : Option String := none
  deprecation : Option String := none
  deriving Inhabited

/-- What sets the kinds of types apart. -/
inductive Shape where
  | scalar (specifiedBy : Option String)
  | object (interfaces : List String) (fields : List Field)
  | interface (interfaces : List String) (fields : List Field)
  | union (members : List String)
  | enum (values : List EnumValue)
  | input (fields : List InputValue) (isOneOf : Bool)
  deriving Inhabited

structure NamedType where
  name : String
  description : Option String := none
  directives : List String := []
  shape : Shape
  deriving Inhabited

structure Directive where
  name : String
  description : Option String := none
  arguments : List InputValue := []
  isRepeatable : Bool := false
  locations : List Sdl.Location
  deprecation : Option String := none
  deriving Inhabited

/-- The types that operations start from. -/
structure Roots where
  query : Option String := none
  mutation : Option String := none
  subscription : Option String := none
  deriving Inhabited

def Roots.names (roots : Roots) : List String :=
  roots.query.toList ++ roots.mutation.toList ++ roots.subscription.toList

namespace Shape

def kind : Shape → Sdl.TypeBody.Kind
  | .scalar _ => .scalar
  | .object .. => .object
  | .interface .. => .interface
  | .union _ => .union
  | .enum _ => .enum
  | .input .. => .input

end Shape

def Field.references (field : Field) : List String :=
  field.type.base :: field.arguments.map (·.type.base)

/-- The names that a type refers to: members, or interfaces and then each field with its
arguments, or the fields of an input object. -/
def NamedType.references (type : NamedType) : List String :=
  match type.shape with
  | .object interfaces fields => interfaces ++ fields.flatMap Field.references
  | .interface interfaces fields => interfaces ++ fields.flatMap Field.references
  | .union members => members
  | .input fields _ => fields.map (·.type.base)
  | _ => []

end Schema

/-- A schema: its types and directives in the order of their definitions, and its root types. -/
structure Schema where
  description : Option String := none
  types : List Schema.NamedType
  directives : List Schema.Directive
  roots : Schema.Roots := {}
  deriving Inhabited

end ConfigSchema
