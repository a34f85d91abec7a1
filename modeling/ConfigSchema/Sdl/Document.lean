import ConfigSchema.TypeRef

/-!
# Documents of the schema definition language

A document is a list of definitions: of the schema, of types and of directives, extensions of
types and of the schema, and operations and fragments, which say nothing about the schema but
have to make sense beside it.  Literals are kept as they are written as far as a comparison of
two definitions can show it.
-/

namespace ConfigSchema

namespace Sdl

/-- A string literal: its value, and whether it is written as a block. -/
structure Literal where
  value : String
  isBlock : Bool
  deriving DecidableEq, Inhabited

/-- A value as it is written.  Numbers are kept as text. -/
inductive Value where
  | variable (name : String)
  | int (text : String)
  | float (text : String)
  | string (literal : Literal)
  | boolean (value : Bool)
  | null
  | enum (name : String)
  | list (items : List Value)
  | object (fields : List (String × Value))
  deriving Inhabited

mutual

/-- How many lists and objects stand inside each other. -/
def Value.depth : Value → Nat
  | .list items => depthOfAll items + 1
  | .object fields => depthOfFields fields + 1
  | _ => 0

def depthOfAll : List Value → Nat
  | [] => 0
  | v :: rest => max v.depth (depthOfAll rest)

def depthOfFields : List (String × Value) → Nat
  | [] => 0
  | (_, v) :: rest => max v.depth (depthOfFields rest)

end

structure Directive where
  name : String
  arguments : List (String × Value) := []
  deriving Inhabited

inductive Operation where
  | query
  | mutation
  | subscription
  deriving DecidableEq, Inhabited

inductive Location where
  | query
  | mutation
  | subscription
  | field
  | fragmentDefinition
  | fragmentSpread
  | inlineFragment
  | variableDefinition
  | schema
  | scalar
  | object
  | fieldDefinition
  | argumentDefinition
  | interface
  | union
  | enum
  | enumValue
  | inputObject
  | inputFieldDefinition
  | directiveDefinition
  deriving DecidableEq, Inhabited

/-- An argument of a field or a directive, or a field of an input object. -/
structure InputValue where
  description : Option Literal := none
  name : String
  type : TypeRef
  default : Option Value := none
  directives : List Directive := []
  deriving Inhabited

structure FieldDefinition where
  description : Option Literal := none
  name : String
  arguments : List InputValue := []
  type : TypeRef
  directives : List Directive := []
  deriving Inhabited

structure EnumValueDefinition where
  description : Option Literal := none
  name : String
  directives : List Directive := []
  deriving Inhabited

/-- What a definition or an extension says about a type of each kind. -/
inductive TypeBody where
  | scalar
  | object (interfaces : List String) (fields : List FieldDefinition)
  | interface (interfaces : List String) (fields : List FieldDefinition)
  | union (members : List String)
  | enum (values : List EnumValueDefinition)
  | input (fields : List InputValue)
  deriving Inhabited

/-- A type under its name, as it is defined or extended. -/
structure TypeNode where
  name : String
  directives : List Directive := []
  body : TypeBody
  deriving Inhabited

structure DirectiveDefinition where
  description : Option Literal := none
  name : String
  arguments : List InputValue := []
  isRepeatable : Bool := false
  locations : List Location
  deriving Inhabited

/-- What an operation or a fragment selects. -/
inductive Selection where
  | field (responseName : Option String) (name : String) (arguments : List (String × Value))
      (directives : List Directive) (selections : List Selection)
  | spread (fragment : String) (directives : List Directive)
  | inline (type : Option String) (directives : List Directive) (selections : List Selection)
  deriving Inhabited

structure VariableDefinition where
  name : String
  type : TypeRef
  default : Option Value := none
  directives : List Directive := []
  deriving Inhabited

structure OperationDefinition where
  operation : Operation
  name : Option String := none
  parameters : List VariableDefinition := []
  directives : List Directive := []
  selections : List Selection
  deriving Inhabited

structure FragmentDefinition where
  name : String
  type : String
  directives : List Directive := []
  selections : List Selection
  deriving Inhabited

inductive Definition where
  | schema (description : Option Literal) (directives : List Directive)
      (operations : List (Operation × String))
  | type (description : Option Literal) (node : TypeNode)
  | directive (definition : DirectiveDefinition)
  | schemaExtension (directives : List Directive) (operations : List (Operation × String))
  | typeExtension (node : TypeNode)
  | operation (definition : OperationDefinition)
  | fragment (definition : FragmentDefinition)
  deriving Inhabited

abbrev Document := List Definition

def Operation.keyword : Operation → String
  | .query => "query"
  | .mutation => "mutation"
  | .subscription => "subscription"

def Operation.ofKeyword? : String → Option Operation
  | "query" => some .query
  | "mutation" => some .mutation
  | "subscription" => some .subscription
  | _ => none

namespace Location

def table : List (String × Location) :=
  [("QUERY", .query), ("MUTATION", .mutation), ("SUBSCRIPTION", .subscription),
    ("FIELD", .field), ("FRAGMENT_DEFINITION", .fragmentDefinition),
    ("FRAGMENT_SPREAD", .fragmentSpread), ("INLINE_FRAGMENT", .inlineFragment),
    ("VARIABLE_DEFINITION", .variableDefinition), ("SCHEMA", .schema), ("SCALAR", .scalar),
    ("OBJECT", .object), ("FIELD_DEFINITION", .fieldDefinition),
    ("ARGUMENT_DEFINITION", .argumentDefinition), ("INTERFACE", .interface), ("UNION", .union),
    ("ENUM", .enum), ("ENUM_VALUE", .enumValue), ("INPUT_OBJECT", .inputObject),
    ("INPUT_FIELD_DEFINITION", .inputFieldDefinition),
    ("DIRECTIVE_DEFINITION", .directiveDefinition)]

def ofName? (name : String) : Option Location :=
  table.lookup name

def name (location : Location) : String :=
  ((table.find? (·.2 = location)).map (·.1)).getD ""

theorem ofName?_name (location : Location) : ofName? location.name = some location := by
  cases location <;> rfl

end Location

namespace TypeBody

inductive Kind where
  | scalar
  | object
  | interface
  | union
  | enum
  | input
  deriving DecidableEq, Inhabited

def kind : TypeBody → Kind
  | .scalar => .scalar
  | .object .. => .object
  | .interface .. => .interface
  | .union _ => .union
  | .enum _ => .enum
  | .input _ => .input

end TypeBody

def Definition.definedType? : Definition → Option String
  | .type _ node => some node.name
  | _ => none

end Sdl

end ConfigSchema
