import ConfigSchema.Schema.Basic
import ConfigSchema.Sdl.BuiltIn

/-!
# Built-in types

Every schema has five scalars, and eight types with which it describes itself.  They stand for
their names whatever a document says about them.
-/

namespace ConfigSchema

namespace Schema

namespace BuiltIn

def scalarType (name description : String) : NamedType :=
  { name, description := some description, shape := .scalar none }

def scalars : List NamedType :=
  [scalarType "String"
      ("The \x60String\x60 scalar type represents textual data, represented as UTF-8 " ++
        "character sequences. The String type is most often used by GraphQL to represent " ++
        "free-form human-readable text."),
    scalarType "Int"
      ("The \x60Int\x60 scalar type represents non-fractional signed whole numeric " ++
        "values. Int can represent values between -(2^31) and 2^31 - 1."),
    scalarType "Float"
      ("The \x60Float\x60 scalar type represents signed double-precision fractional " ++
        "values as specified by [IEEE " ++
        "754](https://en.wikipedia.org/wiki/IEEE_floating_point)."),
    scalarType "Boolean"
      "The \x60Boolean\x60 scalar type represents \x60true\x60 or \x60false\x60.",
    scalarType "ID"
      ("The \x60ID\x60 scalar type represents a unique identifier, often used to refetch " ++
        "an object or as key for a cache. The ID type appears in a JSON response as a " ++
        "String; however, it is not intended to be human-readable. When expected as an " ++
        "input type, any string (such as \x60\"4\"\x60) or integer (such as \x604\x60) " ++
        "input value will be accepted as an ID.")]

/-! ## The types of introspection -/

def optional (name : String) : TypeRef := .named name

def needed (name : String) : TypeRef := .required (.named name)

def listOf (name : String) : TypeRef := .list (needed name)

def neededListOf (name : String) : TypeRef := .required (listOf name)

def plainField (name : String) (type : TypeRef) : Field := { name, type }

/-- A field that leaves out what is deprecated unless it is asked for. -/
def filteredField (name : String) (type : TypeRef) : Field :=
  { name, type
    arguments := [
      { name := "includeDeprecated", type := optional "Boolean"
        default := some (.boolean false) }] }

def objectType (name : String) (fields : List Field) : NamedType :=
  { name, shape := .object [] fields }

def enumType (name : String) (values : List String) : NamedType :=
  { name, shape := .enum (values.map fun value => { name := value }) }

def schemaType : NamedType :=
  objectType "__Schema" [
    plainField "description" (optional "String"), plainField "types" (neededListOf "__Type"),
    plainField "queryType" (needed "__Type"), plainField "mutationType" (optional "__Type"),
    plainField "subscriptionType" (optional "__Type"),
    plainField "directives" (neededListOf "__Directive")]

def directiveType : NamedType :=
  objectType "__Directive" [
    plainField "name" (needed "String"), plainField "description" (optional "String"),
    plainField "isRepeatable" (needed "Boolean"),
    plainField "locations" (neededListOf "__DirectiveLocation"),
    filteredField "args" (neededListOf "__InputValue")]

def directiveLocationType : NamedType :=
  enumType "__DirectiveLocation" (Sdl.Location.table.map (·.1))

def typeType : NamedType :=
  objectType "__Type" [
    plainField "kind" (needed "__TypeKind"), plainField "name" (optional "String"),
    plainField "description" (optional "String"),
    plainField "specifiedByURL" (optional "String"),
    filteredField "fields" (listOf "__Field"), plainField "interfaces" (listOf "__Type"),
    plainField "possibleTypes" (listOf "__Type"),
    filteredField "enumValues" (listOf "__EnumValue"),
    filteredField "inputFields" (listOf "__InputValue"),
    plainField "ofType" (optional "__Type"), plainField "isOneOf" (optional "Boolean")]

def fieldType : NamedType :=
  objectType "__Field" [
    plainField "name" (needed "String"), plainField "description" (optional "String"),
    filteredField "args" (neededListOf "__InputValue"), plainField "type" (needed "__Type"),
    plainField "isDeprecated" (needed "Boolean"),
    plainField "deprecationReason" (optional "String")]

def inputValueType : NamedType :=
  objectType "__InputValue" [
    plainField "name" (needed "String"), plainField "description" (optional "String"),
    plainField "type" (needed "__Type"), plainField "defaultValue" (optional "String"),
    plainField "isDeprecated" (needed "Boolean"),
    plainField "deprecationReason" (optional "String")]

def enumValueType : NamedType :=
  objectType "__EnumValue" [
    plainField "name" (needed "String"), plainField "description" (optional "String"),
    plainField "isDeprecated" (needed "Boolean"),
    plainField "deprecationReason" (optional "String")]

def typeKindType : NamedType :=
  enumType "__TypeKind"
    ["SCALAR", "OBJECT", "INTERFACE", "UNION", "ENUM", "INPUT_OBJECT", "LIST", "NON_NULL"]

def introspectionTypes : List NamedType :=
  [schemaType, directiveType, directiveLocationType, typeType, fieldType, inputValueType,
    enumValueType, typeKindType]

def types : List NamedType :=
  scalars ++ introspectionTypes

def type? (name : String) : Option NamedType :=
  types.find? (·.name = name)

theorem names_types : types.map (·.name) = Sdl.BuiltIn.typeNames := rfl

end BuiltIn

/-- The type that a name stands for: the built-in one, else the one that the schema defines. -/
def type? (schema : Schema) (name : String) : Option NamedType :=
  (BuiltIn.type? name).or (schema.types.find? (·.name = name))

end Schema

end ConfigSchema
