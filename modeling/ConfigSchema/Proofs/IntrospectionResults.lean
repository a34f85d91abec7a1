import ConfigSchema.Introspection.Document
import ConfigSchema.Schema.OfDocument
import ConfigSchema.Schema.Order
import ConfigSchema.Sdl.Printer

/-!
# Introspection results

The standard introspection result of a schema lists its types in order, the built-in ones among
them, and its directives.  References stand in full, layer by layer, and defaults are the texts of
their normal forms.  A default that does not fit its type is left out; where one that fits has no
literal, the schema has no introspection result.
-/

namespace ConfigSchema

def Json.ofText? : Option String → Json
  | none => .null
  | some text => .str text

/-- The word for a kind in an introspection result. -/
def Sdl.TypeBody.Kind.word : Sdl.TypeBody.Kind → String
  | .scalar => "SCALAR"
  | .object => "OBJECT"
  | .interface => "INTERFACE"
  | .union => "UNION"
  | .enum => "ENUM"
  | .input => "INPUT_OBJECT"

namespace Schema

/-- The arguments of the fields of a type, or the fields of an input object. -/
def Shape.inputValues : Shape → List InputValue
  | .object _ fields => fields.flatMap (·.arguments)
  | .interface _ fields => fields.flatMap (·.arguments)
  | .input fields _ => fields
  | _ => []

/-- All values of a schema that may have a default. -/
def inputValues (schema : Schema) : List InputValue :=
  schema.directives.flatMap (·.arguments) ++ schema.types.flatMap (·.shape.inputValues)

theorem mem_inputValues_of_type {schema : Schema} {type : NamedType}
    (htype : type ∈ schema.types) {input : InputValue} (hinput : input ∈ type.shape.inputValues) :
    input ∈ schema.inputValues :=
  List.mem_append_right _ (List.mem_flatMap.2 ⟨type, htype, hinput⟩)

theorem mem_inputValues_of_directive {schema : Schema} {d : Directive}
    (hd : d ∈ schema.directives) {input : InputValue} (hinput : input ∈ d.arguments) :
    input ∈ schema.inputValues :=
  List.mem_append_left _ (List.mem_flatMap.2 ⟨d, hd, hinput⟩)

/-- The input objects of a loaded schema with the constants of their defaults. -/
def settledInputs [Runtime] (schema : Schema) : Settled :=
  (schema.settledInputs? Runtime.settlingDepth).getD []

/-- The normal form of a default, if it fits and has one. -/
def normalDefault [Runtime] (schema : Schema) (input : InputValue) :
    Except Unwritable (Option Sdl.Value) :=
  Introspection.Document.defaultOf schema schema.settledInputs input

/-- The text of a default in an introspection result. -/
def defaultText? [Runtime] (schema : Schema) (input : InputValue) : Option String :=
  match schema.normalDefault input with
  | .ok value => value.map Sdl.Printer.value
  | .error _ => none

end Schema

namespace Introspection

namespace Result

variable (schema : Schema)

def ofRef : TypeRef → Json
  | .named name =>
      .obj [("kind", .ofText? ((schema.type? name).map (·.shape.kind.word))), ("name", .str name),
        ("ofType", .null)]
  | .list of => .obj [("kind", .str "LIST"), ("name", .null), ("ofType", ofRef of)]
  | .required of => .obj [("kind", .str "NON_NULL"), ("name", .null), ("ofType", ofRef of)]

def ofNames (names : List String) : Json :=
  .arr (names.map fun name => ofRef schema (.named name))

def ofInput [Runtime] (input : Schema.InputValue) : Json :=
  .obj [("name", .str input.name), ("description", .ofText? input.description),
    ("type", ofRef schema input.type), ("defaultValue", .ofText? (schema.defaultText? input)),
    ("isDeprecated", .bool input.deprecation.isSome),
    ("deprecationReason", .ofText? input.deprecation)]

def ofField [Runtime] (field : Schema.Field) : Json :=
  .obj [("name", .str field.name), ("description", .ofText? field.description),
    ("args", .arr (field.arguments.map (ofInput schema))), ("type", ofRef schema field.type),
    ("isDeprecated", .bool field.deprecation.isSome),
    ("deprecationReason", .ofText? field.deprecation)]

def ofEnumValue (value : Schema.EnumValue) : Json :=
  .obj [("name", .str value.name), ("description", .ofText? value.description),
    ("isDeprecated", .bool value.deprecation.isSome),
    ("deprecationReason", .ofText? value.deprecation)]

/-- The object types that list an interface. -/
def implementors (name : String) : List String :=
  schema.orderedTypes.filterMap fun type =>
    match type.shape with
    | .object interfaces _ => if interfaces.contains name then some type.name else none
    | _ => none

def ofType [Runtime] (type : Schema.NamedType) : Json :=
  .obj [("kind", .str type.shape.kind.word), ("name", .str type.name),
    ("description", .ofText? type.description),
    ("specifiedByURL", match type.shape with
      | .scalar url => .ofText? url
      | _ => .null),
    ("isOneOf", match type.shape with
      | .input _ isOneOf => .bool isOneOf
      | _ => .null),
    ("fields", match type.shape with
      | .object _ fields => .arr (fields.map (ofField schema))
      | .interface _ fields => .arr (fields.map (ofField schema))
      | _ => .null),
    ("inputFields", match type.shape with
      | .input fields _ => .arr (fields.map (ofInput schema))
      | _ => .null),
    ("interfaces", match type.shape with
      | .object interfaces _ => ofNames schema interfaces
      | .interface interfaces _ => ofNames schema interfaces
      | _ => .null),
    ("enumValues", match type.shape with
      | .enum values => .arr (values.map ofEnumValue)
      | _ => .null),
    ("possibleTypes", match type.shape with
      | .interface _ _ => ofNames schema (implementors schema type.name)
      | .union members => ofNames schema members
      | _ => .null)]

def ofDirective [Runtime] (d : Schema.Directive) : Json :=
  .obj [("name", .str d.name), ("description", .ofText? d.description),
    ("isRepeatable", .bool d.isRepeatable),
    ("locations", Json.texts (d.locations.map (·.name))),
    ("args", .arr (d.arguments.map (ofInput schema)))]

def ofRoot : Option String → Json
  | none => .null
  | some name => .obj [("name", .str name)]

def ofSchema [Runtime] : Json :=
  .obj [("__schema", .obj [("description", .ofText? schema.description),
    ("queryType", ofRoot schema.roots.query), ("mutationType", ofRoot schema.roots.mutation),
    ("subscriptionType", ofRoot schema.roots.subscription),
    ("types", .arr (schema.orderedTypes.map (ofType schema))),
    ("directives", .arr (schema.directives.map (ofDirective schema)))])]

end Result

end Introspection

/-- The standard introspection result of a schema, if all its defaults can be written. -/
def Schema.introspection? [Runtime] (schema : Schema) : Option Json :=
  if schema.inputValues.all fun input => (schema.normalDefault input).isOk then
    some (Introspection.Result.ofSchema schema)
  else none

end ConfigSchema
