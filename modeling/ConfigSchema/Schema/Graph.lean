import ConfigSchema.Schema.Order
import ConfigSchema.TypeGraph

/-!
# Type graphs of schemas

The graph of a schema keeps the order of its types.  It has no place for input objects, nor for
the types with which a schema describes itself.
-/

namespace ConfigSchema

namespace Schema

def Field.toGraph (field : Field) : ConfigSchema.Field :=
  { name := field.name, type := field.type, description := field.description
    directives := field.directives }

def Shape.toGraph? : Shape → Option TypeShape
  | .scalar _ => some .scalar
  | .object interfaces fields => some (.object (fields.map Field.toGraph) interfaces)
  | .interface interfaces fields => some (.interface (fields.map Field.toGraph) interfaces)
  | .union members => some (.union members)
  | .enum values => some (.enum (values.map (·.name)))
  | .input .. => none

def NamedType.toGraph? (type : NamedType) : Option TypeDef :=
  if Sdl.BuiltIn.introspectionNames.contains type.name then none
  else
    type.shape.toGraph?.map fun shape =>
      { name := type.name, description := type.description, directives := type.directives
        shape }

def toGraph (schema : Schema) : TypeGraph :=
  TypeGraph.ofTypes (schema.orderedTypes.filterMap NamedType.toGraph?)
    (schema.directives.map (·.name))

end Schema

end ConfigSchema
