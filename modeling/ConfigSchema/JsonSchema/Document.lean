import ConfigSchema.Json.Display
import ConfigSchema.Json.Printer
import ConfigSchema.JsonSchema.Expansion
import ConfigSchema.Marks
import ConfigSchema.Settings

/-!
# Schema documents

The fields of the root type become the properties of the document; every other object type
becomes a definition under its name.  A list of required names that is empty is left out, for a
schema must not hold one.
-/

namespace ConfigSchema

/-- The properties of an object and the names of those that are required. -/
structure Properties where
  nodes : Entries Node := []
  required : List String := []
  deriving Inhabited

structure Definition where
  title : String
  properties : Properties
  /-- Whether undeclared properties are allowed. -/
  isOpen : Bool
  deriving Inhabited

/-- A schema of the root type and the definitions that it refers to. -/
structure SchemaDocument where
  schemaUri : Json
  title : Json
  root : Properties
  definitions : Entries Definition
  deriving Inhabited

namespace Properties

/-- The keys of a schema for objects: those in front, the properties, the required names, and
whether more properties may occur. -/
def toJson (properties : Properties) (front : List (String × Json)) (isOpen : Bool) :
    List (String × Json) :=
  front ++ [("type", .str "object"),
    ("properties", .obj (properties.nodes.map fun (name, node) => (name, node.toJson)))] ++
    (if properties.required.isEmpty then [] else
      [("required", Json.texts properties.required)]) ++
    [("additionalProperties", .bool isOpen)]

end Properties

def Definition.toJson (definition : Definition) : Json :=
  .obj (definition.properties.toJson [("title", .str definition.title)] definition.isOpen)

namespace SchemaDocument

def toJson (document : SchemaDocument) : Json :=
  .obj (document.root.toJson
      [("$schema", document.schemaUri), ("title", document.title)] false ++
    [("definitions", .obj (document.definitions.map fun (name, definition) =>
      (name, definition.toJson)))])

/-- How a document is laid out; it ends in a line break. -/
def render [Runtime] (document : SchemaDocument) (style : Json.Indentation) : String :=
  document.toJson.render style ++ "\n"

/-- The text of a document. -/
def text [Runtime] (document : SchemaDocument) (style : Json.Indentation) :
    Except Json.Limit String :=
  (document.toJson.written style).map (· ++ "\n")

end SchemaDocument

inductive DocumentError where
  | graph (cause : GraphError)
  /-- No object type has the name of the root. -/
  | rootNotFound (root : Json)
  deriving Inhabited

def DocumentError.message [Runtime] : DocumentError → Option String
  | .graph (.unknownType name) => some name
  | .graph _ => none
  | .rootNotFound root =>
      some ("Root type '" ++ root.display ++ "' is not defined as an object type in the schema")

/-- Whether a setting names a type. -/
def Json.isName (value : Json) (name : String) : Bool :=
  match value with
  | .str text => text = name
  | _ => false

namespace TypeGraph

/-- The calls that are active when the fields of an object type are compiled. -/
def whileBuilding : List Call := [.buildProperties, .compile]

/-- The properties of the fields of a type.  Where a name repeats, the last field gives the node
and every one that is required is listed. -/
def properties [Runtime] (graph : TypeGraph) (describe : Bool) (fields : List Field) :
    Except GraphError Properties :=
  inRoom whileBuilding
    ((fields.mapM fun field =>
        (graph.fieldNode describe field whileBuilding).map (field.name, ·)).map
      fun nodes =>
        { nodes := Entries.ofList nodes
          required := (fields.filter (·.type.isRequired)).map (·.name) })

/-- The properties of every object type, in order. -/
def objectProperties [Runtime] (graph : TypeGraph) (describe : Bool) :
    Except GraphError (List (TypeDef × Properties)) :=
  inRoom [.compile]
    (graph.objects.mapM fun type => (graph.properties describe type.fields).map (type, ·))

def definitionOf (type : TypeDef) (properties : Properties) : Definition :=
  { title := type.name, properties, isOpen := type.directives.contains openDirective }

/-- The root under which a graph is compiled: the one that is asked for, or that of the
settings if none is. -/
def rootFor (asked : Json) (settings : Settings) : Json :=
  if asked.isTruthy then asked else settings.rootType

def document [Runtime] (graph : TypeGraph) (settings : Settings) (asked : Json := .null) :
    Except DocumentError SchemaDocument :=
  let root := rootFor asked settings
  match graph.objectProperties settings.describeVariants.isTruthy with
  | .error e => .error (.graph e)
  | .ok built =>
      let roots := built.filter fun (type, _) => root.isName type.name
      let others := built.filter fun (type, _) => !root.isName type.name
      if roots.isEmpty && !settings.allowMissingRoot.isTruthy then .error (.rootNotFound root)
      else
        .ok {
          schemaUri := settings.schemaUri
          title := settings.title
          root := ((roots.getLast?).map (·.2)).getD {}
          definitions := Entries.ofList (others.map fun (type, properties) =>
            (type.name, definitionOf type properties)) }

def hasRoot (graph : TypeGraph) (root : Json) : Bool :=
  graph.objects.any fun type => root.isName type.name

end TypeGraph

end ConfigSchema
