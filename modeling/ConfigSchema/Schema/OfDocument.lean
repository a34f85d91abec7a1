import ConfigSchema.Runtime
import ConfigSchema.Schema.Order
import ConfigSchema.Schema.Settling
import ConfigSchema.Sdl.Validity

/-!
# Schemas of documents

A document has a schema if it is valid, the arguments of the directives that the schema itself
reads fit, every type is used where its kind may be used, and every input object can be settled.
Extensions add to their type in the order in which they stand, wherever that is.
-/

namespace ConfigSchema

namespace Schema

/-! ## Directives that schemas read -/

/-- The value that the first application of a directive gives to an argument; the outer level is
missing where the directive is not applied. -/
def appliedArgument? (directives : List Sdl.Directive) (name argument : String) :
    Option (Option Sdl.Value) :=
  (directives.find? (·.name = name)).map fun applied => applied.arguments.lookup argument

/-- The reason for a deprecation, if there is one; nothing at all if it is not a text. -/
def deprecation? (directives : List Sdl.Directive) : Option (Option String) :=
  match appliedArgument? directives "deprecated" "reason" with
  | none => some none
  | some none => some (some Sdl.BuiltIn.deprecationReason)
  | some (some (.string literal)) => some (some literal.value)
  | some (some .null) => some none
  | some (some _) => none

/-- The address of the specification of a scalar, if there is one; nothing at all if it is not a
text. -/
def specifiedBy? (directives : List Sdl.Directive) : Option (Option String) :=
  match appliedArgument? directives "specifiedBy" "url" with
  | none => some none
  | some (some (.string literal)) => some (some literal.value)
  | some _ => none

/-! ## Parts -/

def textOf (description : Option Sdl.Literal) : Option String :=
  description.map (·.value)

def inputValue? (input : Sdl.InputValue) : Option InputValue :=
  (deprecation? input.directives).map fun deprecation =>
    { name := input.name, description := textOf input.description, type := input.type
      default := input.default, deprecation }

def field? (field : Sdl.FieldDefinition) : Option Field := do
  let arguments ← field.arguments.mapM inputValue?
  let deprecation ← deprecation? field.directives
  return {
    name := field.name, description := textOf field.description, arguments
    type := field.type, deprecation, directives := field.directives.map (·.name) }

def enumValue? (value : Sdl.EnumValueDefinition) : Option EnumValue :=
  (deprecation? value.directives).map fun deprecation =>
    { name := value.name, description := textOf value.description, deprecation }

def directive? (d : Sdl.DirectiveDefinition) : Option Directive :=
  (d.arguments.mapM inputValue?).map fun arguments =>
    { name := d.name, description := textOf d.description, arguments
      isRepeatable := d.isRepeatable, locations := d.locations }

/-! ## Types -/

/-- What a definition and the extensions of its type say together. -/
def mergedBody (first : Sdl.TypeBody) (more : List Sdl.TypeBody) : Sdl.TypeBody :=
  more.foldl (fun body extension =>
    match body, extension with
    | .object is fs, .object js gs => .object (is ++ js) (fs ++ gs)
    | .interface is fs, .interface js gs => .interface (is ++ js) (fs ++ gs)
    | .union ms, .union ns => .union (ms ++ ns)
    | .enum vs, .enum ws => .enum (vs ++ ws)
    | .input fs, .input gs => .input (fs ++ gs)
    | body, _ => body) first

/-- The shape of a type; its own directives tell what specifies a scalar and whether an input
object takes one field only. -/
def shape? (directives : List Sdl.Directive) : Sdl.TypeBody → Option Shape
  | .scalar => (specifiedBy? directives).map .scalar
  | .object interfaces fields => (fields.mapM field?).map (.object interfaces)
  | .interface interfaces fields => (fields.mapM field?).map (.interface interfaces)
  | .union members => some (.union members)
  | .enum values => (values.mapM enumValue?).map .enum
  | .input fields =>
      (fields.mapM inputValue?).map fun fields =>
        .input fields (directives.any (·.name = "oneOf"))

def extensionsOf (document : Sdl.Document) (name : String) : List Sdl.TypeNode :=
  document.filterMap fun
    | .typeExtension node => if node.name = name then some node else none
    | _ => none

/-- The type of a definition and the extensions of its name; a built-in name stands for the
built-in type. -/
def namedType? (document : Sdl.Document) (description : Option Sdl.Literal)
    (node : Sdl.TypeNode) : Option NamedType :=
  match BuiltIn.type? node.name with
  | some type => some type
  | none =>
      let extensions := extensionsOf document node.name
      (shape? node.directives (mergedBody node.body (extensions.map (·.body)))).map fun shape =>
        { name := node.name, description := textOf description
          directives := (node.directives ++ extensions.flatMap (·.directives)).map (·.name)
          shape }

def typesOf? (document : Sdl.Document) : Option (List NamedType) :=
  (document.filterMap fun
    | .type description node => some (description, node)
    | _ => none).mapM fun (description, node) => namedType? document description node

/-! ## Directives and roots -/

/-- The directives of a document, and behind them the built-in ones that it does not define. -/
def directivesOf? (document : Sdl.Document) : Option (List Directive) :=
  let own := document.directiveDefinitions
  (own ++ Sdl.BuiltIn.directives.filter fun d => !own.any (·.name = d.name)).mapM directive?

/-- The root types: those that the schema and its extensions name.  Where no schema is defined,
the types of the usual names take their places. -/
def rootsOf (document : Sdl.Document) : Roots :=
  let hasSchema := document.any fun
    | .schema .. => true
    | _ => false
  let root (operation : Sdl.Operation) (usual : String) : Option String :=
    let named := ((document.operations.filter (·.1 = operation)).getLast?).map (·.2)
    if !hasSchema && document.definedTypes.contains usual then some usual else named
  { query := root .query "Query", mutation := root .mutation "Mutation"
    subscription := root .subscription "Subscription" }

def descriptionOf (document : Sdl.Document) : Option String :=
  document.findSome? fun
    | .schema description _ _ => textOf description
    | _ => none

/-! ## Uses of types -/

def isKind (schema : Schema) (test : Sdl.TypeBody.Kind → Bool) (name : String) : Bool :=
  match schema.type? name with
  | some type => test type.shape.kind
  | none => false

def isOutput (schema : Schema) (name : String) : Bool :=
  schema.isKind (· ≠ .input) name

def isInput (schema : Schema) (name : String) : Bool :=
  schema.isKind (fun kind => kind = .scalar || kind = .enum || kind = .input) name

def hasInputArguments (schema : Schema) (arguments : List InputValue) : Bool :=
  arguments.all fun argument => schema.isInput argument.type.base

def hasFittingFields (schema : Schema) (interfaces : List String) (fields : List Field) :
    Bool :=
  interfaces.all (schema.isKind (· = .interface)) &&
    fields.all fun field =>
      schema.isOutput field.type.base && schema.hasInputArguments field.arguments

/-- Whether all that a type refers to is of a kind that fits its place. -/
def hasFittingReferences (schema : Schema) (type : NamedType) : Bool :=
  match type.shape with
  | .object interfaces fields => schema.hasFittingFields interfaces fields
  | .interface interfaces fields => schema.hasFittingFields interfaces fields
  | .union members => members.all (schema.isKind (· = .object))
  | .input fields _ => schema.hasInputArguments fields
  | _ => true

/-- Whether every type is used where its kind may be used. -/
def isWellKinded (schema : Schema) : Bool :=
  schema.types.all schema.hasFittingReferences &&
    schema.directives.all fun d => schema.hasInputArguments d.arguments

def ofDocument? [Runtime] (document : Sdl.Document) : Option Schema := do
  if !document.isValid then none
  else
    let types ← typesOf? document
    let directives ← directivesOf? document
    let schema : Schema :=
      { description := descriptionOf document, types, directives, roots := rootsOf document }
    if schema.isWellKinded && (schema.settledInputs? Runtime.settlingDepth).isSome then
      return schema
    else none

end Schema

end ConfigSchema
