import ConfigSchema.Sdl.BuiltIn

/-!
# Valid documents

A document is valid if its names are unique in their places and every name that it uses is
defined and fits its place.  Each rule is a test of its own.  Names are collected first: the
places at which directives are applied, the types that are referred to, the lists of arguments,
and the values.
-/

namespace ConfigSchema

namespace Sdl

/-- The things to which directives may be applied in several places of a document. -/
inductive Owner where
  | schema
  | type (name : String)
  deriving DecidableEq, Inhabited

/-- A place with the directives that are applied there. -/
structure Place where
  /-- What the place belongs to, if other places belong to the same. -/
  owner : Option Owner := none
  location : Location
  directives : List Directive
  deriving Inhabited

/-! ## What documents hold -/

def InputValue.place (location : Location) (input : InputValue) : Place :=
  { location, directives := input.directives }

def FieldDefinition.places (field : FieldDefinition) : List Place :=
  { location := .fieldDefinition, directives := field.directives } ::
    field.arguments.map (InputValue.place .argumentDefinition)

/-- The places inside a type.  The fields that extend an input object count as arguments. -/
def TypeBody.places (isExtension : Bool) : TypeBody → List Place
  | .scalar => []
  | .object _ fields => fields.flatMap FieldDefinition.places
  | .interface _ fields => fields.flatMap FieldDefinition.places
  | .union _ => []
  | .enum values => values.map fun v => { location := .enumValue, directives := v.directives }
  | .input fields =>
      fields.map (InputValue.place
        (if isExtension then .argumentDefinition else .inputFieldDefinition))

def TypeBody.Kind.location : TypeBody.Kind → Location
  | .scalar => .scalar
  | .object => .object
  | .interface => .interface
  | .union => .union
  | .enum => .enum
  | .input => .inputObject

def TypeNode.places (isExtension : Bool) (node : TypeNode) : List Place :=
  { owner := some (.type node.name), location := node.body.kind.location
    directives := node.directives } :: node.body.places isExtension

def Operation.location : Operation → Location
  | .query => .query
  | .mutation => .mutation
  | .subscription => .subscription

mutual

def Selection.places : Selection → List Place
  | .field _ _ _ directives selections =>
      { location := .field, directives } :: placesOfAll selections
  | .spread _ directives => [{ location := .fragmentSpread, directives }]
  | .inline _ directives selections =>
      { location := .inlineFragment, directives } :: placesOfAll selections

def placesOfAll : List Selection → List Place
  | [] => []
  | s :: rest => s.places ++ placesOfAll rest

end

/-- The places of a definition at which directives may be applied. -/
def Definition.places : Definition → List Place
  | .schema _ directives _ => [{ owner := some .schema, location := .schema, directives }]
  | .schemaExtension directives _ =>
      [{ owner := some .schema, location := .schema, directives }]
  | .type _ node => node.places false
  | .typeExtension node => node.places true
  | .directive d => d.arguments.map (InputValue.place .argumentDefinition)
  | .operation d =>
      { location := d.operation.location, directives := d.directives } ::
        d.parameters.map (fun v => { location := .variableDefinition, directives := v.directives })
          ++ placesOfAll d.selections
  | .fragment d =>
      { location := .fragmentDefinition, directives := d.directives } :: placesOfAll d.selections

mutual

def Selection.typeNames : Selection → List String
  | .field _ _ _ _ selections => typeNamesOfAll selections
  | .spread _ _ => []
  | .inline type _ selections => type.toList ++ typeNamesOfAll selections

def typeNamesOfAll : List Selection → List String
  | [] => []
  | s :: rest => s.typeNames ++ typeNamesOfAll rest

end

def FieldDefinition.typeNames (field : FieldDefinition) : List String :=
  field.type.base :: field.arguments.map (·.type.base)

def TypeBody.typeNames : TypeBody → List String
  | .scalar => []
  | .object interfaces fields => interfaces ++ fields.flatMap FieldDefinition.typeNames
  | .interface interfaces fields => interfaces ++ fields.flatMap FieldDefinition.typeNames
  | .union members => members
  | .enum _ => []
  | .input fields => fields.map (·.type.base)

def Definition.typeNames : Definition → List String
  | .schema _ _ operations => operations.map (·.2)
  | .schemaExtension _ operations => operations.map (·.2)
  | .type _ node => node.body.typeNames
  | .typeExtension node => node.body.typeNames
  | .directive d => d.arguments.map (·.type.base)
  | .operation d => d.parameters.map (·.type.base) ++ typeNamesOfAll d.selections
  | .fragment d => d.type :: typeNamesOfAll d.selections

/-- Whether a definition belongs to a request and not to a schema. -/
def Definition.isExecutable : Definition → Bool
  | .operation _ => true
  | .fragment _ => true
  | _ => false

mutual

def Selection.fieldArguments : Selection → List (List (String × Value))
  | .field _ _ arguments _ selections => arguments :: fieldArgumentsOfAll selections
  | .spread _ _ => []
  | .inline _ _ selections => fieldArgumentsOfAll selections

def fieldArgumentsOfAll : List Selection → List (List (String × Value))
  | [] => []
  | s :: rest => s.fieldArguments ++ fieldArgumentsOfAll rest

end

/-- The lists of arguments that a definition gives to fields and directives. -/
def Definition.argumentLists (definition : Definition) : List (List (String × Value)) :=
  (match definition with
    | .operation d => fieldArgumentsOfAll d.selections
    | .fragment d => fieldArgumentsOfAll d.selections
    | _ => []) ++
    definition.places.flatMap fun place => place.directives.map (·.arguments)

def TypeBody.defaults : TypeBody → List (Option Value)
  | .object _ fields => fields.flatMap fun field => field.arguments.map (·.default)
  | .interface _ fields => fields.flatMap fun field => field.arguments.map (·.default)
  | .input fields => fields.map (·.default)
  | _ => []

/-- The values of a definition: its defaults and all that is given as an argument. -/
def Definition.values (definition : Definition) : List Value :=
  (match definition with
    | .type _ node => node.body.defaults.filterMap id
    | .typeExtension node => node.body.defaults.filterMap id
    | .directive d => d.arguments.filterMap (·.default)
    | .operation d => d.parameters.filterMap (·.default)
    | _ => []) ++
    definition.argumentLists.flatMap fun arguments => arguments.map (·.2)

mutual

/-- The names of the fields of each object in a value. -/
def Value.fieldNames : Value → List (List String)
  | .list items => fieldNamesOfAll items
  | .object fields => fields.map (·.1) :: fieldNamesOfFields fields
  | _ => []

def fieldNamesOfAll : List Value → List (List String)
  | [] => []
  | v :: rest => v.fieldNames ++ fieldNamesOfAll rest

def fieldNamesOfFields : List (String × Value) → List (List String)
  | [] => []
  | (_, v) :: rest => v.fieldNames ++ fieldNamesOfFields rest

end

/-! ## The rules -/

namespace Document

def areUnique {α : Type} [DecidableEq α] (items : List α) : Bool :=
  decide items.Nodup

def definedTypes (document : Document) : List String :=
  document.filterMap Definition.definedType?

def typeNodes (document : Document) : List TypeNode :=
  document.filterMap fun
    | .type _ node => some node
    | .typeExtension node => some node
    | _ => none

def directiveDefinitions (document : Document) : List DirectiveDefinition :=
  document.filterMap fun
    | .directive d => some d
    | _ => none

/-- The definition of a directive that a document uses: its own, else the built-in one. -/
def directive? (document : Document) (name : String) : Option DirectiveDefinition :=
  (document.directiveDefinitions.find? (·.name = name)).or
    (BuiltIn.directives.find? (·.name = name))

/-- The operation types of the schema and its extensions. -/
def operations (document : Document) : List (Operation × String) :=
  document.flatMap fun
    | .schema _ _ operations => operations
    | .schemaExtension _ operations => operations
    | _ => []

def hasOneSchema (document : Document) : Bool :=
  (document.countP fun
    | .schema .. => true
    | _ => false) ≤ 1

def hasUniqueOperations (document : Document) : Bool :=
  areUnique (document.operations.map (·.1))

def hasUniqueTypes (document : Document) : Bool :=
  areUnique document.definedTypes

def hasUniqueEnumValues (document : Document) : Bool :=
  areUnique (document.typeNodes.flatMap fun node =>
    match node.body with
    | .enum values => values.map fun v => (node.name, v.name)
    | _ => [])

/-- The fields of a type and its extensions have different names. -/
def hasUniqueFields (document : Document) : Bool :=
  areUnique (document.typeNodes.flatMap fun node =>
    match node.body with
    | .object _ fields => fields.map fun f => (node.name, f.name)
    | .interface _ fields => fields.map fun f => (node.name, f.name)
    | .input fields => fields.map fun f => (node.name, f.name)
    | _ => [])

def hasUniqueArgumentDefinitions (document : Document) : Bool :=
  (document.directiveDefinitions.all fun d => areUnique (d.arguments.map (·.name))) &&
    document.typeNodes.all fun node =>
      match node.body with
      | .object _ fields => fields.all fun f => areUnique (f.arguments.map (·.name))
      | .interface _ fields => fields.all fun f => areUnique (f.arguments.map (·.name))
      | _ => true

def hasUniqueDirectives (document : Document) : Bool :=
  areUnique (document.directiveDefinitions.map (·.name))

/-- Types that are referred to are defined; outside of requests the built-in ones are, too. -/
def hasKnownTypes (document : Document) : Bool :=
  let defined := document.definedTypes
  document.all fun definition =>
    definition.typeNames.all fun name =>
      defined.contains name || (!definition.isExecutable && BuiltIn.typeNames.contains name)

def places (document : Document) : List Place :=
  document.flatMap Definition.places

/-- Directives are defined, for the place at which they are applied. -/
def hasKnownDirectives (document : Document) : Bool :=
  document.places.all fun place =>
    place.directives.all fun applied =>
      match document.directive? applied.name with
      | some d => d.locations.contains place.location
      | none => false

/-- Whether a directive may be applied only once. -/
def isSingle (document : Document) (name : String) : Bool :=
  match document.directive? name with
  | some d => !d.isRepeatable
  | none => false

def singleNames (document : Document) (place : Place) : List String :=
  (place.directives.map (·.name)).filter document.isSingle

/-- Directives that do not repeat are applied once at each place, where the places of one owner
count as one. -/
def hasUniqueApplications (document : Document) : Bool :=
  (document.places.all fun place =>
    place.owner.isSome || areUnique (document.singleNames place)) &&
    areUnique (document.places.flatMap fun place =>
      match place.owner with
      | some owner => (document.singleNames place).map fun name => (owner, name)
      | none => [])

/-- Extended types are defined, with the same kind. -/
def hasPossibleExtensions (document : Document) : Bool :=
  document.all fun
    | .typeExtension node =>
        document.any fun
          | .type _ defined =>
              defined.name = node.name && decide (defined.body.kind = node.body.kind)
          | _ => false
    | _ => true

def applications (document : Document) : List Directive :=
  document.places.flatMap (·.directives)

/-- Directives are given no arguments but those that they define. -/
def hasKnownArguments (document : Document) : Bool :=
  document.applications.all fun applied =>
    match document.directive? applied.name with
    | some d => applied.arguments.all fun (name, _) => d.arguments.any (·.name = name)
    | none => true

def hasUniqueArguments (document : Document) : Bool :=
  document.all fun definition =>
    definition.argumentLists.all fun arguments => areUnique (arguments.map (·.1))

def hasUniqueObjectFields (document : Document) : Bool :=
  document.all fun definition =>
    definition.values.all fun v => v.fieldNames.all fun names => areUnique names

/-- Directives are given every argument that is required and has no default. -/
def hasRequiredArguments (document : Document) : Bool :=
  document.applications.all fun applied =>
    match document.directive? applied.name with
    | some d =>
        d.arguments.all fun argument =>
          !argument.type.isRequired || argument.default.isSome ||
            applied.arguments.any (·.1 = argument.name)
    | none => true

def rules : List (Document → Bool) :=
  [hasOneSchema, hasUniqueOperations, hasUniqueTypes, hasUniqueEnumValues, hasUniqueFields,
    hasUniqueArgumentDefinitions, hasUniqueDirectives, hasKnownTypes, hasKnownDirectives,
    hasUniqueApplications, hasPossibleExtensions, hasKnownArguments, hasUniqueArguments,
    hasUniqueObjectFields, hasRequiredArguments]

def isValid (document : Document) : Bool :=
  rules.all fun rule => rule document

end Document

end Sdl

end ConfigSchema
