import ConfigSchema.Introspection.Reader

/-!
# Documents of schemas

A schema that was read from a description is written as a document: the schema itself if its root
types have other names than usual or it has a description, its directives, and its types, the
built-in ones left out.  Descriptions are block strings where these can show them, defaults stand
in their normal form, and a default that does not fit its type is left out.  Not every document
of this kind can be read back.
-/

namespace ConfigSchema

namespace Introspection

namespace Document

/-! ## Literals -/

/-- What is known of a text while its characters are read. -/
structure BlockScan where
  isEmptyLine : Bool := true
  hasIndent : Bool := false
  hasCommonIndent : Bool := true
  seenLine : Bool := false

/-- Reads one character; a block cannot show a blank line in front, nor some characters. -/
def BlockScan.next (scan : BlockScan) (c : Char) : Option BlockScan :=
  if c = '\n' then
    if scan.isEmptyLine && !scan.seenLine then none
    else some { scan with seenLine := true, isEmptyLine := true, hasIndent := false }
  else if c = ' ' || c = '\t' then
    some { scan with hasIndent := scan.hasIndent || scan.isEmptyLine }
  else if c.toNat ≤ 0x0F then none
  else
    some { scan with
      hasCommonIndent := scan.hasCommonIndent && scan.hasIndent, isEmptyLine := false }

/-- Whether a block string can show a text: it has no blank lines at its ends, its lines share no
indentation, and it has no character that a block cannot hold. -/
def isBlockText (text : String) : Bool :=
  text = "" ||
    match text.toList.foldlM BlockScan.next {} with
    | none => false
    | some scan => !scan.isEmptyLine && !(scan.hasCommonIndent && scan.seenLine)

def descriptionOf (text : Option String) : Option Sdl.Literal :=
  text.map fun text => { value := text, isBlock := isBlockText text }

def textValue (text : String) : Sdl.Value := .string ⟨text, false⟩

def deprecationOf : Option String → List Sdl.Directive
  | none => []
  | some reason =>
      if reason = Sdl.BuiltIn.deprecationReason then [{ name := "deprecated" }]
      else [{ name := "deprecated", arguments := [("reason", textValue reason)] }]

/-! ## Definitions -/

/-- Parts of a document, unless one of them cannot be written. -/
abbrev Written := Except Schema.Unwritable

/-- The normal form of a default; one that does not fit its type is left out. -/
def defaultOf (schema : Schema) (settled : Schema.Settled) (input : Schema.InputValue) :
    Written (Option Sdl.Value) :=
  match input.default with
  | none => .ok none
  | some value =>
      match schema.fit settled input.type value with
      | .error _ => .ok none
      | .ok constant => (schema.literal settled input.type constant).map some

def typeOf [Runtime] (ref : TypeRef) : Written TypeRef :=
  if Runtime.toldLayers < ref.layers then .error .tooDeep else .ok ref

def inputValue [Runtime] (schema : Schema) (settled : Schema.Settled) (input : Schema.InputValue) :
    Written Sdl.InputValue := do
  let default ← defaultOf schema settled input
  return {
    description := descriptionOf input.description, name := input.name
    type := ← typeOf input.type, default, directives := deprecationOf input.deprecation }

/-- Arguments; an empty description shows only beside one that is not. -/
def arguments [Runtime] (schema : Schema) (settled : Schema.Settled)
    (inputs : List Schema.InputValue) :
    Written (List Sdl.InputValue) :=
  let isDescribed := inputs.any fun input => input.description.any (· ≠ "")
  inputs.mapM fun input => inputValue schema settled
    (if isDescribed then input else { input with description := none })

def field [Runtime] (schema : Schema) (settled : Schema.Settled) (field : Schema.Field) :
    Written Sdl.FieldDefinition := do
  let arguments ← arguments schema settled field.arguments
  return {
    description := descriptionOf field.description, name := field.name, arguments
    type := ← typeOf field.type, directives := deprecationOf field.deprecation }

def enumValue (value : Schema.EnumValue) : Sdl.EnumValueDefinition :=
  { description := descriptionOf value.description, name := value.name
    directives := deprecationOf value.deprecation }

def body [Runtime] (schema : Schema) (settled : Schema.Settled) :
    Schema.Shape → Written Sdl.TypeBody
  | .scalar _ => .ok .scalar
  | .object interfaces fields =>
      (fields.mapM (field schema settled)).map (.object interfaces)
  | .interface interfaces fields =>
      (fields.mapM (field schema settled)).map (.interface interfaces)
  | .union members => .ok (.union members)
  | .enum values => .ok (.enum (values.map enumValue))
  | .input fields _ => (fields.mapM (inputValue schema settled)).map .input

/-- The directives that say what a type is. -/
def directivesOf : Schema.Shape → List Sdl.Directive
  | .scalar (some url) => [{ name := "specifiedBy", arguments := [("url", textValue url)] }]
  | .input _ true => [{ name := "oneOf" }]
  | _ => []

def type [Runtime] (schema : Schema) (settled : Schema.Settled)
    (type : Schema.NamedType) : Written Sdl.Definition :=
  (body schema settled type.shape).map fun body =>
    .type (descriptionOf type.description)
      { name := type.name, directives := directivesOf type.shape, body }

def directive [Runtime] (schema : Schema) (settled : Schema.Settled)
    (d : Schema.Directive) : Written Sdl.Definition :=
  (arguments schema settled d.arguments).map fun arguments =>
    .directive {
      description := descriptionOf d.description, name := d.name, arguments
      isRepeatable := d.isRepeatable, locations := d.locations }

/-! ## Documents -/

def operations (roots : Schema.Roots) : List (Sdl.Operation × String) :=
  (roots.query.map (Sdl.Operation.query, ·)).toList ++
    (roots.mutation.map (Sdl.Operation.mutation, ·)).toList ++
    (roots.subscription.map (Sdl.Operation.subscription, ·)).toList

/-- Whether the root types, as far as there are any, have the usual names. -/
def hasUsualRoots (roots : Schema.Roots) : Bool :=
  roots.query.all (· = "Query") && roots.mutation.all (· = "Mutation") &&
    roots.subscription.all (· = "Subscription")

def schemaDefinition (schema : Schema) : List Sdl.Definition :=
  if schema.description.isNone && hasUsualRoots schema.roots then []
  else [.schema (descriptionOf schema.description) [] (operations schema.roots)]

/-- The directives that are written: all but the built-in ones. -/
def ownDirectives (schema : Schema) : List Schema.Directive :=
  schema.directives.filter fun d => !Sdl.BuiltIn.directiveNames.contains d.name

def definitions [Runtime] (schema : Schema) : Written (List Sdl.Definition) := do
  let settled := (schema.settledInputs? Runtime.toldSettlingDepth).getD []
  let directives ← (ownDirectives schema).mapM (directive schema settled)
  let types ← (schema.types.filter fun type =>
    !Sdl.BuiltIn.typeNames.contains type.name).mapM (type schema settled)
  return schemaDefinition schema ++ directives ++ types

/-! ## Reading back -/

def isReadableText [Runtime] (text : Option Sdl.Literal) : Bool :=
  text.all fun literal => !Text.hasSurrogate literal.value

mutual

/-- Whether no text in a value holds a lone surrogate. -/
def hasReadableTexts [Runtime] : Sdl.Value → Bool
  | .string literal => isReadableText (some literal)
  | .list items => hasReadableItems items
  | .object fields => hasReadableFields fields
  | _ => true

def hasReadableItems [Runtime] : List Sdl.Value → Bool
  | [] => true
  | v :: rest => hasReadableTexts v && hasReadableItems rest

def hasReadableFields [Runtime] : List (String × Sdl.Value) → Bool
  | [] => true
  | (_, v) :: rest => hasReadableTexts v && hasReadableFields rest

end

def isReadableValue [Runtime] (value : Sdl.Value) : Bool :=
  value.depth ≤ Runtime.parsingDepth && hasReadableTexts value

def isReadableType [Runtime] (ref : TypeRef) : Bool :=
  ref.listDepth ≤ Runtime.parsingDepth

def areReadableDirectives [Runtime] (directives : List Sdl.Directive) : Bool :=
  directives.all fun d => d.arguments.all fun (_, v) => isReadableValue v

def isReadableInput [Runtime] (input : Sdl.InputValue) : Bool :=
  isReadableText input.description && isReadableType input.type &&
    input.default.all isReadableValue && areReadableDirectives input.directives

def isReadableField [Runtime] (field : Sdl.FieldDefinition) : Bool :=
  isReadableText field.description && isReadableType field.type &&
    field.arguments.all isReadableInput && areReadableDirectives field.directives

def isReadableEnumValue [Runtime] (value : Sdl.EnumValueDefinition) : Bool :=
  isReadableText value.description && areReadableDirectives value.directives

def isReadableBody [Runtime] : Sdl.TypeBody → Bool
  | .object _ fields => fields.all isReadableField
  | .interface _ fields => fields.all isReadableField
  | .enum values => values.all isReadableEnumValue
  | .input fields => fields.all isReadableInput
  | _ => true

/-- Whether the text of a definition can be read back: a schema needs operations, a directive
needs locations, no text holds a lone surrogate, and nothing nests too deep. -/
def isReadable [Runtime] : Sdl.Definition → Bool
  | .schema description _ operations => isReadableText description && !operations.isEmpty
  | .directive d =>
      isReadableText d.description && d.arguments.all isReadableInput && !d.locations.isEmpty
  | .type description node =>
      isReadableText description && isReadableBody node.body &&
        areReadableDirectives node.directives
  | _ => true

/-- The document of a schema, unless its text cannot be read back.  A deprecated directive cannot
be written in a document at all. -/
def ofDefinitions? [Runtime] (schema : Schema) (definitions : List Sdl.Definition) :
    Option Sdl.Document :=
  if definitions.isEmpty || !definitions.all isReadable ||
      (ownDirectives schema).any (·.deprecation.isSome) then none
  else some definitions

end Document

end Introspection

end ConfigSchema
