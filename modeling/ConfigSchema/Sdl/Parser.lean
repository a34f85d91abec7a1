import ConfigSchema.Sdl.Lexer

/-!
# Reading documents

A reader takes tokens from the front of a list and returns what it has read and the tokens that
follow, or nothing.  What may nest does so up to a limit, which the levels of selections and those
of the values in them share.  Keywords are plain names, recognised by their place.
-/

namespace ConfigSchema

namespace Sdl

/-- A reader of tokens. -/
abbrev Reader := StateT (List Token) Option

namespace Reader

variable {α : Type}

/-! ## Single tokens -/

def fails : Reader α := fun _ => none

/-- Takes the next token if it is the given one, and tells whether it was. -/
def skip? (token : Token) : Reader Bool := fun tokens =>
  match tokens with
  | [] => some (false, [])
  | first :: rest => if first = token then some (true, rest) else some (false, first :: rest)

/-- Takes the given token. -/
def skip (token : Token) : Reader Unit := fun tokens =>
  match tokens with
  | [] => none
  | first :: rest => if first = token then some ((), rest) else none

/-- Whether the given token comes next. -/
def sees (token : Token) : Reader Bool := fun tokens =>
  some (tokens.head? = some token, tokens)

def name : Reader String := fun tokens =>
  match tokens with
  | .name text :: rest => some (text, rest)
  | _ => none

def keyword (text : String) : Reader Unit := skip (.name text)

def keyword? (text : String) : Reader Bool := skip? (.name text)

/-- The reader's own count of tokens that are left. -/
def remaining : Reader Nat := fun tokens => some (tokens.length, tokens)

/-! ## Repetition -/

def itemsUpTo (close : Token) (item : Reader α) : (fuel : Nat) → Reader (List α)
  | 0 => fails
  | fuel + 1 => do
      if ← skip? close then return []
      let first ← item
      let rest ← itemsUpTo close item fuel
      return first :: rest

/-- Any number of items between two marks. -/
def anyBetween (opening closing : Char) (item : Reader α) : Reader (List α) := do
  skip (.mark opening)
  itemsUpTo (.mark closing) item ((← remaining) + 1)

/-- At least one item between two marks. -/
def someBetween (opening closing : Char) (item : Reader α) : Reader (List α) := do
  skip (.mark opening)
  let first ← item
  let rest ← itemsUpTo (.mark closing) item ((← remaining) + 1)
  return first :: rest

/-- At least one item between two marks, or nothing at all. -/
def optionalBetween (opening closing : Char) (item : Reader α) : Reader (List α) := do
  if ← sees (.mark opening) then someBetween opening closing item else return []

/-- Further items, each after a separator. -/
def itemsAfter (separator : Char) (item : Reader α) : (fuel : Nat) → Reader (List α)
  | 0 => fails
  | fuel + 1 => do
      if ← skip? (.mark separator) then
        let first ← item
        let rest ← itemsAfter separator item fuel
        return first :: rest
      else return []

/-- At least one item with separators between them; one may stand in front. -/
def separated (separator : Char) (item : Reader α) : Reader (List α) := do
  let _ ← skip? (.mark separator)
  let first ← item
  let rest ← itemsAfter separator item ((← remaining) + 1)
  return first :: rest

/-! ## Values and types -/

/-- The value that a name stands for. -/
def namedValue : String → Value
  | "true" => .boolean true
  | "false" => .boolean false
  | "null" => .null
  | name => .enum name

/-- A value without parts; variables are refused in constants. -/
def plainValue (isConstant : Bool) : Reader Value := fun tokens =>
  match tokens with
  | .int text :: rest => some (.int text, rest)
  | .float text :: rest => some (.float text, rest)
  | .string literal :: rest => some (.string literal, rest)
  | .name text :: rest => some (namedValue text, rest)
  | .mark '$' :: .name text :: rest => if isConstant then none else some (.variable text, rest)
  | _ => none

/-- A value with no more levels than there is room for. -/
def value (isConstant : Bool) : (room : Nat) → Reader Value
  | 0 => plainValue isConstant
  | room + 1 => do
      if ← sees (.mark '[') then return .list (← anyBetween '[' ']' (value isConstant room))
      else if ← sees (.mark '\x7b') then
        return .object (← anyBetween '\x7b' '\x7d' do
          let name ← name
          skip (.mark ':')
          return (name, ← value isConstant room))
      else plainValue isConstant

/-- A type with no more list layers than there is room for. -/
def typeRefWithin : (room : Nat) → Reader TypeRef
  | 0 => withMark (TypeRef.named <$> name)
  | room + 1 => withMark do
      if ← skip? (.mark '[') then
        let item ← typeRefWithin room
        skip (.mark ']')
        return .list item
      else TypeRef.named <$> name
where
  /-- A type and the mark of what is required. -/
  withMark (inner : Reader TypeRef) : Reader TypeRef := do
    let ref ← inner
    if ← skip? (.mark '!') then return .required ref else return ref

def typeRef [Runtime] : Reader TypeRef := typeRefWithin Runtime.parsingDepth

def argument (isConstant : Bool) (room : Nat) : Reader (String × Value) := do
  let name ← name
  skip (.mark ':')
  return (name, ← value isConstant room)

def arguments (isConstant : Bool) (room : Nat) : Reader (List (String × Value)) :=
  optionalBetween '(' ')' (argument isConstant room)

def directivesFrom (isConstant : Bool) (room : Nat) : (fuel : Nat) → Reader (List Directive)
  | 0 => fails
  | fuel + 1 => do
      if ← skip? (.mark '@') then
        let name ← name
        let arguments ← arguments isConstant room
        let rest ← directivesFrom isConstant room fuel
        return { name, arguments } :: rest
      else return []

def directives [Runtime] (isConstant : Bool := true) (room : Nat := Runtime.parsingDepth) :
    Reader (List Directive) := do
  directivesFrom isConstant room ((← remaining) + 1)

def description : Reader (Option Literal) := fun tokens =>
  match tokens with
  | .string literal :: rest => some (some literal, rest)
  | _ => some (none, tokens)

/-! ## Operations and fragments -/

/-- The name of a fragment, which may not be the word that introduces a type. -/
def fragmentName : Reader String := do
  let name ← name
  if name = "on" then fails else return name

/-- The name of a selected field, and the name it goes by in the answer if that is another. -/
def fieldNames : Reader (Option String × String) := do
  let first ← name
  if ← skip? (.mark ':') then return (some first, ← name) else return (none, first)

/-- A selection, in which there is some room for values; `inner` reads the selections below. -/
def selection [Runtime] (inner : Reader (List Selection)) (room : Nat) : Reader Selection := do
  if ← skip? .spread then
    if ← keyword? "on" then
      let type ← name
      let directives ← directives false room
      return .inline (some type) directives (← inner)
    else
      match ← get with
      | .name _ :: _ =>
          let fragment ← fragmentName
          return .spread fragment (← directives false room)
      | _ =>
          let directives ← directives false room
          return .inline none directives (← inner)
  else
    let (responseName, name) ← fieldNames
    let arguments ← arguments false room
    let directives ← directives false room
    if ← sees (.mark '\x7b') then
      return .field responseName name arguments directives (← inner)
    else return .field responseName name arguments directives []

/-- Selections with no more levels than there is room for. -/
def selectionsWithin [Runtime] : (room : Nat) → Reader (List Selection)
  | 0 => fails
  | room + 1 => someBetween '\x7b' '\x7d' (selection (selectionsWithin room) room)

def selections [Runtime] : Reader (List Selection) := selectionsWithin Runtime.parsingDepth

def defaultValue [Runtime] : Reader (Option Value) := do
  if ← skip? (.mark '=') then some <$> value true Runtime.parsingDepth else return none

/-- A variable; what describes it says nothing about the schema and is passed over. -/
def variableDefinition [Runtime] : Reader VariableDefinition := do
  let _ ← description
  skip (.mark '$')
  let name ← name
  skip (.mark ':')
  let type ← typeRef
  let default ← defaultValue
  return { name, type, default, directives := ← directives }

def operationType : Reader Operation := do
  match Operation.ofKeyword? (← name) with
  | some operation => return operation
  | none => fails

def operation [Runtime] : Reader OperationDefinition := do
  if ← sees (.mark '\x7b') then return { operation := .query, selections := ← selections }
  else
    let operation ← operationType
    let name ← match ← get with
      | .name _ :: _ => some <$> name
      | _ => pure none
    let parameters ← optionalBetween '(' ')' variableDefinition
    let directives ← directives false
    return { operation, name, parameters, directives, selections := ← selections }

def fragment [Runtime] : Reader FragmentDefinition := do
  keyword "fragment"
  let name ← fragmentName
  keyword "on"
  let type ← Reader.name
  let directives ← directives false
  return { name, type, directives, selections := ← selections }

/-! ## Parts of type definitions -/

def inputValue [Runtime] : Reader InputValue := do
  let description ← description
  let name ← name
  skip (.mark ':')
  let type ← typeRef
  let default ← defaultValue
  return { description, name, type, default, directives := ← directives }

def field [Runtime] : Reader FieldDefinition := do
  let description ← description
  let name ← name
  let arguments ← optionalBetween '(' ')' inputValue
  skip (.mark ':')
  let type ← typeRef
  return { description, name, arguments, type, directives := ← directives }

def fields [Runtime] : Reader (List FieldDefinition) := optionalBetween '\x7b' '\x7d' field

/-- An enum value, which may not be one of the words for other values. -/
def enumValue [Runtime] : Reader EnumValueDefinition := do
  let description ← description
  let name ← name
  if ["true", "false", "null"].contains name then fails
  else return { description, name, directives := ← directives }

def interfaces : Reader (List String) := do
  if ← keyword? "implements" then separated '&' name else return []

def members : Reader (List String) := do
  if ← skip? (.mark '=') then separated '|' name else return []

def operationTypeDefinition : Reader (Operation × String) := do
  let operation ← operationType
  skip (.mark ':')
  return (operation, ← name)

/-- What follows the keyword of a type: its name and all that is said about it. -/
def typeNode [Runtime] (keyword : String) : Reader TypeNode := do
  let name ← name
  match keyword with
  | "scalar" => return { name, directives := ← directives, body := .scalar }
  | "type" =>
      let interfaces ← interfaces
      return { name, directives := ← directives, body := .object interfaces (← fields) }
  | "interface" =>
      let interfaces ← interfaces
      return { name, directives := ← directives, body := .interface interfaces (← fields) }
  | "union" => return { name, directives := ← directives, body := .union (← members) }
  | "enum" =>
      return {
        name, directives := ← directives
        body := .enum (← optionalBetween '\x7b' '\x7d' enumValue) }
  | "input" =>
      return {
        name, directives := ← directives
        body := .input (← optionalBetween '\x7b' '\x7d' inputValue) }
  | _ => fails

def location : Reader Location := do
  match Location.ofName? (← name) with
  | some location => return location
  | none => fails

def directiveDefinition [Runtime] (description : Option Literal) : Reader DirectiveDefinition := do
  skip (.mark '@')
  let name ← name
  let arguments ← optionalBetween '(' ')' inputValue
  let isRepeatable ← keyword? "repeatable"
  keyword "on"
  return { description, name, arguments, isRepeatable, locations := ← separated '|' location }

/-! ## Definitions -/

/-- Whether an extension adds anything to its type. -/
def addsSomething (node : TypeNode) : Bool :=
  !node.directives.isEmpty ||
    match node.body with
    | .scalar => false
    | .object interfaces fields => !interfaces.isEmpty || !fields.isEmpty
    | .interface interfaces fields => !interfaces.isEmpty || !fields.isEmpty
    | .union members => !members.isEmpty
    | .enum values => !values.isEmpty
    | .input fields => !fields.isEmpty

/-- An extension after its keyword; it must add something. -/
def extension [Runtime] : Reader Definition := do
  let word ← name
  if word = "schema" then
    let directives ← directives
    let operations ← optionalBetween '\x7b' '\x7d' operationTypeDefinition
    if directives.isEmpty && operations.isEmpty then fails
    else return .schemaExtension directives operations
  else
    let node ← typeNode word
    if addsSomething node then return .typeExtension node else fails

/-- A definition of a schema, a type or a directive, after its keyword. -/
def described [Runtime] (description : Option Literal) (word : String) : Reader Definition := do
  match word with
  | "schema" =>
      let directives ← directives
      return .schema description directives
        (← someBetween '\x7b' '\x7d' operationTypeDefinition)
  | "directive" => return .directive (← directiveDefinition description)
  | word => return .type description (← typeNode word)

/-- An operation or a fragment; what describes it says nothing about the schema and is passed
over. -/
def executable [Runtime] (word : String) : Reader Definition := do
  if word = "fragment" then return .fragment (← fragment) else return .operation (← operation)

def describedKeywords : List String :=
  ["schema", "scalar", "type", "interface", "union", "enum", "input", "directive"]

/-- A definition; no description may precede an extension or selections that stand alone. -/
def definition [Runtime] : Reader Definition := do
  let description ← description
  match ← get with
  | .name word :: _ =>
      if describedKeywords.contains word then
        keyword word
        described description word
      else if word = "extend" then
        if description.isSome then fails
        else
          keyword "extend"
          extension
      else executable word
  | .mark '\x7b' :: _ => if description.isSome then fails else return .operation (← operation)
  | _ => fails

def definitions [Runtime] : (fuel : Nat) → Reader (List Definition)
  | 0 => fails
  | fuel + 1 => do
      if (← remaining) = 0 then return []
      else
        let first ← definition
        let rest ← definitions fuel
        return first :: rest

end Reader

/-- Reads a value that stands alone. -/
def Value.parse? [Runtime] (text : String) : Option Value := do
  let tokens ← tokens? text
  match Reader.value false Runtime.parsingDepth tokens with
  | some (value, []) => some value
  | _ => none

/-- Reads a document, which has at least one definition. -/
def parse? [Runtime] (text : String) : Option Document := do
  let tokens ← tokens? text
  match Reader.definitions (tokens.length + 1) tokens with
  | some ([], _) => none
  | some (definitions, _) => some definitions
  | none => none

end Sdl

end ConfigSchema
