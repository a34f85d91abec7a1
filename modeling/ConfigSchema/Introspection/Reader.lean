import ConfigSchema.Json.Basic
import ConfigSchema.Schema.Settling
import ConfigSchema.Sdl.Parser

/-!
# Reading introspection results

A schema can describe itself as a JSON value.  The value is read in steps: first the types by
name with all that does not depend on other types, then the root types and the directives, and
last what the types refer to, but for the input objects that the defaults of directives ask for.
Of entries with one name the last counts, at the place of the first.
-/

namespace ConfigSchema

theorem Json.sizeOf_get? {v w : Json} {name : String} (h : v.get? name = some w) :
    sizeOf w < sizeOf v := by
  cases v with
  | obj entries =>
      have hentries : ∀ es : List (String × Json), Entries.get? name es = some w →
          sizeOf w < sizeOf es := by
        intro es
        induction es with
        | nil => intro h; simp [Entries.get?] at h
        | cons pair rest ih =>
            obtain ⟨n, u⟩ := pair
            intro h
            by_cases hname : n = name
            · simp only [Entries.get?, hname, if_true, Option.some.injEq] at h
              subst h
              simp
              omega
            · simp only [Entries.get?, hname, if_false] at h
              have := ih h
              simp
              omega
      have := hentries entries h
      simp
      omega
  | null => simp [Json.get?] at h
  | bool => simp [Json.get?] at h
  | int => simp [Json.get?] at h
  | float => simp [Json.get?] at h
  | str => simp [Json.get?] at h
  | arr => simp [Json.get?] at h

namespace Introspection

inductive Fault where
  | malformed
  /-- A value that is asked for its parts at the top is no object. -/
  | notAnObject
  deriving DecidableEq, Inhabited

abbrev Decoded := Except Fault

/-! ## Parts of values -/

def part (name : String) (v : Json) : Decoded Json :=
  match v.get? name with
  | some part => .ok part
  | none => .error .malformed

/-- The parts that a value runs through: items, names, or characters. -/
def itemsOf : Json → Decoded (List Json)
  | .arr items => .ok items
  | .obj entries => .ok (entries.map fun entry => .str entry.1)
  | .str text => .ok (text.toList.map fun c => .str c.toString)
  | _ => .error .malformed

/-- The items of a part that must be there and not be null. -/
def givenItems (name : String) (v : Json) : Decoded (List Json) :=
  match v.given? name with
  | some part => itemsOf part
  | none => .error .malformed

def optionalText (name : String) (v : Json) : Decoded (Option String) :=
  match v.given? name with
  | none => .ok none
  | some (.str text) => .ok (some text)
  | some _ => .error .malformed

def isName (text : String) : Bool :=
  match text.toList with
  | [] => false
  | c :: rest => Sdl.Lexer.isNameStart c && rest.all Sdl.Lexer.isNamePart

theorem ne_empty_of_isName {text : String} (hname : isName text = true) : text ≠ "" := by
  rintro rfl
  contradiction

theorem notMem_of_isName {text : String} {c : Char} (hname : isName text = true)
    (hc : Sdl.Lexer.isNamePart c = false) : c ∉ text.toList := by
  have hparts : ∀ letter ∈ text.toList, Sdl.Lexer.isNamePart letter = true := by
    unfold isName at hname
    cases hletters : text.toList with
    | nil => simp
    | cons first rest =>
        rw [hletters] at hname
        rcases Bool.and_eq_true_iff.1 hname with ⟨hstart, hrest⟩
        intro letter hletter
        rcases List.mem_cons.1 hletter with rfl | hletter
        · rw [Sdl.Lexer.isNamePart, hstart, Bool.true_or]
        · exact List.all_eq_true.1 hrest letter hletter
  intro hmem
  rw [hparts c hmem] at hc
  contradiction

/-- The name of a value, which has to be a name of the language. -/
def nameOf (v : Json) : Decoded String :=
  match v.get? "name" with
  | some (.str text) => if isName text then .ok text else .error .malformed
  | _ => .error .malformed

/-! ## Types by name -/

/-- A type by its name: the kind that it has, and the value that describes it. -/
structure Described where
  kind : Sdl.TypeBody.Kind
  value : Json
  deriving Inhabited

def kindOf? : Json → Option Sdl.TypeBody.Kind
  | .str "SCALAR" => some .scalar
  | .str "OBJECT" => some .object
  | .str "INTERFACE" => some .interface
  | .str "UNION" => some .union
  | .str "ENUM" => some .enum
  | .str "INPUT_OBJECT" => some .input
  | _ => none

def enumValue (v : Json) : Decoded (String × Schema.EnumValue) := do
  let name ← nameOf v
  if ["true", "false", "null"].contains name then .error .malformed
  else
    let description ← optionalText "description" v
    let deprecation ← optionalText "deprecationReason" v
    return (name, { name, description, deprecation })

def enumValues (v : Json) : Decoded (List Schema.EnumValue) := do
  let values ← (← givenItems "enumValues" v).mapM enumValue
  return (Entries.ofList values).map (·.2)

/-- Checks what can be checked of a type by itself.  A built-in name may describe the built-in
type as a scalar, an object or an enum; what it says is passed over. -/
def described (v : Json) : Decoded (String × Described) := do
  let name ← part "name" v
  let kind ← match kindOf? (← part "kind" v) with
    | some kind => pure kind
    | none => .error .malformed
  let given := fun (name : String) => (v.given? name).isSome
  if (kind = .union && !given "possibleTypes") || (kind = .enum && !given "enumValues") ||
      (kind = .input && !given "inputFields") then .error .malformed
  else
    match name with
    | .str text =>
        match Schema.BuiltIn.type? text with
        | some type =>
            if kind = .scalar || kind = .object || kind = .enum then
              return (text, ⟨type.shape.kind, v⟩)
            else .error .malformed
        | none =>
            let text ← nameOf v
            let _ ← optionalText "description" v
            if kind = .scalar then let _ ← optionalText "specifiedByURL" v
            if kind = .enum then let _ ← enumValues v
            return (text, ⟨kind, v⟩)
    | _ => .error .malformed

/-! ## References -/

def typeRef (types : Entries Described) (v : Json) : Decoded TypeRef :=
  match v.get? "kind", v with
  | some (.str "LIST"), v =>
      match _h : v.get? "ofType" with
      | some inner =>
          if inner.isTruthy then (typeRef types inner).map .list else .error .malformed
      | none => .error .malformed
  | some (.str "NON_NULL"), v =>
      match _h : v.get? "ofType" with
      | some inner =>
          if inner.isTruthy then
            match typeRef types inner with
            | .ok (.required _) => .error .malformed
            | .ok ref => .ok (.required ref)
            | .error e => .error e
          else .error .malformed
      | none => .error .malformed
  | _, .obj entries =>
      match Entries.get? "name" entries with
      | some (.str name) =>
          if (types.get? name).isSome then .ok (.named name) else .error .malformed
      | _ => .error .malformed
  | _, _ => .error .notAnObject
termination_by sizeOf v
decreasing_by
  · exact Json.sizeOf_get? _h
  · exact Json.sizeOf_get? _h

def namedOfKind (types : Entries Described) (kind : Sdl.TypeBody.Kind) (v : Json) :
    Decoded String := do
  match ← typeRef types v with
  | .named name =>
      if (types.get? name).any (·.kind = kind) then return name else .error .malformed
  | _ => .error .malformed

def isKind (types : Entries Described) (test : Sdl.TypeBody.Kind → Bool) (ref : TypeRef) :
    Bool :=
  (types.get? ref.base).any fun type => test type.kind

/-! ## Arguments and fields -/

/-- A default, which has to be a literal of the language. -/
def defaultOf [Runtime] (v : Json) : Decoded (Option Sdl.Value) := do
  match ← optionalText "defaultValue" v with
  | none => return none
  | some text =>
      match Sdl.Value.parse? text with
      | some value => return some value
      | none => .error .malformed

/-- An argument or a field of an input type, whose name is not looked at yet. -/
def inputValue [Runtime] (types : Entries Described) (v : Json) : Decoded Schema.InputValue := do
  let name ← part "name" v
  let type ← typeRef types (← part "type" v)
  if isKind types (fun kind => kind = .scalar || kind = .enum || kind = .input) type then
    let default ← defaultOf v
    let description ← optionalText "description" v
    let deprecation ← optionalText "deprecationReason" v
    return { name := name.text?.getD "", description, type, default, deprecation }
  else .error .malformed

/-- The values of a part, each read by `read`; their names count only once all of them are
read. -/
def inputValuesBy (read : Json → Decoded Schema.InputValue) (name : String) (v : Json) :
    Decoded (List Schema.InputValue) := do
  let values ← (← givenItems name v).mapM read
  if values.all fun value => isName value.name then
    return (Entries.ofList (values.map fun value => (value.name, value))).map (·.2)
  else .error .malformed

def inputValues [Runtime] (types : Entries Described) (name : String) (v : Json) :
    Decoded (List Schema.InputValue) :=
  inputValuesBy (inputValue types) name v

def field [Runtime] (types : Entries Described) (v : Json) : Decoded (String × Schema.Field) := do
  let name ← nameOf v
  let type ← typeRef types (← part "type" v)
  if isKind types (· ≠ .input) type then
    let arguments ← inputValues types "args" v
    let description ← optionalText "description" v
    let deprecation ← optionalText "deprecationReason" v
    return (name, { name, description, arguments, type, deprecation })
  else .error .malformed

def fields [Runtime] (types : Entries Described) (v : Json) : Decoded (List Schema.Field) := do
  let values ← (← givenItems "fields" v).mapM (field types)
  return (Entries.ofList values).map (·.2)

/-- The interfaces of a type; only an interface may leave them out. -/
def interfaces (types : Entries Described) (type : Described) : Decoded (List String) :=
  if type.kind = .interface && (type.value.given? "interfaces").isNone then .ok []
  else do (← givenItems "interfaces" type.value).mapM (namedOfKind types .interface)

/-! ## Schemas -/

def shape [Runtime] (types : Entries Described) (type : Described) : Decoded Schema.Shape := do
  let v := type.value
  match type.kind with
  | .scalar => return .scalar (← optionalText "specifiedByURL" v)
  | .object => return .object (← interfaces types type) (← fields types v)
  | .interface => return .interface (← interfaces types type) (← fields types v)
  | .union =>
      return .union (← (← givenItems "possibleTypes" v).mapM (namedOfKind types .object))
  | .enum => return .enum (← enumValues v)
  | .input =>
      return .input (← inputValues types "inputFields" v)
        ((v.get? "isOneOf").any Json.isTruthy)

/-- A type with all that it refers to; a built-in name stands for the built-in type. -/
def namedType [Runtime] (types : Entries Described) (name : String) (type : Described) :
    Decoded Schema.NamedType :=
  match Schema.BuiltIn.type? name with
  | some type => .ok type
  | none => do
      let shape ← shape types type
      return { name, description := ← optionalText "description" type.value, shape }

def location (v : Json) : Decoded Sdl.Location :=
  match (v.text?).bind Sdl.Location.ofName? with
  | some location => .ok location
  | none => .error .malformed

/-- Whether a directive may repeat; it may not if nothing is said about it. -/
def repeatability (v : Json) : Decoded Bool :=
  match v.get? "isRepeatable" with
  | none => .ok false
  | some (.bool b) => .ok b
  | some _ => .error .malformed

/-- An argument of a directive.  Its default is told at once, which takes the input objects that
it asks for; `known` has the types that can be read. -/
def directiveArgument [Runtime] (types : Entries Described) (known : Schema) (v : Json) :
    Decoded Schema.InputValue := do
  let argument ← inputValue types v
  if known.canTell Runtime.toldSettlingDepth argument then return argument else .error .malformed

def directive [Runtime] (types : Entries Described) (known : Schema) (v : Json) :
    Decoded Schema.Directive :=
  match v with
  | .obj _ => do
      let _ ← part "name" v
      let locations ← givenItems "locations" v
      let arguments ← inputValuesBy (directiveArgument types known) "args" v
      let name ← nameOf v
      return {
        name, arguments, locations := ← locations.mapM location
        isRepeatable := ← repeatability v, description := ← optionalText "description" v
        deprecation := ← optionalText "deprecationReason" v }
  | _ => .error .notAnObject

def directives [Runtime] (types : Entries Described) (known : Schema) (v : Json) :
    Decoded (List Schema.Directive) :=
  match v.get? "directives" with
  | none => .ok []
  | some part =>
      if part.isTruthy then do (← itemsOf part).mapM (directive types known) else .ok []

def root (types : Entries Described) (name : String) (v : Json) : Decoded (Option String) :=
  match v.given? name with
  | none => .ok none
  | some part => (namedOfKind types .object part).map some

/-- Below the top every fault is one of form. -/
def anyFault {α : Type} (decoded : Decoded α) : Decoded α :=
  decoded.mapError fun _ => .malformed

def schemaOf [Runtime] (v : Json) : Decoded Schema := do
  let types := Entries.ofList (← (← givenItems "types" v).mapM described)
  let query ← root types "queryType" v
  let mutation ← root types "mutationType" v
  let subscription ← root types "subscriptionType" v
  let named := types.map fun (name, type) => anyFault (namedType types name type)
  let directives ← directives types { types := named.filterMap Except.toOption, directives := [] } v
  let description ← optionalText "description" v
  let types ← named.mapM id
  let schema : Schema :=
    { description, types, directives, roots := { query, mutation, subscription } }
  if (schema.settledInputs? Runtime.toldSettlingDepth).isSome then return schema
  else .error .malformed

/-- The schema of an introspection result, which is an object with a description of a schema. -/
def read [Runtime] (data : Json) : Decoded Schema :=
  match data.get? "__schema" with
  | some (.obj entries) => schemaOf (.obj entries)
  | _ => .error .malformed

end Introspection

end ConfigSchema
