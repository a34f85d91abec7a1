import ConfigSchema.Decimal.Digits
import ConfigSchema.Decimal.Shortest
import ConfigSchema.Schema.BuiltIn

/-!
# Default values

A literal that fits its type stands for a constant; one that does not fit stands for nothing.  An
object takes the defaults of the fields that it leaves out, so it stands for a constant only once
these defaults are known: the input object is settled.  A constant has a literal again, its normal
form.
-/

namespace ConfigSchema

namespace Schema

/-- What a literal stands for at a type. -/
inductive Constant where
  | null
  | boolean (value : Bool)
  | int (value : Int)
  | float (value : Binary64)
  | text (value : String)
  | enum (name : String)
  | list (items : List Constant)
  | object (fields : List (String × Constant))
  /-- A list or an object at a scalar of the schema's own. -/
  | compound
  deriving Inhabited

structure SettledField where
  name : String
  type : TypeRef
  default : Option Constant
  deriving Inhabited

structure SettledInput where
  fields : List SettledField
  isOneOf : Bool
  deriving Inhabited

/-- Input objects with the constants of their defaults. -/
abbrev Settled := List (String × SettledInput)

inductive Unfit where
  /-- It does not fit its type. -/
  | type
  /-- It is an object of an input object that is not settled. -/
  | unsettled (name : String)
  deriving DecidableEq, Inhabited

/-! ## Numbers -/

def intOfText (text : String) : Int :=
  let (negative, digits) := Decimal.signed text.toList
  Decimal.intOfDigits negative digits

/-- Whether a written integer has more digits than an integer can have. -/
def isTooLong (text : String) : Bool :=
  Decimal.digitLimit < (Decimal.signed text.toList).2.length

/-- The double precision number nearest to a written number. -/
def floatOfText (text : String) : Binary64 :=
  let (negative, s) := Decimal.signed text.toList
  let isMark (c : Char) : Bool := c = 'e' || c = 'E'
  let mantissa := s.takeWhile fun c => !isMark c
  let exponent := (s.dropWhile fun c => !isMark c).drop 1
  let whole := mantissa.takeWhile (· ≠ '.')
  let fraction := (mantissa.dropWhile (· ≠ '.')).drop 1
  .ofDecimal negative (Decimal.natOfDigits (whole ++ fraction))
    (intOfText (String.ofList exponent) - fraction.length)

/-! ## Fitting literals -/

/-- A constant under list layers: a single value stands for a list of itself. -/
def underLists (depth : Nat) (constant : Constant) : Constant :=
  match depth with
  | 0 => constant
  | depth + 1 => .list [underLists depth constant]

/-- An integer of the scalar `Int` lies below it, and not below its negation. -/
def intLimit : Int := 0x80000000

/-- The constant of a literal that is neither null nor a list nor an object, at a scalar.  At a
scalar of the schema's own, an integer with too many digits is no number. -/
def fitScalar (name : String) (value : Sdl.Value) : Option Constant :=
  match name, value with
  | "Int", .int text =>
      let n := intOfText text
      if -intLimit ≤ n ∧ n < intLimit then some (.int n) else none
  | "Float", .int text => some (.float (floatOfText text))
  | "Float", .float text => some (.float (floatOfText text))
  | "String", .string literal => some (.text literal.value)
  | "Boolean", .boolean b => some (.boolean b)
  | "ID", .string literal => some (.text literal.value)
  | "ID", .int text => some (.text text)
  | name, value =>
      if Sdl.BuiltIn.scalarNames.contains name then none
      else
        match value with
        | .int text =>
            some (if isTooLong text then .float .notANumber else .int (intOfText text))
        | .float text => some (.float (floatOfText text))
        | .string literal => some (.text literal.value)
        | .boolean b => some (.boolean b)
        | .enum name => some (.text name)
        | _ => none

/-- The constant of a literal that is neither null nor a list nor an object. -/
def fitPlain (type : NamedType) (value : Sdl.Value) : Option Constant :=
  match type.shape, value with
  | .scalar _, value => fitScalar type.name value
  | .enum values, .enum name => if values.any (·.name = name) then some (.enum name) else none
  | _, _ => none

/-- Whether a list or an object may stand for a value of the type as it is. -/
def takesCompounds (type : NamedType) : Bool :=
  match type.shape with
  | .scalar _ => !Sdl.BuiltIn.scalarNames.contains type.name
  | _ => false

/-- The fields of an input object, in its own order, with the constants that are given for them;
fields that are left out take their defaults. -/
def completed (input : SettledInput) (given : List (String × Except Unfit Constant)) :
    Except Unfit Constant := do
  let fields ← input.fields.mapM fun field =>
    match given.lookup field.name, field.default with
    | some constant, _ => constant.map fun constant => some (field.name, constant)
    | none, some constant => .ok (some (field.name, constant))
    | none, none => if field.type.isRequired then .error .type else .ok none
  match input.isOneOf, fields.filterMap id with
  | false, fields => return .object fields
  | true, [(_, .null)] => .error .type
  | true, [field] => return .object [field]
  | true, _ => .error .type

mutual

/-- The constant of a literal at a type.  An object of a type that is not known stands for
nothing that could be told. -/
def fit (schema : Schema) (settled : Settled) (ref : TypeRef) :
    Sdl.Value → Except Unfit Constant
  | .variable _ => .error .type
  | .null => if ref.isRequired then .error .type else .ok .null
  | .list items =>
      match ref with
      | .list item => (fitAll schema settled item items).map .list
      | .required (.list item) => (fitAll schema settled item items).map .list
      | ref =>
          match schema.type? ref.base with
          | some type => if takesCompounds type then .ok .compound else .error .type
          | none => .error .type
  | .object fields =>
      match schema.type? ref.base with
      | none => .error (.unsettled ref.base)
      | some type =>
          match type.shape with
          | .input _ _ =>
              match settled.lookup type.name with
              | none => .error (.unsettled type.name)
              | some input =>
                  (completed input (fitFields schema settled input fields)).map
                    (underLists ref.listDepth)
          | _ =>
              if takesCompounds type then .ok (underLists ref.listDepth .compound)
              else .error .type
  | value =>
      match schema.type? ref.base with
      | none => .error .type
      | some type =>
          match fitPlain type value with
          | some constant => .ok (underLists ref.listDepth constant)
          | none => .error .type

/-- The constants of the items of a list.  A variable stands for null where null may stand. -/
def fitAll (schema : Schema) (settled : Settled) (item : TypeRef) :
    List Sdl.Value → Except Unfit (List Constant)
  | [] => .ok []
  | .variable _ :: rest =>
      if item.isRequired then .error .type
      else (fitAll schema settled item rest).map (.null :: ·)
  | value :: rest =>
      match fit schema settled item value with
      | .error e => .error e
      | .ok constant => (fitAll schema settled item rest).map (constant :: ·)

/-- The constants that are given for the fields of an input object, the last one of each name.
Other names and variables count as left out. -/
def fitFields (schema : Schema) (settled : Settled)
    (input : SettledInput) :
    List (String × Sdl.Value) → List (String × Except Unfit Constant)
  | [] => []
  | (name, value) :: rest =>
      let given := fitFields schema settled input rest
      if rest.any (·.1 = name) then given
      else
        match value, input.fields.find? (·.name = name) with
        | .variable _, _ => given
        | _, none => given
        | value, some field => (name, fit schema settled field.type value) :: given

end

/-- The constant of a default, if it fits; else the input object that has to be settled first. -/
def defaultConstant (schema : Schema) (settled : Settled) (input : InputValue) :
    Except String (Option Constant) :=
  match input.default with
  | none => .ok none
  | some value =>
      match fit schema settled input.type value with
      | .ok constant => .ok (some constant)
      | .error .type => .ok none
      | .error (.unsettled name) => .error name

/-! ## Literals of constants -/

inductive Unwritable where
  /-- A number of the built-in type that is too large. -/
  | tooLarge
  /-- A value of a scalar of the schema's own that is no plain value. -/
  | notPlain
  /-- A type under more layers than can be written. -/
  | tooDeep
  deriving DecidableEq, Inhabited

/-- A written number without a fraction that is zero. -/
def floatText (x : Binary64) : String :=
  let text := x.render "inf" "nan"
  match text.toList.reverse with
  | '0' :: '.' :: rest => String.ofList rest.reverse
  | _ => text

/-- Whether a row of characters is written like an integer: without needless zeros, after a minus
sign or none. -/
def isInteger (chars : List Char) : Bool :=
  let digits := match chars with
    | '-' :: rest => rest
    | digits => digits
  digits = ['0'] || (!digits.isEmpty && digits.head? ≠ some '0' &&
    digits.all fun c => '0' ≤ c && c ≤ '9')

/-- The integer that an identifier is written as, if it looks like one; a line end behind it is
lost. -/
def integerText? (text : String) : Option String :=
  let chars := text.toList
  let chars := if chars.getLast? = some '\n' then chars.dropLast else chars
  if isInteger chars then some (String.ofList chars) else none

/-- The literal of a text at a scalar. -/
def textLiteral (scalar text : String) : Sdl.Value :=
  match if scalar = "ID" then integerText? text else none with
  | some digits => .int digits
  | none => .string ⟨text, false⟩

/-- The literal of a number at a scalar. -/
def floatLiteral (scalar : String) (x : Binary64) : Except Unwritable Sdl.Value :=
  match x with
  | .finite .. => .ok (.float (floatText x))
  | _ => .error (if scalar = "Float" then .tooLarge else .notPlain)

mutual

def literal (schema : Schema) (settled : Settled) (ref : TypeRef) :
    Constant → Except Unwritable Sdl.Value
  | .null => .ok .null
  | .boolean b => .ok (.boolean b)
  | .int n => .ok (.int (toString n))
  | .float x => floatLiteral ref.base x
  | .text text => .ok (textLiteral ref.base text)
  | .enum name => .ok (.enum name)
  | .list items => (literals schema settled ref items).map .list
  | .object fields =>
      match settled.lookup ref.base with
      | some input => (literalFields schema settled input fields).map .object
      | none => .error .notPlain
  | .compound => .error .notPlain

def literals (schema : Schema) (settled : Settled) (ref : TypeRef) :
    List Constant → Except Unwritable (List Sdl.Value)
  | [] => .ok []
  | constant :: rest =>
      match literal schema settled ref constant with
      | .error e => .error e
      | .ok value => (literals schema settled ref rest).map (value :: ·)

def literalFields (schema : Schema) (settled : Settled)
    (input : SettledInput) :
    List (String × Constant) → Except Unwritable (List (String × Sdl.Value))
  | [] => .ok []
  | (name, constant) :: rest =>
      match input.fields.find? (·.name = name) with
      | none => .error .notPlain
      | some field =>
          match literal schema settled field.type constant with
          | .error e => .error e
          | .ok value => (literalFields schema settled input rest).map ((name, value) :: ·)

end

end Schema

end ConfigSchema
