import ConfigSchema.Schema.Default

/-!
# Settling input objects

An input object is settled when the constants of its defaults are told, one after the other.  A
default that is an object asks for another input object, which is settled in between.  This goes
some levels deep and no deeper, so it ends; a default that leads back to its own object always
goes too deep.
-/

namespace ConfigSchema

namespace Schema

/-- What settles an input object after others, if anything can. -/
abbrev Settling := String → Settled → Option Settled

/-- The constant of a default, and all that is settled to tell it.  Every repetition settles one
input object more, so their number bounds the repetitions. -/
def constantBy (schema : Schema) (settle : Settling) (input : InputValue) :
    (repetitions : Nat) → Settled → Option (Option Constant × Settled)
  | 0, _ => none
  | repetitions + 1, settled =>
      match schema.defaultConstant settled input with
      | .ok constant => some (constant, settled)
      | .error name => (settle name settled).bind (schema.constantBy settle input repetitions)

def inputCount (schema : Schema) : Nat :=
  schema.types.countP fun type => type.shape.kind = .input

/-- Fields with the constants of their defaults, in order. -/
def fieldsBy (schema : Schema) (settle : Settling) :
    List InputValue → Settled → Option (List SettledField × Settled)
  | [], settled => some ([], settled)
  | field :: rest, settled => do
      let (default, settled) ← schema.constantBy settle field (schema.inputCount + 1) settled
      let (fields, settled) ← schema.fieldsBy settle rest settled
      return ({ name := field.name, type := field.type, default } :: fields, settled)

/-- Settles an input object, if that takes no more levels than there is room for. -/
def settleWithin (schema : Schema) : (room : Nat) → Settling
  | 0 => fun _ _ => none
  | room + 1 => fun name settled =>
      match schema.type? name with
      | some ⟨_, _, _, .input fields isOneOf⟩ => do
          let (fields, settled) ← schema.fieldsBy (schema.settleWithin room) fields settled
          return (name, { fields, isOneOf }) :: settled
      | _ => none

/-- What is settled once the defaults of some values are told. -/
def settleValues (schema : Schema) (room : Nat) (values : List InputValue) (settled : Settled) :
    Option Settled :=
  (schema.fieldsBy (schema.settleWithin room) values settled).map (·.2)

/-- What is settled once the defaults of a type are told. -/
def settleType (schema : Schema) (room : Nat) (settled : Settled) (type : NamedType) :
    Option Settled :=
  match type.shape with
  | .object _ fields => schema.settleValues room (fields.flatMap (·.arguments)) settled
  | .interface _ fields => schema.settleValues room (fields.flatMap (·.arguments)) settled
  | .input _ _ =>
      if (settled.lookup type.name).isSome then some settled
      else schema.settleWithin room type.name settled
  | _ => some settled

/-- The input objects of a schema with the constants of their defaults, if all of them can be
settled: the directives come first, and then the types in order. -/
def settledInputs? (schema : Schema) (room : Nat) : Option Settled := do
  let settled ← schema.settleValues room (schema.directives.flatMap (·.arguments)) []
  schema.types.foldlM (schema.settleType room) settled

/-- Whether the default of a value can be told by itself. -/
def canTell (schema : Schema) (room : Nat) (input : InputValue) : Bool :=
  (schema.settleValues room [input] []).isSome

end Schema

end ConfigSchema
