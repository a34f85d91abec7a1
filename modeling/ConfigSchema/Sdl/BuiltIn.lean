import ConfigSchema.Sdl.Document

/-!
# Built-in directives

Every document may use these directives without defining them.  A definition of the same name
takes the place of the built-in one.
-/

namespace ConfigSchema

namespace Sdl

namespace BuiltIn

/-- The reason of a deprecation that gives none. -/
def deprecationReason : String := "No longer supported"

def condition : InputValue :=
  { name := "if", type := .required (.named "Boolean") }

def includeDirective : DirectiveDefinition :=
  { name := "include", arguments := [condition]
    locations := [.field, .fragmentSpread, .inlineFragment] }

def skipDirective : DirectiveDefinition :=
  { name := "skip", arguments := [condition]
    locations := [.field, .fragmentSpread, .inlineFragment] }

def deprecatedDirective : DirectiveDefinition :=
  { name := "deprecated"
    arguments := [
      { name := "reason", type := .named "String"
        default := some (.string ⟨deprecationReason, false⟩) }]
    locations := [.fieldDefinition, .argumentDefinition, .inputFieldDefinition, .enumValue,
      .directiveDefinition] }

def specifiedByDirective : DirectiveDefinition :=
  { name := "specifiedBy"
    arguments := [{ name := "url", type := .required (.named "String") }]
    locations := [.scalar] }

def oneOfDirective : DirectiveDefinition :=
  { name := "oneOf", locations := [.inputObject] }

def directives : List DirectiveDefinition :=
  [includeDirective, skipDirective, deprecatedDirective, specifiedByDirective, oneOfDirective]

def directiveNames : List String :=
  directives.map (·.name)

def scalarNames : List String :=
  ["String", "Int", "Float", "Boolean", "ID"]

/-- The types that a schema describes itself with. -/
def introspectionNames : List String :=
  ["__Schema", "__Directive", "__DirectiveLocation", "__Type", "__Field", "__InputValue",
    "__EnumValue", "__TypeKind"]

def typeNames : List String :=
  scalarNames ++ introspectionNames

end BuiltIn

end Sdl

end ConfigSchema
