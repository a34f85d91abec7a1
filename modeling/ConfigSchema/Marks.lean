/-!
# Marks on types

Two directives mark object types.  They may be applied in every schema, for they are defined in
front of it.
-/

namespace ConfigSchema

/-- The directive that asks for a documentation file. -/
def docsDirective : String := "md"

/-- The directive that allows undeclared properties in a type. -/
def openDirective : String := "withAdditionalProperties"

end ConfigSchema
