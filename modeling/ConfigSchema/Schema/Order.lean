import ConfigSchema.Schema.BuiltIn

/-!
# The order of types

A schema lists its own types in the order of their definitions.  A built-in type that no document
defines stands right behind the first type that leads to it, directly or through other built-in
types; those that only root types or directives lead to come last, together with the types of
introspection, which every schema has.
-/

namespace ConfigSchema

namespace Schema

/-- What can be reached from the pending names within those that remain, depth first, each name
once.  A step takes its name out of those that remain, so the search ends. -/
def gather (references : String → List String) (remaining pending : List String) :
    List String :=
  match _found : pending.find? remaining.contains with
  | none => []
  | some name => name :: gather references (remaining.erase name) (references name ++ pending)
termination_by remaining.length
decreasing_by
  have member : name ∈ remaining := List.contains_iff_mem.1 (List.find?_some _found)
  have smaller := List.length_erase_of_mem member
  have positive := List.length_pos_of_mem member
  omega

def referencesOf (schema : Schema) (name : String) : List String :=
  ((schema.type? name).map NamedType.references).getD []

/-- Walks over starting points in turn: a name of the schema's own, if there is one, and the
references to follow.  Names that a walk has reached do not remain for the next. -/
def walk (references : String → List String) (remaining : List String) :
    List (Option String × List String) → List String
  | [] => []
  | (own, pending) :: rest =>
      let found := gather references remaining pending
      own.toList ++ found ++
        walk references (remaining.filter fun name => !found.contains name) rest

def orderedNames (schema : Schema) : List String :=
  let own := schema.types.map (·.name)
  let remaining := Sdl.BuiltIn.typeNames.filter fun name => !own.contains name
  walk schema.referencesOf remaining
    (own.map (fun name => (some name, schema.referencesOf name)) ++
      [(none, schema.roots.names),
        (none, schema.directives.flatMap fun d => d.arguments.map (·.type.base)),
        (none, ["__Schema"])])

/-- The types of a schema in order, the built-in ones among them. -/
def orderedTypes (schema : Schema) : List NamedType :=
  schema.orderedNames.filterMap schema.type?

end Schema

end ConfigSchema
