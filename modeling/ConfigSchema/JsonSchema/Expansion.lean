import ConfigSchema.Chain
import ConfigSchema.JsonSchema.Node
import ConfigSchema.Runtime
import ConfigSchema.TypeGraph

/-!
# Nodes of types and fields

An object type is always referred to, never copied, so object types may refer to each other
freely.  Unions and interfaces are expanded in place.  An expansion that comes back to a name on
its own chain would go on for ever, and is told apart from every other failure; otherwise each
expansion adds a name of the graph to the chain, so it ends.  It is a failure, too, if there is no
room for the calls that have led to a name.
-/

namespace ConfigSchema

theorem Entries.mem_names_of_get? {α : Type u} {entries : Entries α} {name : String} {value : α}
    (h : entries.get? name = some value) : name ∈ entries.names :=
  Entries.get?_isSome_iff.1 (by simp [h])

namespace TypeGraph

/-- The note that lists the variants of a node, if notes are asked for. -/
def variantNote (describe : Bool) (label : String) (names : List String) : Option String :=
  if describe then some (label ++ ", ".intercalate names) else none

/-- The calls that are active when the variants of a name are resolved. -/
def intoVariants (name : String) (under : List Call) : List Call :=
  .variants :: .anyOf :: .resolveType name :: under

mutual

/-- The node of a name that is met below the names of the chain, by calls from `under`. -/
def nodeBelow [Runtime] (graph : TypeGraph) (describe : Bool) (under : List Call)
    (chain : List String) (name : String) : Except GraphError Node :=
  if _hnew : name ∈ chain then .error (.endless name)
  else
    inRoom (.resolveType name :: under)
      (match _hget : graph.index.get? name with
      | none => .error (.unknownType name)
      | some type =>
          match type.shape with
          | .scalar => .ok ((Node.ofScalar? type.name).getD Node.unknownObject)
          | .enum values => .ok (.enum (variantNote describe "Allowed values: " values) values)
          | .object .. => .ok (.ref none type.name)
          | .interface .. =>
              let variants := graph.implementors type.name
              (graph.nodesBelow describe (intoVariants name under) (name :: chain) variants).map
                (.anyOf (variantNote describe "Any of: " variants))
          | .union _ =>
              match graph.members type.name with
              | .error e => .error e
              | .ok variants =>
                  (graph.nodesBelow describe (intoVariants name under) (name :: chain)
                    variants).map (.anyOf (variantNote describe "Any of: " variants))
          | .other => .ok Node.unknownObject)
termination_by (Chain.room graph.index.names chain, 0)
decreasing_by
  all_goals
    exact Prod.Lex.left _ _
      (Chain.room_cons_lt (Entries.mem_names_of_get? _hget) _hnew)

def nodesBelow [Runtime] (graph : TypeGraph) (describe : Bool) (under : List Call)
    (chain : List String) : List String → Except GraphError (List Node)
  | [] => .ok []
  | name :: rest =>
      match graph.nodeBelow describe under chain name with
      | .error e => .error e
      | .ok node => (graph.nodesBelow describe under chain rest).map (node :: ·)
termination_by names => (Chain.room graph.index.names chain, names.length + 1)

end

def node [Runtime] (graph : TypeGraph) (describe : Bool) (name : String)
    (under : List Call := []) : Except GraphError Node :=
  graph.nodeBelow describe under [] name

/-- A description of its own and the note of a type: the note follows in parentheses.  An empty
description counts as none. -/
def mergedNote (own note : Option String) : Option String :=
  match own, note with
  | some own, some note =>
      if own = "" then some note
      else if note = "" then some own
      else some (own ++ " (" ++ note ++ ")")
  | some own, none => if own = "" then none else some own
  | none, note => note

/-- The node of a field.  Any number of list layers makes one array, whose items keep the note of
their type. -/
def fieldNode [Runtime] (graph : TypeGraph) (describe : Bool) (field : Field)
    (under : List Call := []) : Except GraphError Node :=
  (graph.node describe field.type.base (.resolveField :: under)).map fun node =>
    let description := mergedNote field.description node.note
    if field.type.isList then .array description node else node.withNote description

end TypeGraph

end ConfigSchema
