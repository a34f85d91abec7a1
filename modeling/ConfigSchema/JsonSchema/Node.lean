import ConfigSchema.Json.Basic

/-!
# Schema nodes

A node says which values a property takes.  Every node may carry a note; in the document the note
is the first key of the node, under the name `description`.
-/

namespace ConfigSchema

inductive Node where
  | primitive (note : Option String) (kind : String)
  /-- Any object. -/
  | anyObject (note : Option String)
  | enum (note : Option String) (values : List String)
  /-- The definition of an object type. -/
  | ref (note : Option String) (type : String)
  | anyOf (note : Option String) (variants : List Node)
  | array (note : Option String) (items : Node)
  deriving Inhabited

namespace Node

def note : Node → Option String
  | .primitive note _ => note
  | .anyObject note => note
  | .enum note _ => note
  | .ref note _ => note
  | .anyOf note _ => note
  | .array note _ => note

/-- The node with another note. -/
def withNote (note : Option String) : Node → Node
  | .primitive _ kind => .primitive note kind
  | .anyObject _ => .anyObject note
  | .enum _ values => .enum note values
  | .ref _ type => .ref note type
  | .anyOf _ variants => .anyOf note variants
  | .array _ items => .array note items

@[simp] theorem note_withNote (note : Option String) (node : Node) :
    (node.withNote note).note = note := by
  cases node <;> rfl

@[simp] theorem withNote_withNote (first second : Option String) (node : Node) :
    (node.withNote first).withNote second = node.withNote second := by
  cases node <;> rfl

@[simp] theorem withNote_note (node : Node) : node.withNote node.note = node := by
  cases node <;> rfl

/-- Where the document keeps the definition of an object type. -/
def refTarget (type : String) : String :=
  "#/definitions/" ++ type

/-- The keys of a node, a note in front. -/
def keys (note : Option String) (rest : List (String × Json)) : Json :=
  .obj (match note with
    | some note => ("description", .str note) :: rest
    | none => rest)

mutual

def toJson : Node → Json
  | .primitive note kind => keys note [("type", .str kind)]
  | .anyObject note => keys note [("type", .str "object"), ("properties", .obj [])]
  | .enum note values => keys note [("type", .str "string"), ("enum", Json.texts values)]
  | .ref note type => keys note [("$ref", .str (refTarget type))]
  | .anyOf note variants => keys note [("anyOf", .arr (toJsons variants))]
  | .array note items => keys note [("type", .str "array"), ("items", toJson items)]

def toJsons : List Node → List Json
  | [] => []
  | node :: rest => toJson node :: toJsons rest

end

theorem toJsons_eq_map (nodes : List Node) : toJsons nodes = nodes.map toJson := by
  induction nodes with
  | nil => rfl
  | cons node rest ih => simp [toJsons, ih]

/-- The kinds of JSON values that scalars stand for. -/
def scalarKinds : Entries String :=
  [("String", "string"), ("ID", "string"), ("Boolean", "boolean"), ("Float", "number"),
    ("Int", "integer"), ("JSON", "object")]

/-- The node of a scalar of the table. -/
def ofScalar? (name : String) : Option Node :=
  (scalarKinds.get? name).map fun kind =>
    if kind = "object" then .anyObject none else .primitive none kind

/-- The node of a type that cannot be said more precisely. -/
def unknownObject : Node :=
  .anyObject (some "Unknown object")

end Node

end ConfigSchema
