import ConfigSchema.JsonSchema.Document
import ConfigSchema.Proofs.GraphReferences

/-!
# The keys of schema documents

Under which keys the parts of nodes, definitions and documents stand in their JSON values.
-/

namespace ConfigSchema

namespace Json

@[simp] theorem get?_obj (name : String) (entries : Entries Json) :
    (Json.obj entries).get? name = entries.get? name := rfl

def definition? (document : Json) (name : String) : Option Json :=
  (document.get? "definitions").bind (Json.get? name)

end Json

namespace Node

theorem refTarget_inj {first second : String} :
    refTarget first = refTarget second ↔ first = second := by
  simp [refTarget]

theorem get?_keys {name : String} (hname : name ≠ "description") (note : Option String)
    (rest : Entries Json) : (keys note rest).get? name = rest.get? name := by
  cases note with
  | none => rfl
  | some text => simp [keys, Entries.get?, Ne.symm hname]

/-- The keys behind the note of a node. -/
def laterKeys : Node → Entries Json
  | .primitive _ kind => [("type", .str kind)]
  | .anyObject _ => [("type", .str "object"), ("properties", .obj [])]
  | .enum _ values => [("type", .str "string"), ("enum", Json.texts values)]
  | .ref _ type => [("$ref", .str (refTarget type))]
  | .anyOf _ variants => [("anyOf", .arr (variants.map toJson))]
  | .array _ items => [("type", .str "array"), ("items", items.toJson)]

/-- The note of a node is its first key. -/
theorem toJson_eq_keys (node : Node) : node.toJson = keys node.note node.laterKeys := by
  cases node with
  | anyOf note variants =>
      rw [toJson, toJsons_eq_map]
      rfl
  | array note items =>
      rw [toJson]
      rfl
  | _ => rfl

theorem laterKeys_withNote (note : Option String) (node : Node) :
    (node.withNote note).laterKeys = node.laterKeys := by
  cases node <;> rfl

theorem description_notMem_laterKeys (node : Node) : "description" ∉ node.laterKeys.names := by
  cases node <;> simp [laterKeys, Entries.names]

theorem get?_toJson {name : String} (hname : name ≠ "description") (node : Node) :
    node.toJson.get? name = node.laterKeys.get? name := by
  rw [toJson_eq_keys, get?_keys hname]

theorem get?_ref_eq_some_iff {node : Node} {target : Json} :
    node.toJson.get? "$ref" = some target ↔
      ∃ note type, node = .ref note type ∧ target = .str (refTarget type) := by
  rw [get?_toJson (by simp)]
  cases node <;> simp [laterKeys, Entries.get?, eq_comm]

theorem get?_items_eq_some_iff {node : Node} {sub : Json} :
    node.toJson.get? "items" = some sub ↔
      ∃ note items, node = .array note items ∧ sub = items.toJson := by
  rw [get?_toJson (by simp)]
  cases node <;> simp [laterKeys, Entries.get?, eq_comm]

theorem get?_anyOf_eq_some_iff {node : Node} {sub : Json} :
    node.toJson.get? "anyOf" = some sub ↔
      ∃ note variants, node = .anyOf note variants ∧ sub = .arr (variants.map toJson) := by
  rw [get?_toJson (by simp)]
  cases node <;> simp [laterKeys, Entries.get?, eq_comm]

theorem get?_properties_eq_some {node : Node} {sub : Json}
    (hkey : node.toJson.get? "properties" = some sub) : sub = .obj [] := by
  rw [get?_toJson (by simp)] at hkey
  cases node <;> simp_all [laterKeys, Entries.get?]

theorem get?_definitions_eq_none (node : Node) : node.toJson.get? "definitions" = none := by
  rw [get?_toJson (by simp)]
  cases node <;> simp [laterKeys, Entries.get?]

end Node

namespace Properties

def jsonNodes (properties : Properties) : Entries Json :=
  properties.nodes.map fun (name, node) => (name, node.toJson)

/-- The required names as a value, unless there are none. -/
def jsonRequired? (properties : Properties) : Option Json :=
  if properties.required = [] then none else some (Json.texts properties.required)

theorem names_jsonNodes (properties : Properties) :
    properties.jsonNodes.names = properties.nodes.names :=
  Entries.names_map Node.toJson properties.nodes

theorem get?_jsonNodes (properties : Properties) (name : String) :
    properties.jsonNodes.get? name = (properties.nodes.get? name).map Node.toJson :=
  Entries.get?_map Node.toJson name properties.nodes

theorem mem_jsonNodes_iff {properties : Properties} {name : String} {value : Json} :
    (name, value) ∈ properties.jsonNodes ↔
      ∃ node, (name, node) ∈ properties.nodes ∧ node.toJson = value := by
  constructor
  · intro hmem
    obtain ⟨⟨other, node⟩, hnode, heq⟩ := List.mem_map.1 hmem
    rw [Prod.mk.injEq] at heq
    rcases heq with ⟨rfl, hvalue⟩
    exact ⟨node, hnode, hvalue⟩
  · rintro ⟨node, hnode, rfl⟩
    exact List.mem_map.2 ⟨(name, node), hnode, rfl⟩

theorem get?_toJson (properties : Properties) (front : Entries Json) (isOpen : Bool)
    {name : String} (hfront : name ∉ front.names) :
    Entries.get? name (properties.toJson front isOpen) =
      if name = "type" then some (.str "object")
      else if name = "properties" then some (.obj properties.jsonNodes)
      else if name = "required" then properties.jsonRequired?
      else if name = "additionalProperties" then some (.bool isOpen)
      else none := by
  have hnone : front.get? name = none := Entries.get?_eq_none_iff.2 hfront
  rw [toJson, Entries.get?_append, Entries.get?_append, Entries.get?_append, hnone]
  by_cases htype : name = "type"
  · subst name
    rfl
  by_cases hproperties : name = "properties"
  · subst name
    rfl
  by_cases hrequired : name = "required"
  · subst name
    by_cases hempty : properties.required = []
    · simp [Entries.get?, jsonRequired?, hempty]
    · simp [Entries.get?, jsonRequired?, hempty]
  by_cases hadditional : name = "additionalProperties"
  · subst name
    by_cases hempty : properties.required = []
    · simp [Entries.get?, hempty]
    · simp [Entries.get?, hempty]
  · by_cases hempty : properties.required = []
    · simp [Entries.get?, hempty, Ne.symm htype, Ne.symm hproperties, Ne.symm hadditional,
        htype, hproperties, hrequired, hadditional]
    · simp [Entries.get?, hempty, Ne.symm htype, Ne.symm hproperties, Ne.symm hrequired,
        Ne.symm hadditional, htype, hproperties, hrequired, hadditional]

/-- A schema has the keys of an object type; three names are left to what stands around them. -/
def HasKeys (properties : Properties) (isOpen : Bool) (schema : Json) : Prop :=
  ∀ name, name ≠ "$schema" → name ≠ "title" → name ≠ "definitions" →
    schema.get? name = Entries.get? name (properties.toJson [] isOpen)

theorem HasKeys.get?_eq {properties : Properties} {isOpen : Bool} {schema : Json}
    (hkeys : properties.HasKeys isOpen schema) {name : String}
    (hname : name ∉ ["$schema", "title", "definitions"]) :
    schema.get? name =
      if name = "type" then some (.str "object")
      else if name = "properties" then some (.obj properties.jsonNodes)
      else if name = "required" then properties.jsonRequired?
      else if name = "additionalProperties" then some (.bool isOpen)
      else none := by
  simp only [List.mem_cons, List.not_mem_nil, or_false, not_or] at hname
  rw [hkeys name hname.1 hname.2.1 hname.2.2, get?_toJson _ _ _ (by simp)]

end Properties

theorem Definition.get?_toJson (definition : Definition) {name : String} (hname : name ≠ "title") :
    definition.toJson.get? name =
      Entries.get? name (definition.properties.toJson [] definition.isOpen) := by
  have hnone : Entries.get? name [("title", Json.str definition.title)] = none := by
    simp [Entries.get?, Ne.symm hname]
  rw [toJson, Json.get?_obj, Properties.get?_toJson _ _ _ (by simpa using hname),
    Properties.get?_toJson _ _ _ (by simp)]

theorem Definition.hasKeys (definition : Definition) :
    definition.properties.HasKeys definition.isOpen definition.toJson := by
  intro name _ htitle _
  exact definition.get?_toJson htitle

theorem Definition.get?_properties (definition : Definition) :
    definition.toJson.get? "properties" = some (.obj definition.properties.jsonNodes) := by
  rw [definition.get?_toJson (by simp), Properties.get?_toJson _ _ _ (by simp)]
  simp

theorem Definition.get?_eq_none (definition : Definition) {name : String}
    (hname : name ∉ ["title", "type", "properties", "required", "additionalProperties"]) :
    definition.toJson.get? name = none := by
  simp only [List.mem_cons, List.not_mem_nil, or_false, not_or] at hname
  rw [definition.get?_toJson hname.1, Properties.get?_toJson _ _ _ (by simp)]
  simp [hname]

namespace SchemaDocument

def jsonDefinitions (document : SchemaDocument) : Entries Json :=
  document.definitions.map fun (name, definition) => (name, definition.toJson)

theorem get?_toJson (document : SchemaDocument) {name : String} (hschema : name ≠ "$schema")
    (htitle : name ≠ "title") (hdefinitions : name ≠ "definitions") :
    document.toJson.get? name = Entries.get? name (document.root.toJson [] false) := by
  rw [toJson, Json.get?_obj, Entries.get?_append,
    Properties.get?_toJson _ _ _ (by simp [hschema, htitle]),
    Properties.get?_toJson _ _ _ (by simp)]
  simp [Entries.get?, Ne.symm hdefinitions]

theorem hasKeys (document : SchemaDocument) : document.root.HasKeys false document.toJson := by
  intro name hschema htitle hdefinitions
  exact document.get?_toJson hschema htitle hdefinitions

theorem get?_definitions (document : SchemaDocument) :
    document.toJson.get? "definitions" = some (.obj document.jsonDefinitions) := by
  rw [toJson, Json.get?_obj, Entries.get?_append, Properties.get?_toJson _ _ _ (by simp)]
  simp [Entries.get?, jsonDefinitions]

theorem get?_properties (document : SchemaDocument) :
    document.toJson.get? "properties" = some (.obj document.root.jsonNodes) := by
  rw [document.get?_toJson (by simp) (by simp) (by simp), Properties.get?_toJson _ _ _ (by simp)]
  simp

theorem get?_eq_none (document : SchemaDocument) {name : String}
    (hname : name ∉ ["$schema", "title", "type", "properties", "required",
      "additionalProperties", "definitions"]) :
    document.toJson.get? name = none := by
  simp only [List.mem_cons, List.not_mem_nil, or_false, not_or] at hname
  rw [document.get?_toJson hname.1 hname.2.1 hname.2.2.2.2.2.2,
    Properties.get?_toJson _ _ _ (by simp)]
  simp [hname]

theorem definition?_toJson (document : SchemaDocument) (name : String) :
    document.toJson.definition? name = (document.definitions.get? name).map Definition.toJson := by
  rw [Json.definition?, get?_definitions]
  exact Entries.get?_map Definition.toJson name document.definitions

theorem names_jsonDefinitions (document : SchemaDocument) :
    document.jsonDefinitions.names = document.definitions.names :=
  Entries.names_map Definition.toJson document.definitions

end SchemaDocument

end ConfigSchema
