import ConfigSchema.Proofs.FieldNotes

/-!
# Notes on variants

To note variants is to add descriptions and nothing else: what is left of a document when every
description of a node is taken away is the same.  A description is a key of a node; a property may
have that name, too, and it stays.  Where variants are noted, every enumeration tells its values
and every choice the names of its variants.
-/

namespace ConfigSchema

/-! ## Schemas without descriptions -/

namespace Json

mutual

/-- The schema without its description and those of the schemas inside it. -/
def undescribed : Json → Json
  | .obj keys => .obj (undescribedKeys keys)
  | value => value

def undescribedKeys : List (String × Json) → List (String × Json)
  | [] => []
  | (name, value) :: rest =>
      if name = "description" then undescribedKeys rest
      else (name, undescribedAt name value) :: undescribedKeys rest

/-- What stands under a key of a schema, without the descriptions of the schemas there. -/
def undescribedAt (name : String) : Json → Json
  | .obj entries =>
      if name = "properties" ∨ name = "definitions" then .obj (undescribedEntries entries)
      else if name = "items" then .obj (undescribedKeys entries)
      else .obj entries
  | .arr items => if name = "anyOf" then .arr (undescribedItems items) else .arr items
  | value => value

/-- Schemas under names of their own; `description` may be one of these names. -/
def undescribedEntries : List (String × Json) → List (String × Json)
  | [] => []
  | (name, schema) :: rest => (name, undescribed schema) :: undescribedEntries rest

def undescribedItems : List Json → List Json
  | [] => []
  | schema :: rest => undescribed schema :: undescribedItems rest

end

theorem undescribedEntries_eq_map (entries : Entries Json) :
    undescribedEntries entries = entries.map fun (name, schema) => (name, schema.undescribed) := by
  induction entries with
  | nil => rfl
  | cons entry rest ih =>
      rcases entry with ⟨name, schema⟩
      rw [undescribedEntries, ih]
      rfl

theorem undescribedItems_eq_map (items : List Json) :
    undescribedItems items = items.map undescribed := by
  induction items with
  | nil => rfl
  | cons schema rest ih => rw [undescribedItems, ih, List.map_cons]

theorem undescribedKeys_cons {name : String} (hname : name ≠ "description") (value : Json)
    (rest : Entries Json) :
    undescribedKeys ((name, value) :: rest) =
      (name, undescribedAt name value) :: undescribedKeys rest := by
  rw [undescribedKeys, if_neg hname]

theorem undescribedKeys_append (first second : Entries Json) :
    undescribedKeys (first ++ second) = undescribedKeys first ++ undescribedKeys second := by
  induction first with
  | nil => rfl
  | cons entry rest ih =>
      rcases entry with ⟨name, value⟩
      rw [List.cons_append, undescribedKeys, undescribedKeys, ih]
      split <;> rfl

theorem get?_undescribedKeys {name : String} (hname : name ≠ "description")
    (keys : Entries Json) :
    Entries.get? name (undescribedKeys keys) =
      (Entries.get? name keys).map (undescribedAt name) := by
  induction keys with
  | nil => rfl
  | cons entry rest ih =>
      rcases entry with ⟨first, value⟩
      by_cases hfirst : first = "description"
      · rw [undescribedKeys, if_pos hfirst, ih]
        have hne : first ≠ name := fun heq => hname (heq.symm.trans hfirst)
        rw [Entries.get?, if_neg hne]
      · rw [undescribedKeys_cons hfirst, Entries.get?, Entries.get?]
        by_cases hsame : first = name
        · rw [if_pos hsame, if_pos hsame, hsame]
          rfl
        · rw [if_neg hsame, if_neg hsame, ih]

theorem undescribedAt_items (schema : Json) :
    undescribedAt "items" schema = schema.undescribed := by
  cases schema <;> simp [undescribedAt, undescribed]

theorem undescribedAt_properties (entries : Entries Json) :
    undescribedAt "properties" (.obj entries) =
      .obj (entries.map fun (name, schema) => (name, schema.undescribed)) := by
  rw [undescribedAt, if_pos (.inl rfl), undescribedEntries_eq_map]

theorem undescribedAt_definitions (entries : Entries Json) :
    undescribedAt "definitions" (.obj entries) =
      .obj (entries.map fun (name, schema) => (name, schema.undescribed)) := by
  rw [undescribedAt, if_pos (.inr rfl), undescribedEntries_eq_map]

theorem get?_undescribed {name : String} (hname : name ≠ "description") (schema : Json) :
    schema.undescribed.get? name = (schema.get? name).map (undescribedAt name) := by
  cases schema with
  | obj keys => exact get?_undescribedKeys hname keys
  | _ => rfl

end Json

namespace Node

/-- Nodes that are the same but for descriptions. -/
def SameUndescribed (node other : Node) : Prop :=
  node.toJson.undescribed = other.toJson.undescribed

theorem undescribed_toJson (node : Node) :
    node.toJson.undescribed = .obj (Json.undescribedKeys node.laterKeys) := by
  rw [toJson_eq_keys]
  cases node.note with
  | none => rfl
  | some text => rfl

theorem sameUndescribed_withNote (note : Option String) (node : Node) :
    (node.withNote note).SameUndescribed node := by
  rw [SameUndescribed, undescribed_toJson, undescribed_toJson, laterKeys_withNote]

theorem undescribed_anyOf (note : Option String) (variants : List Node) :
    (Node.anyOf note variants).toJson.undescribed =
      .obj [("anyOf", .arr (variants.map fun variant => variant.toJson.undescribed))] := by
  rw [undescribed_toJson, laterKeys, Json.undescribedKeys_cons (by decide), Json.undescribedAt,
    if_pos rfl, Json.undescribedItems_eq_map, List.map_map]
  rfl

theorem undescribed_array (note : Option String) (items : Node) :
    (Node.array note items).toJson.undescribed =
      .obj [("type", .str "array"), ("items", items.toJson.undescribed)] := by
  rw [undescribed_toJson, laterKeys, Json.undescribedKeys_cons (by decide),
    Json.undescribedKeys_cons (by decide), Json.undescribedAt_items]
  rfl

end Node

namespace TypeGraph

/-- Nodes are the same but for descriptions, whether variants are noted or not. -/
theorem comparesNodes_undescribed (describe describe' : Bool) :
    ComparesNodes Node.SameUndescribed describe describe' where
  leaf := by
    intro type
    rcases type with ⟨name, description, directives, shape⟩
    rw [Node.SameUndescribed, Node.undescribed_toJson, Node.undescribed_toJson]
    cases shape <;> rfl
  anyOf := by
    intro names nodes others hall
    rw [Node.SameUndescribed, Node.undescribed_anyOf, Node.undescribed_anyOf]
    have hmaps : nodes.map (fun node => node.toJson.undescribed) =
        others.map fun node => node.toJson.undescribed := map_eq_map_of_forall₂ hall
    rw [hmaps]

theorem comparesFields_undescribed (field : Field) :
    ComparesFields Node.SameUndescribed field field where
  name := rfl
  base := rfl
  isRequired := rfl
  nodeUnder := by
    intro node node' hnode
    unfold nodeUnder
    cases field.type.isList with
    | true =>
        change Node.SameUndescribed (.array _ node) (.array _ node')
        rw [Node.SameUndescribed, Node.undescribed_array, Node.undescribed_array, hnode]
    | false =>
        change Node.SameUndescribed (node.withNote _) (node'.withNote _)
        rw [Node.SameUndescribed, Node.sameUndescribed_withNote, Node.sameUndescribed_withNote,
          hnode]

end TypeGraph

/-! ## Documents without descriptions -/

namespace Properties

/-- The properties in a schema without descriptions. -/
def undescribedNodes (properties : Properties) : Entries Json :=
  properties.nodes.map fun (name, node) => (name, node.toJson.undescribed)

theorem undescribedAt_jsonNodes (properties : Properties) :
    Json.undescribedAt "properties" (.obj properties.jsonNodes) =
      .obj properties.undescribedNodes := by
  rw [Json.undescribedAt_properties, jsonNodes, List.map_map]
  rfl

theorem undescribedNodes_eq {properties others : Properties}
    (h : properties.Corresponds Node.SameUndescribed others) :
    properties.undescribedNodes = others.undescribedNodes := by
  refine map_eq_map_of_forall₂ (h.nodes.imp fun pair other hpair => ?_)
  exact Prod.ext hpair.1 hpair.2

theorem undescribedKeys_toJson_eq {properties others : Properties}
    (h : properties.Corresponds Node.SameUndescribed others) (front : Entries Json)
    (isOpen : Bool) :
    Json.undescribedKeys (properties.toJson front isOpen) =
      Json.undescribedKeys (others.toJson front isOpen) := by
  have hnodes : Json.undescribedKeys [("type", .str "object"),
        ("properties", .obj properties.jsonNodes)] =
      Json.undescribedKeys [("type", .str "object"), ("properties", .obj others.jsonNodes)] := by
    rw [Json.undescribedKeys_cons (by decide), Json.undescribedKeys_cons (by decide),
      Json.undescribedKeys_cons (by decide), Json.undescribedKeys_cons (by decide),
      undescribedAt_jsonNodes, undescribedAt_jsonNodes, undescribedNodes_eq h]
  unfold Properties.toJson
  rw [h.required]
  simp only [Json.undescribedKeys_append]
  congr 3

end Properties

theorem Definition.undescribed_eq {definition other : Definition}
    (h : definition.Corresponds Node.SameUndescribed other) :
    definition.toJson.undescribed = other.toJson.undescribed := by
  rw [Definition.toJson, Definition.toJson, Json.undescribed, Json.undescribed, h.title, h.isOpen,
    Properties.undescribedKeys_toJson_eq h.properties]

namespace SchemaDocument

/-- The definitions in a document without descriptions. -/
def undescribedDefinitions (document : SchemaDocument) : Entries Json :=
  document.definitions.map fun (key, definition) => (key, definition.toJson.undescribed)

theorem undescribedAt_jsonDefinitions (document : SchemaDocument) :
    Json.undescribedAt "definitions" (.obj document.jsonDefinitions) =
      .obj document.undescribedDefinitions := by
  rw [Json.undescribedAt_definitions, jsonDefinitions, List.map_map]
  rfl

theorem undescribedDefinitions_eq {document other : SchemaDocument}
    (h : document.Corresponds Node.SameUndescribed other) :
    document.undescribedDefinitions = other.undescribedDefinitions := by
  refine map_eq_map_of_forall₂ (h.definitions.imp fun pair other hpair => ?_)
  exact Prod.ext hpair.1 (Definition.undescribed_eq hpair.2)

theorem undescribed_eq {document other : SchemaDocument}
    (h : document.Corresponds Node.SameUndescribed other) :
    document.toJson.undescribed = other.toJson.undescribed := by
  have hdefinitions : Json.undescribedKeys [("definitions", .obj document.jsonDefinitions)] =
      Json.undescribedKeys [("definitions", .obj other.jsonDefinitions)] := by
    rw [Json.undescribedKeys_cons (by decide), Json.undescribedKeys_cons (by decide),
      undescribedAt_jsonDefinitions, undescribedAt_jsonDefinitions, undescribedDefinitions_eq h]
  rw [toJson, toJson, Json.undescribed, Json.undescribed, Json.undescribedKeys_append,
    Json.undescribedKeys_append, h.schemaUri, h.title,
    Properties.undescribedKeys_toJson_eq h.root]
  congr 2

/-- What is left of a document without descriptions has the properties of all names. -/
structure KeepsProperties (document : SchemaDocument) : Prop where
  properties : document.toJson.undescribed.get? "properties" =
    some (.obj document.root.undescribedNodes)
  definitions : document.toJson.undescribed.get? "definitions" =
    some (.obj document.undescribedDefinitions)
  definition_properties : ∀ key definition, (key, definition) ∈ document.definitions →
    definition.toJson.undescribed.get? "properties" =
      some (.obj definition.properties.undescribedNodes)

theorem keepsProperties (document : SchemaDocument) : document.KeepsProperties where
  properties := by
    rw [Json.get?_undescribed (by decide), document.get?_properties, Option.map_some,
      Properties.undescribedAt_jsonNodes]
  definitions := by
    rw [Json.get?_undescribed (by decide), document.get?_definitions, Option.map_some,
      undescribedAt_jsonDefinitions]
  definition_properties := by
    intro key definition _
    rw [Json.get?_undescribed (by decide), definition.get?_properties, Option.map_some,
      Properties.undescribedAt_jsonNodes]

-- A property that is named as the key for descriptions.
example : (SchemaDocument.mk (.str "") (.str "") { nodes := [("description",
      .primitive (some "own") "string")] } []).toJson.undescribed.get? "properties" =
    some (.obj [("description", .obj [("type", .str "string")])]) := by
  rfl

end SchemaDocument

namespace TypeGraph

variable {graph : TypeGraph} {settings : Settings} {asked : Json}

/-! ## Notes of enumerations and choices -/

/-- What is told of the variants of a node, behind a description if there is one. -/
def noted (own : Option String) (text : String) : String :=
  match own with
  | some own => if own = "" then text else own ++ " (" ++ text ++ ")"
  | none => text

/-- A node that is an enumeration or a choice tells what there is to choose from. -/
def TellsVariants [Runtime] (graph : TypeGraph) (own : Option String) : Node → Prop
  | .enum note values => note = some (noted own ("Allowed values: " ++ ", ".intercalate values))
  | .anyOf note variants => ∃ names, graph.OffersVariants true names variants ∧
      note = some (noted own ("Any of: " ++ ", ".intercalate names))
  | _ => True

/-- The property of a name tells its variants, and so does whatever stands below it. -/
def PropertyTellsVariants [Runtime] (graph : TypeGraph) (type : TypeDef) (name : String)
    (node : Node) : Prop :=
  ∃ field, fieldNamed? type.fields name = some field ∧
    graph.TellsVariants field.description node ∧
    ∀ sub, node.Encloses sub → graph.TellsVariants none sub

/-- All properties of a document tell their variants. -/
structure DocumentTellsVariants [Runtime] (graph : TypeGraph) (root : Json)
    (document : SchemaDocument) : Prop where
  root : ∀ name node, (name, node) ∈ document.root.nodes → ∃ type ∈ graph.objects,
    root.isName type.name = true ∧ graph.PropertyTellsVariants type name node
  definition : ∀ key definition, (key, definition) ∈ document.definitions →
    ∀ name node, (name, node) ∈ definition.properties.nodes → ∃ type ∈ graph.objects,
      type.name = key ∧ graph.PropertyTellsVariants type name node

theorem mergedNote_some {text : String} (htext : text ≠ "") (own : Option String) :
    mergedNote own (some text) = some (noted own text) := by
  cases own with
  | none => rfl
  | some own =>
      by_cases hown : own = ""
      · simp [mergedNote, noted, hown]
      · simp [mergedNote, noted, hown, htext]

theorem note_eq_of_leafNode {type : TypeDef} {note : Option String} {values : List String}
    (hleaf : leafNode true type = .enum note values) :
    note = some ("Allowed values: " ++ ", ".intercalate values) := by
  rcases type with ⟨name, description, directives, shape⟩
  cases shape with
  | enum listed =>
      rcases Node.enum.inj hleaf with ⟨rfl, rfl⟩
      rfl
  | scalar =>
      simp only [leafNode, Node.ofScalar?] at hleaf
      cases hkind : Node.scalarKinds.get? name with
      | none => simp [hkind, Node.unknownObject] at hleaf
      | some kind => by_cases hobject : kind = "object" <;> simp [hkind, hobject] at hleaf
  | _ => contradiction

theorem tellsVariants_of_node [Runtime] {name : String} {node : Node}
    (hok : graph.node true name = .ok node) : graph.TellsVariants none node := by
  cases node with
  | anyOf note variants =>
      rcases offersVariants_of_node hok with ⟨names, hoffers, hnote⟩
      exact ⟨names, hoffers, hnote⟩
  | enum note values =>
      rcases exists_alternatives_of_node hok with ⟨type, -, ⟨-, hleaf⟩ | ⟨_, _, -, -, hany⟩⟩
      · exact note_eq_of_leafNode hleaf.symm
      · contradiction
  | _ => trivial

theorem tellsVariants_nodeUnder [Runtime] {field : Field} {base : Node}
    (hbase : graph.TellsVariants none base) :
    graph.TellsVariants field.description (nodeUnder field base) := by
  unfold nodeUnder
  cases field.type.isList with
  | true => trivial
  | false =>
      cases base with
      | enum note values =>
          change mergedNote field.description note = _
          have hnote : note = some ("Allowed values: " ++ ", ".intercalate values) := hbase
          rw [hnote]
          exact mergedNote_some (by simp) field.description
      | anyOf note variants =>
          rcases hbase with ⟨names, hoffers, hnote⟩
          refine ⟨names, hoffers, ?_⟩
          have hplain : note = some ("Any of: " ++ ", ".intercalate names) := hnote
          change mergedNote field.description note = _
          rw [hplain]
          exact mergedNote_some (by simp) field.description
      | _ => trivial

theorem propertyTellsVariants_of_properties [Runtime] {type : TypeDef} {properties : Properties}
    (hok : graph.properties true type.fields = .ok properties) {name : String} {node : Node}
    (hmem : (name, node) ∈ properties.nodes) : graph.PropertyTellsVariants type name node := by
  rcases (mem_nodes_iff hok).1 hmem with ⟨field, hfield, hnode⟩
  have hinner := (tellsNotes_of_fieldNode hnode).inner
  rcases exists_base_of_fieldNode hnode with ⟨base, hbase, hunder⟩
  obtain rfl : node = nodeUnder field base := hunder
  refine ⟨field, hfield, tellsVariants_nodeUnder (tellsVariants_of_node hbase), ?_⟩
  intro sub hencloses
  rcases hinner sub hencloses with ⟨inner, hsub⟩
  exact tellsVariants_of_node hsub

theorem documentTellsVariants [Runtime] (hon : settings.describeVariants.isTruthy = true)
    {document : SchemaDocument} (hok : graph.document settings asked = .ok document) :
    graph.DocumentTellsVariants (rootFor asked settings) document := by
  have horigin := origin_of_document hok
  rw [hon] at horigin
  constructor
  · intro name node hmem
    rcases horigin.1 with hnone | ⟨type, htype, hroot, hproperties⟩
    · rw [hnone] at hmem
      contradiction
    · exact ⟨type, htype, hroot, propertyTellsVariants_of_properties hproperties hmem⟩
  · intro key definition hdefinition name node hmem
    rcases horigin.2 key definition hdefinition with ⟨type, htype, hname, hproperties⟩
    exact ⟨type, htype, hname, propertyTellsVariants_of_properties hproperties hmem⟩

/-- To note variants adds descriptions of nodes to a document, keeps it as it is apart from them,
and tells of every enumeration and every choice what there is to choose from. -/
theorem variant_notes_only_add_descriptions [Runtime] (graph : TypeGraph) (settings : Settings)
    (asked : Json) {on : Json} (hon : on.isTruthy = true) (off : Json) :
    let noted := graph.document { settings with describeVariants := on } asked
    let plain := graph.document { settings with describeVariants := off } asked
    (noted.map fun document => document.toJson.undescribed) =
        (plain.map fun document => document.toJson.undescribed) ∧
      (∀ document, noted = .ok document ∨ plain = .ok document → document.KeepsProperties) ∧
      ∀ document, noted = .ok document →
        graph.DocumentTellsVariants (rootFor asked settings) document := by
  intro noted plain
  refine ⟨?_, ?_, ?_⟩
  · have hgraph : graph.Matches Eq graph := .refl (fun _ => rfl) graph
    have hfields : ∀ field another : Field, field = another →
        ComparesFields Node.SameUndescribed field another := by
      intro field another heq
      rw [heq]
      exact comparesFields_undescribed another
    have hcompare := comparesNodes_undescribed on.isTruthy off.isTruthy
    have hagree : Results.Agree (fun _ => False)
        (SchemaDocument.Corresponds Node.SameUndescribed) noted plain :=
      document_agree hgraph hcompare hfields asked
    exact (hagree.map fun _ _ h => SchemaDocument.undescribed_eq h).eq_of_never
  · intro document _
    exact document.keepsProperties
  · intro document hok
    have hon' : ({ settings with describeVariants := on } : Settings).describeVariants.isTruthy =
        true := hon
    exact documentTellsVariants hon' hok

section Usual

attribute [local instance] Runtime.usual

theorem shelfTypes_variant_notes :
    ∃ document,
      (ofTypes shelfTypes).document { describeVariants := .bool true } (.str "Query") =
          .ok document ∧
        ((ofTypes shelfTypes).document { describeVariants := .bool false } (.str "Query")).map
            (fun plain => plain.toJson.undescribed) = .ok document.toJson.undescribed ∧
        (ofTypes shelfTypes).DocumentTellsVariants (.str "Query") document := by
  rcases exists_document (isIndexed_ofTypes [] nodup_names_shelfTypes) isClosed_shelfTypes
    ranksVariants_shelfTypes.hasFiniteUnions not_isTooDeep_shelfTypes
    { describeVariants := .bool true } (by decide : "Query" ≠ "") (by decide) with ⟨document, hok⟩
  rcases variant_notes_only_add_descriptions (ofTypes shelfTypes) {} (.str "Query")
    (rfl : (Json.bool true).isTruthy = true) (.bool false) with ⟨hsame, -, htells⟩
  refine ⟨document, hok, ?_, htells document hok⟩
  rw [← hsame]
  exact congrArg (Except.map fun document => document.toJson.undescribed) hok

end Usual

end TypeGraph

end ConfigSchema
