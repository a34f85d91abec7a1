import ConfigSchema.Proofs.DocumentKeys
import ConfigSchema.Proofs.DocumentParts

/-!
# References in schema documents

A schema document refers to object types and to nothing else.  A reference stands in it for every
object type that a field leads to, through unions and interfaces nested in any way; all of them
have definitions but the root.  So the document is closed under its references exactly if no field
leads back to the root.
-/

namespace ConfigSchema

namespace Json

/-- The schemas that a schema holds: itself, its properties and definitions, its items and its
alternatives, at any depth. -/
inductive Subschema (document : Json) : Json → Prop
  | self : Subschema document document
  | definition {schema sub : Json} {name : String} {definitions : Entries Json}
      (h : Subschema document schema)
      (hkey : schema.get? "definitions" = some (.obj definitions))
      (hmem : (name, sub) ∈ definitions) : Subschema document sub
  | property {schema sub : Json} {name : String} {properties : Entries Json}
      (h : Subschema document schema)
      (hkey : schema.get? "properties" = some (.obj properties))
      (hmem : (name, sub) ∈ properties) : Subschema document sub
  | items {schema sub : Json} (h : Subschema document schema)
      (hkey : schema.get? "items" = some sub) : Subschema document sub
  | alternative {schema sub : Json} {alternatives : List Json} (h : Subschema document schema)
      (hkey : schema.get? "anyOf" = some (.arr alternatives))
      (hmem : sub ∈ alternatives) : Subschema document sub

/-- A reference to the target stands somewhere in a document. -/
def RefersTo (document target : Json) : Prop :=
  ∃ schema, document.Subschema schema ∧ schema.get? "$ref" = some target

/-- Every reference of a document is to one of its definitions. -/
def IsClosed (document : Json) : Prop :=
  ∀ target, document.RefersTo target →
    ∃ name, target = .str ("#/definitions/" ++ name) ∧ (document.definition? name).isSome

end Json

/-! ## References of nodes -/

namespace Node

/-- A node stands in another one, or is it. -/
inductive Contains : Node → Node → Prop
  | self (node : Node) : Contains node node
  | items {note : Option String} {items sub : Node} (h : Contains items sub) :
      Contains (.array note items) sub
  | variant {note : Option String} {variants : List Node} {node sub : Node}
      (hmem : node ∈ variants) (h : Contains node sub) : Contains (.anyOf note variants) sub

theorem Contains.trans {first second third : Node} (hfirst : first.Contains second)
    (hsecond : second.Contains third) : first.Contains third := by
  induction hfirst with
  | self node => exact hsecond
  | items _ ih => exact .items (ih hsecond)
  | variant hmem _ ih => exact .variant hmem (ih hsecond)

def Mentions (node : Node) (type : String) : Prop :=
  ∃ note, node.Contains (.ref note type)

theorem mentions_ref_iff {note : Option String} {type target : String} :
    (Node.ref note type).Mentions target ↔ type = target := by
  constructor
  · rintro ⟨other, hcontains⟩
    cases hcontains with
    | self => rfl
  · rintro rfl
    exact ⟨note, .self _⟩

theorem mentions_anyOf_iff {note : Option String} {variants : List Node} {target : String} :
    (Node.anyOf note variants).Mentions target ↔ ∃ node ∈ variants, node.Mentions target := by
  constructor
  · rintro ⟨other, hcontains⟩
    cases hcontains with
    | variant hmem h => exact ⟨_, hmem, other, h⟩
  · rintro ⟨node, hmem, other, h⟩
    exact ⟨other, .variant hmem h⟩

theorem mentions_array_iff {note : Option String} {items : Node} {target : String} :
    (Node.array note items).Mentions target ↔ items.Mentions target := by
  constructor
  · rintro ⟨other, hcontains⟩
    cases hcontains with
    | items h => exact ⟨other, h⟩
  · rintro ⟨other, h⟩
    exact ⟨other, .items h⟩

theorem mentions_withNote_iff {note : Option String} {node : Node} {target : String} :
    (node.withNote note).Mentions target ↔ node.Mentions target := by
  cases node with
  | ref own type => rw [withNote, mentions_ref_iff, mentions_ref_iff]
  | anyOf own variants => rw [withNote, mentions_anyOf_iff, mentions_anyOf_iff]
  | array own items => rw [withNote, mentions_array_iff, mentions_array_iff]
  | primitive own kind =>
      constructor
      · rintro ⟨other, hcontains⟩
        cases hcontains
      · rintro ⟨other, hcontains⟩
        cases hcontains
  | anyObject own =>
      constructor
      · rintro ⟨other, hcontains⟩
        cases hcontains
      · rintro ⟨other, hcontains⟩
        cases hcontains
  | enum own values =>
      constructor
      · rintro ⟨other, hcontains⟩
        cases hcontains
      · rintro ⟨other, hcontains⟩
        cases hcontains

end Node

theorem Json.Subschema.of_contains {document : Json} {node sub : Node}
    (hcontains : node.Contains sub) (h : document.Subschema node.toJson) :
    document.Subschema sub.toJson := by
  induction hcontains with
  | self node => exact h
  | @items note items sub _ ih =>
      exact ih (.items h (Node.get?_items_eq_some_iff.2 ⟨note, items, rfl, rfl⟩))
  | @variant note variants node sub hmem _ ih =>
      have hkey := Node.get?_anyOf_eq_some_iff.2 ⟨note, variants, rfl, rfl⟩
      exact ih (.alternative h hkey (List.mem_map_of_mem hmem))

/-! ## References of documents -/

namespace SchemaDocument

/-- The nodes of all properties of a document. -/
def IsProperty (document : SchemaDocument) (node : Node) : Prop :=
  (∃ name, (name, node) ∈ document.root.nodes) ∨
    ∃ key definition name, (key, definition) ∈ document.definitions ∧
      (name, node) ∈ definition.properties.nodes

/-- What a schema inside a document can be. -/
inductive Part (document : SchemaDocument) : Json → Prop
  | whole : Part document document.toJson
  | definition {key : String} {definition : Definition}
      (hmem : (key, definition) ∈ document.definitions) : Part document definition.toJson
  | node {property sub : Node} (hproperty : document.IsProperty property)
      (hcontains : property.Contains sub) : Part document sub.toJson

variable {document : SchemaDocument} {schema sub : Json}

theorem Part.of_definitions (hpart : document.Part schema) {definitions : Entries Json}
    (hkey : schema.get? "definitions" = some (.obj definitions)) {name : String}
    (hmem : (name, sub) ∈ definitions) : document.Part sub := by
  cases hpart with
  | whole =>
      rw [document.get?_definitions, Option.some.injEq, Json.obj.injEq] at hkey
      subst definitions
      obtain ⟨⟨key, definition⟩, hdefinition, heq⟩ := List.mem_map.1 hmem
      rw [Prod.mk.injEq] at heq
      rw [← heq.2]
      exact .definition hdefinition
  | definition _ =>
      rw [Definition.get?_eq_none _ (by simp)] at hkey
      contradiction
  | node _ _ =>
      rw [Node.get?_definitions_eq_none] at hkey
      contradiction

theorem Part.of_properties (hpart : document.Part schema) {properties : Entries Json}
    (hkey : schema.get? "properties" = some (.obj properties)) {name : String}
    (hmem : (name, sub) ∈ properties) : document.Part sub := by
  cases hpart with
  | whole =>
      rw [document.get?_properties, Option.some.injEq, Json.obj.injEq] at hkey
      subst properties
      obtain ⟨node, hnode, rfl⟩ := Properties.mem_jsonNodes_iff.1 hmem
      exact .node (.inl ⟨name, hnode⟩) (.self node)
  | @definition key definition hdefinition =>
      rw [definition.get?_properties, Option.some.injEq, Json.obj.injEq] at hkey
      subst properties
      obtain ⟨node, hnode, rfl⟩ := Properties.mem_jsonNodes_iff.1 hmem
      exact .node (.inr ⟨key, definition, name, hdefinition, hnode⟩) (.self node)
  | node _ _ =>
      have hempty := Node.get?_properties_eq_some hkey
      rw [Json.obj.injEq] at hempty
      subst properties
      simp at hmem

theorem Part.of_items (hpart : document.Part schema) (hkey : schema.get? "items" = some sub) :
    document.Part sub := by
  cases hpart with
  | whole =>
      rw [document.get?_eq_none (by simp)] at hkey
      contradiction
  | definition _ =>
      rw [Definition.get?_eq_none _ (by simp)] at hkey
      contradiction
  | node hproperty hcontains =>
      obtain ⟨note, items, rfl, rfl⟩ := Node.get?_items_eq_some_iff.1 hkey
      exact .node hproperty (hcontains.trans (.items (.self items)))

theorem Part.of_alternatives (hpart : document.Part schema) {alternatives : List Json}
    (hkey : schema.get? "anyOf" = some (.arr alternatives)) (hmem : sub ∈ alternatives) :
    document.Part sub := by
  cases hpart with
  | whole =>
      rw [document.get?_eq_none (by simp)] at hkey
      contradiction
  | definition _ =>
      rw [Definition.get?_eq_none _ (by simp)] at hkey
      contradiction
  | node hproperty hcontains =>
      obtain ⟨note, variants, rfl, heq⟩ := Node.get?_anyOf_eq_some_iff.1 hkey
      rw [Json.arr.injEq] at heq
      subst alternatives
      obtain ⟨variant, hvariant, rfl⟩ := List.mem_map.1 hmem
      exact .node hproperty (hcontains.trans (.variant hvariant (.self variant)))

theorem subschema_of_isProperty {node : Node} (hproperty : document.IsProperty node) :
    document.toJson.Subschema node.toJson := by
  rcases hproperty with ⟨name, hmem⟩ | ⟨key, definition, name, hdefinition, hmem⟩
  · exact .property .self document.get?_properties
      (Properties.mem_jsonNodes_iff.2 ⟨node, hmem, rfl⟩)
  · have hentry : (key, definition.toJson) ∈ document.jsonDefinitions :=
      List.mem_map.2 ⟨(key, definition), hdefinition, rfl⟩
    exact .property (.definition .self document.get?_definitions hentry)
      definition.get?_properties (Properties.mem_jsonNodes_iff.2 ⟨node, hmem, rfl⟩)

theorem part_of_subschema (hsub : document.toJson.Subschema schema) : document.Part schema := by
  induction hsub with
  | self => exact .whole
  | definition _ hkey hmem ih => exact ih.of_definitions hkey hmem
  | property _ hkey hmem ih => exact ih.of_properties hkey hmem
  | items _ hkey ih => exact ih.of_items hkey
  | alternative _ hkey hmem ih => exact ih.of_alternatives hkey hmem

theorem refersTo_iff {target : Json} :
    document.toJson.RefersTo target ↔
      ∃ node type, document.IsProperty node ∧ node.Mentions type ∧
        target = .str (Node.refTarget type) := by
  constructor
  · rintro ⟨schema, hsub, hkey⟩
    cases part_of_subschema hsub with
    | whole =>
        rw [document.get?_eq_none (by simp)] at hkey
        contradiction
    | definition _ =>
        rw [Definition.get?_eq_none _ (by simp)] at hkey
        contradiction
    | @node property sub hproperty hcontains =>
        obtain ⟨note, type, rfl, htarget⟩ := Node.get?_ref_eq_some_iff.1 hkey
        exact ⟨property, type, hproperty, ⟨note, hcontains⟩, htarget⟩
  · rintro ⟨node, type, hproperty, ⟨note, hcontains⟩, rfl⟩
    refine ⟨(Node.ref note type).toJson, ?_, ?_⟩
    · exact (subschema_of_isProperty hproperty).of_contains hcontains
    · exact Node.get?_ref_eq_some_iff.2 ⟨note, type, rfl, rfl⟩

end SchemaDocument

/-! ## References and the graph -/

namespace TypeGraph

variable {graph : TypeGraph} {describe : Bool} {name target : String}

/-- A field that counts, of an object type, leads to a name: its base is the name or is expanded to
it through unions and interfaces. -/
def IsLedTo (graph : TypeGraph) (name : String) : Prop :=
  ∃ type ∈ graph.objects, ∃ field, fieldNamed? type.fields field.name = some field ∧
    Relation.ReflTransGen graph.Expands field.type.base name

theorem isLedTo_iff_of_nodup
    (hfields : ∀ type ∈ graph.objects, (type.fields.map (·.name)).Nodup) :
    graph.IsLedTo name ↔
      ∃ type ∈ graph.objects, ∃ field ∈ type.fields,
        Relation.ReflTransGen graph.Expands field.type.base name := by
  constructor
  · rintro ⟨type, htype, field, hfield, hpath⟩
    exact ⟨type, htype, field, (mem_of_fieldNamed? hfield).1, hpath⟩
  · rintro ⟨type, htype, field, hfield, hpath⟩
    exact ⟨type, htype, field, fieldNamed?_of_mem (hfields type htype) hfield, hpath⟩

theorem leafNode_cases (describe : Bool) (type : TypeDef) :
    type.isObject = true ∧ leafNode describe type = .ref none type.name ∨
      type.isObject = false ∧
        ((∃ kind, leafNode describe type = .primitive none kind) ∨
          (∃ note, leafNode describe type = .anyObject note) ∨
          ∃ note values, leafNode describe type = .enum note values) := by
  rcases type with ⟨name, description, directives, shape⟩
  cases shape with
  | object fields interfaces => exact .inl ⟨rfl, rfl⟩
  | enum values => exact .inr ⟨rfl, .inr (.inr ⟨_, values, rfl⟩)⟩
  | interface fields interfaces => exact .inr ⟨rfl, .inr (.inl ⟨_, rfl⟩)⟩
  | union members => exact .inr ⟨rfl, .inr (.inl ⟨_, rfl⟩)⟩
  | other => exact .inr ⟨rfl, .inr (.inl ⟨_, rfl⟩)⟩
  | scalar =>
      refine .inr ⟨rfl, ?_⟩
      simp only [leafNode, Node.ofScalar?]
      cases Node.scalarKinds.get? name with
      | none => exact .inr (.inl ⟨_, rfl⟩)
      | some kind =>
          by_cases hkind : kind = "object"
          · exact .inr (.inl ⟨none, by simp [hkind]⟩)
          · exact .inl ⟨kind, by simp [hkind]⟩

theorem leafNode_eq_ref_iff {type : TypeDef} {note : Option String} :
    leafNode describe type = .ref note target ↔
      type.isObject = true ∧ note = none ∧ target = type.name := by
  rcases leafNode_cases describe type with ⟨hkind, hleaf⟩ | ⟨hkind, hleaf⟩
  · simp [hleaf, hkind, eq_comm]
  · rcases hleaf with ⟨kind, hleaf⟩ | ⟨own, hleaf⟩ | ⟨own, values, hleaf⟩ <;>
      simp [hleaf, hkind]

theorem leafNode_ne_array {type : TypeDef} {note : Option String} {items : Node} :
    leafNode describe type ≠ .array note items := by
  rcases leafNode_cases describe type with ⟨-, hleaf⟩ | ⟨-, hleaf⟩
  · simp [hleaf]
  · rcases hleaf with ⟨kind, hleaf⟩ | ⟨own, hleaf⟩ | ⟨own, values, hleaf⟩ <;> simp [hleaf]

theorem leafNode_ne_anyOf {type : TypeDef} {note : Option String} {variants : List Node} :
    leafNode describe type ≠ .anyOf note variants := by
  rcases leafNode_cases describe type with ⟨-, hleaf⟩ | ⟨-, hleaf⟩
  · simp [hleaf]
  · rcases hleaf with ⟨kind, hleaf⟩ | ⟨own, hleaf⟩ | ⟨own, values, hleaf⟩ <;> simp [hleaf]

private theorem reaches_of_contains [Runtime] (hname : graph.IsNamed) {node sub : Node}
    (hcontains : node.Contains sub) {note : Option String} (hsub : sub = .ref note target)
    (hok : graph.node describe name = .ok node) :
    Relation.ReflTransGen graph.Expands name target ∧
      ∃ type, graph.index.get? target = some type ∧ type.isObject = true := by
  induction hcontains generalizing name with
  | self node =>
      obtain ⟨type, hget, ⟨-, hleaf⟩ | ⟨variants, nodes, -, -, hany⟩⟩ :=
        exists_type_of_node hname hok
      · rw [hsub] at hleaf
        obtain ⟨hkind, -, htarget⟩ := leafNode_eq_ref_iff.1 hleaf.symm
        have hsame : target = name := htarget.trans (hname name type hget)
        rw [hsame]
        exact ⟨.refl, type, hget, hkind⟩
      · rw [hsub] at hany
        contradiction
  | @items own items sub _ _ =>
      obtain ⟨type, hget, ⟨-, hleaf⟩ | ⟨variants, nodes, -, -, hany⟩⟩ :=
        exists_type_of_node hname hok
      · exact absurd hleaf.symm leafNode_ne_array
      · contradiction
  | @variant own nodes node sub hmem _ ih =>
      obtain ⟨type, hget, ⟨-, hleaf⟩ | ⟨variants, others, hvariants, hall, hany⟩⟩ :=
        exists_type_of_node hname hok
      · exact absurd hleaf.symm leafNode_ne_anyOf
      · rw [Node.anyOf.injEq] at hany
        rw [hany.2] at hmem
        obtain ⟨next, hnext, hnode⟩ := Results.exists_left_of_forall₂ hall hmem
        obtain ⟨hpath, htype⟩ := ih hsub hnode
        exact ⟨.head ⟨type, variants, hget, hvariants, hnext⟩ hpath, htype⟩

theorem mentions_iff_of_node [Runtime] (hname : graph.IsNamed) {node : Node}
    (hok : graph.node describe name = .ok node) :
    node.Mentions target ↔
      Relation.ReflTransGen graph.Expands name target ∧
        ∃ type, graph.index.get? target = some type ∧ type.isObject = true := by
  constructor
  · rintro ⟨note, hcontains⟩
    exact reaches_of_contains hname hcontains rfl hok
  · rintro ⟨hpath, type, hget, hkind⟩
    induction hpath using Relation.ReflTransGen.head_induction_on generalizing node with
    | refl =>
        obtain ⟨other, hother, ⟨-, rfl⟩ | ⟨variants, nodes, hvariants, -, -⟩⟩ :=
          exists_type_of_node hname hok
        · rw [hget, Option.some.injEq] at hother
          subst other
          rw [leafNode_eq_ref_iff.2 ⟨hkind, rfl, (hname _ _ hget).symm⟩]
          exact Node.mentions_ref_iff.2 rfl
        · rw [hget, Option.some.injEq] at hother
          subst other
          rw [variants?_eq_none_of_isObject hkind] at hvariants
          contradiction
    | @head first next hstep _ ih =>
        obtain ⟨other, hother, ⟨hnone, -⟩ | ⟨variants, nodes, hvariants, hall, rfl⟩⟩ :=
          exists_type_of_node hname hok
        · obtain ⟨variants, hsome, -⟩ := (expands_iff hother).1 hstep
          rw [hnone] at hsome
          contradiction
        · obtain ⟨others, hothers, hmem⟩ := (expands_iff hother).1 hstep
          rw [hvariants, Option.some.injEq] at hothers
          subst others
          obtain ⟨sub, hsub, hnode⟩ := Results.exists_right_of_forall₂ hall hmem
          exact Node.mentions_anyOf_iff.2 ⟨sub, hsub, ih hnode⟩

theorem mentions_iff_of_fieldNode [Runtime] (hname : graph.IsNamed) {field : Field} {node : Node}
    (hok : graph.fieldNode describe field = .ok node) :
    node.Mentions target ↔
      Relation.ReflTransGen graph.Expands field.type.base target ∧
        ∃ type, graph.index.get? target = some type ∧ type.isObject = true := by
  obtain ⟨base, hbase, hnode⟩ := exists_base_of_fieldNode hok
  rw [← mentions_iff_of_node hname hbase, hnode]
  split
  · exact Node.mentions_array_iff
  · exact Node.mentions_withNote_iff

theorem HasParts.isProperty_iff [Runtime] {root : String} {document : SchemaDocument}
    (hparts : graph.HasParts describe root document) {node : Node} :
    document.IsProperty node ↔
      ∃ type ∈ graph.objects, ∃ field, fieldNamed? type.fields field.name = some field ∧
        graph.fieldNode describe field = .ok node := by
  have hfields : ∀ (type : TypeDef) properties,
      graph.properties describe type.fields = .ok properties → ∀ name,
      (name, node) ∈ properties.nodes →
      ∃ field, fieldNamed? type.fields field.name = some field ∧
        graph.fieldNode describe field = .ok node := by
    intro type properties hproperties name hmem
    obtain ⟨field, hfield, hnode⟩ := (mem_nodes_iff hproperties).1 hmem
    rw [← (mem_of_fieldNamed? hfield).2] at hfield
    exact ⟨field, hfield, hnode⟩
  constructor
  · rintro (⟨name, hmem⟩ | ⟨key, definition, name, hdefinition, hmem⟩)
    · by_cases hroot : ∃ type ∈ graph.objects, type.name = root
      · obtain ⟨type, htype, hname⟩ := hroot
        exact ⟨type, htype, hfields type _ (hparts.root_eq type htype hname) name hmem⟩
      · have hmissing : ∀ type ∈ graph.objects, type.name ≠ root := by simpa using hroot
        rw [hparts.root_missing hmissing] at hmem
        simp at hmem
    · have hkey : key ∈ document.definitions.names := List.mem_map_of_mem hdefinition
      rw [hparts.names_definitions, List.mem_filter, List.mem_map] at hkey
      obtain ⟨⟨type, htype, rfl⟩, hne⟩ := hkey
      obtain ⟨properties, hproperties, hget⟩ :=
        hparts.definition_eq type htype (by simpa using hne)
      rw [Entries.get?_eq_some_of_mem hparts.nodup_definitions hdefinition,
        Option.some.injEq] at hget
      subst definition
      exact ⟨type, htype, hfields type _ hproperties name hmem⟩
  · rintro ⟨type, htype, field, hfield, hnode⟩
    by_cases hname : type.name = root
    · have hproperties := hparts.root_eq type htype hname
      exact .inl ⟨field.name, (mem_nodes_iff hproperties).2 ⟨field, hfield, hnode⟩⟩
    · obtain ⟨properties, hproperties, hget⟩ := hparts.definition_eq type htype hname
      refine .inr ⟨type.name, definitionOf type properties, field.name,
        Entries.mem_of_get? hget, ?_⟩
      exact (mem_nodes_iff hproperties).2 ⟨field, hfield, hnode⟩

theorem HasParts.refersTo_iff [Runtime] {root : String} {document : SchemaDocument}
    (hparts : graph.HasParts describe root document) (hindexed : graph.IsIndexed) {target : Json} :
    document.toJson.RefersTo target ↔
      ∃ type ∈ graph.objects, graph.IsLedTo type.name ∧
        target = .str (Node.refTarget type.name) := by
  have hname := hindexed.isNamed
  rw [SchemaDocument.refersTo_iff]
  constructor
  · rintro ⟨node, key, hproperty, hmentions, rfl⟩
    obtain ⟨owner, howner, field, hfield, hnode⟩ := hparts.isProperty_iff.1 hproperty
    obtain ⟨hpath, type, hget, hkind⟩ := (mentions_iff_of_fieldNode hname hnode).1 hmentions
    obtain ⟨htype, rfl⟩ := (hindexed key type).1 hget
    exact ⟨type, mem_objects_iff.2 ⟨htype, hkind⟩, ⟨owner, howner, field, hfield, hpath⟩, rfl⟩
  · rintro ⟨type, htype, ⟨owner, howner, field, hfield, hpath⟩, rfl⟩
    obtain ⟨hmem, hkind⟩ := mem_objects_iff.1 htype
    obtain ⟨node, hnode⟩ := hparts.exists_fieldNode howner (mem_of_fieldNamed? hfield).1
    refine ⟨node, type.name, hparts.isProperty_iff.2 ⟨owner, howner, field, hfield, hnode⟩,
      ?_, rfl⟩
    exact (mentions_iff_of_fieldNode hname hnode).2
      ⟨hpath, type, hindexed.get?_name hmem, hkind⟩

theorem HasParts.definition?_root_eq_none [Runtime] {root : String} {document : SchemaDocument}
    (hparts : graph.HasParts describe root document) :
    document.toJson.definition? root = none := by
  have hnotMem : root ∉ document.definitions.names := by
    rw [hparts.names_definitions]
    simp
  rw [document.definition?_toJson, Entries.get?_eq_none_iff.2 hnotMem]
  rfl

/-- The references of a document are to object types, which have definitions but for the root; and
it refers to the root exactly if a field leads back to it. -/
theorem document_references [Runtime] {types : List TypeDef} {directives : List String}
    (hnames : (types.map (·.name)).Nodup) {settings : Settings} {root : String} (hroot : root ≠ "")
    {document : SchemaDocument}
    (hok : (ofTypes types directives).document settings (.str root) = .ok document) :
    let graph := ofTypes types directives
    (∀ target, document.toJson.RefersTo target →
        ∃ type ∈ graph.objects, target = .str ("#/definitions/" ++ type.name) ∧
          (type.name ≠ root → (document.toJson.definition? type.name).isSome)) ∧
      document.toJson.definition? root = none ∧
      (document.toJson.RefersTo (.str ("#/definitions/" ++ root)) ↔
        (∃ type ∈ graph.objects, type.name = root) ∧ graph.IsLedTo root) ∧
      (document.toJson.IsClosed ↔
        ¬ ((∃ type ∈ graph.objects, type.name = root) ∧ graph.IsLedTo root)) := by
  intro graph
  have hindexed : graph.IsIndexed := isIndexed_ofTypes directives hnames
  have hparts : graph.HasParts settings.describeVariants.isTruthy root document :=
    hasParts_of_document hindexed hnames hroot hok
  have hdefined : ∀ type ∈ graph.objects, type.name ≠ root →
      (document.toJson.definition? type.name).isSome := by
    intro type htype hne
    obtain ⟨properties, -, hget⟩ := hparts.definition_eq type htype hne
    simp [document.definition?_toJson, hget]
  have hdangling := hparts.definition?_root_eq_none
  have hback : document.toJson.RefersTo (.str ("#/definitions/" ++ root)) ↔
      (∃ type ∈ graph.objects, type.name = root) ∧ graph.IsLedTo root := by
    rw [hparts.refersTo_iff hindexed]
    constructor
    · rintro ⟨type, htype, hled, htarget⟩
      have hname : type.name = root := (Node.refTarget_inj.1 (Json.str.inj htarget)).symm
      exact ⟨⟨type, htype, hname⟩, hname ▸ hled⟩
    · rintro ⟨⟨type, htype, rfl⟩, hled⟩
      exact ⟨type, htype, hled, rfl⟩
  refine ⟨?_, hdangling, hback, ?_⟩
  · intro target hrefers
    obtain ⟨type, htype, -, rfl⟩ := (hparts.refersTo_iff hindexed).1 hrefers
    exact ⟨type, htype, rfl, hdefined type htype⟩
  · rw [← hback]
    constructor
    · intro hclosed hrefers
      obtain ⟨name, htarget, hsome⟩ := hclosed _ hrefers
      have hname : root = name := by simpa using htarget
      rw [← hname, hdangling] at hsome
      contradiction
    · intro hnone target hrefers
      obtain ⟨type, htype, -, rfl⟩ := (hparts.refersTo_iff hindexed).1 hrefers
      have hne : type.name ≠ root := by
        rintro rfl
        exact hnone hrefers
      exact ⟨type.name, rfl, hdefined type htype hne⟩

section Usual

attribute [local instance] Runtime.usual

theorem shelfTypes_refers_to_root :
    ∃ document, (ofTypes shelfTypes).document {} (.str "Shelf") = .ok document ∧
      document.toJson.RefersTo (.str ("#/definitions/" ++ "Shelf")) ∧
      document.toJson.definition? "Shelf" = none := by
  obtain ⟨document, hok⟩ :=
    exists_document_shelfTypes (by decide : "Shelf" ≠ "") (by decide)
  obtain ⟨-, hnone, hback, -⟩ :=
    document_references nodup_names_shelfTypes (by decide : "Shelf" ≠ "") hok
  have hled : (ofTypes shelfTypes).IsLedTo "Shelf" := by
    obtain ⟨type, htype, field, hfield, hbase⟩ : ∃ type ∈ (ofTypes shelfTypes).objects,
      ∃ field ∈ type.fields, field.type.base = "Shelf" := by decide
    refine (isLedTo_iff_of_nodup (by decide)).2 ⟨type, htype, field, hfield, ?_⟩
    rw [hbase]
  exact ⟨document, hok, hback.2 ⟨by decide, hled⟩, hnone⟩

end Usual

/-- An object whose field leads to itself, and a later field of the same name that does not. -/
def repeatedFieldTypes : List TypeDef :=
  [{ name := "Query"
     shape := .object [{ name := "a", type := .named "Query" },
       { name := "a", type := .named "String" }] [] },
    { name := "String", shape := .scalar }]

section Usual

attribute [local instance] Runtime.usual

/-- A field that leads back to the root leaves no reference if another one has its name. -/
theorem repeatedField_hides_reference :
    (repeatedFieldTypes.map (·.name)).Nodup ∧ (ofTypes repeatedFieldTypes).IsClosed ∧
      (ofTypes repeatedFieldTypes).HasFiniteUnions ∧
      (∃ type ∈ (ofTypes repeatedFieldTypes).objects, type.name = "Query" ∧
        ∃ field ∈ type.fields, field.type.base = "Query") ∧
      ∃ document, (ofTypes repeatedFieldTypes).document {} (.str "Query") = .ok document ∧
        ¬ document.toJson.RefersTo (.str ("#/definitions/" ++ "Query")) := by
  have hnames : (repeatedFieldTypes.map (·.name)).Nodup := by decide
  have hindexed := isIndexed_ofTypes [] hnames
  have hclosed : (ofTypes repeatedFieldTypes).IsClosed := by decide
  have hrank : (ofTypes repeatedFieldTypes).RanksVariants fun _ => 0 := by decide
  have hfound : ∃ type ∈ (ofTypes repeatedFieldTypes).objects, type.name = "Query" := by decide
  refine ⟨hnames, hclosed, hrank.hasFiniteUnions, by decide, ?_⟩
  rcases document_outcome hindexed hclosed hrank.hasFiniteUnions {} (by decide : "Query" ≠ "") with
    ⟨hdeep, -⟩ | ⟨-, hmissing, -⟩ | ⟨-, -, document, hok⟩
  · exact absurd hdeep (hrank.not_isTooDeep fun _ => by decide)
  · obtain ⟨type, htype, hname⟩ := hfound
    exact absurd hname (hmissing type htype)
  refine ⟨document, hok, fun hrefers => ?_⟩
  have hparts := hasParts_of_document hindexed hnames (by decide) hok
  obtain ⟨type, htype, ⟨owner, howner, field, hfield, hpath⟩, htarget⟩ :=
    (hparts.refersTo_iff hindexed).1 hrefers
  have hname : type.name = "Query" := (Node.refTarget_inj.1 (Json.str.inj htarget)).symm
  have hbase : field.type.base = "Query" := by
    rcases Relation.ReflTransGen.cases_head hpath with heq | ⟨next, hstep, -⟩
    · exact heq.trans hname
    · exact absurd (hrank.lt_of_expands hstep) (Nat.lt_irrefl 0)
  have hall : ∀ owner ∈ (ofTypes repeatedFieldTypes).objects, ∀ field ∈ owner.fields,
      fieldNamed? owner.fields field.name = some field → field.type.base ≠ "Query" := by decide
  exact hall owner howner field (mem_of_fieldNamed? hfield).1 hfield hbase

end Usual

end TypeGraph

end ConfigSchema
