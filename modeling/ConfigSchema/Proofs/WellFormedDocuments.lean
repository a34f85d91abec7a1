import ConfigSchema.Proofs.References

/-!
# Well-formed schema documents

A schema document follows the rules of draft 4 for every keyword that it uses unless it lists
nothing where something must be listed.  The one way to get such a list is a field that leads,
directly or through unions of unions, to a type that offers no choice: an enum without values, a
union without members, or an interface that no object type implements.
-/

namespace ConfigSchema

namespace Json

/-- The keywords whose values are texts. -/
def textKeywords : List String :=
  ["$schema", "$ref", "title", "description"]

/-- The kinds of values that a schema may ask for. -/
def simpleTypes : List String :=
  ["array", "boolean", "integer", "null", "number", "object", "string"]

/-- A keyword may have a value by draft 4.  Schemas are objects; the rules for those that a value
holds are asked of them in turn. -/
inductive Suits : String → Json → Prop
  | text {keyword : String} (h : keyword ∈ textKeywords) (text : String) :
      Suits keyword (.str text)
  | type {kind : String} (h : kind ∈ simpleTypes) : Suits "type" (.str kind)
  | enum {values : List Json} (hne : values ≠ []) (hnodup : values.Nodup) :
      Suits "enum" (.arr values)
  | anyOf {schemas : List Json} (hne : schemas ≠ []) : Suits "anyOf" (.arr schemas)
  | items (schema : Entries Json) : Suits "items" (.obj schema)
  | properties (schemas : Entries Json) : Suits "properties" (.obj schemas)
  | definitions (schemas : Entries Json) : Suits "definitions" (.obj schemas)
  | required {names : List String} (hne : names ≠ []) (hnodup : names.Nodup) :
      Suits "required" (.arr (names.map .str))
  | additionalProperties (flag : Bool) : Suits "additionalProperties" (.bool flag)

/-- A schema is an object whose keywords have values that suit them. -/
def FollowsRules : Json → Prop
  | .obj entries => ∀ entry ∈ entries, Suits entry.1 entry.2
  | _ => False

/-- A document and all schemas that it holds follow the rules. -/
def IsWellFormed (document : Json) : Prop :=
  ∀ schema, document.Subschema schema → schema.FollowsRules

/-- What a schema requires is among its properties. -/
def RequiresDeclared (schema : Json) : Prop :=
  ∀ names, schema.get? "required" = some (Json.texts names) → ∀ name ∈ names,
    ∃ properties : Entries Json, schema.get? "properties" = some (.obj properties) ∧
      name ∈ properties.names

theorem suits_type_iff {kind : String} : Suits "type" (.str kind) ↔ kind ∈ simpleTypes := by
  constructor
  · generalize hkeyword : "type" = keyword
    intro hsuits
    cases hsuits with
    | text h =>
        rw [← hkeyword] at h
        exact absurd h (by decide)
    | type h => exact h
  · exact .type

theorem suits_enum_iff {values : List String} :
    Suits "enum" (Json.texts values) ↔ values ≠ [] ∧ values.Nodup := by
  have hinjective : Function.Injective Json.str := fun _ _ heq => Json.str.inj heq
  have hvalues : values.map Json.str ≠ [] ∧ (values.map Json.str).Nodup ↔
      values ≠ [] ∧ values.Nodup := by
    rw [List.nodup_map_iff hinjective, ne_eq, List.map_eq_nil_iff]
  rw [← hvalues, Json.texts]
  constructor
  · generalize hkeyword : "enum" = keyword
    generalize values.map Json.str = items
    intro hsuits
    cases hsuits with
    | enum hne hnodup => exact ⟨hne, hnodup⟩
    | anyOf _ => exact absurd hkeyword (by decide)
    | required _ _ => exact absurd hkeyword (by decide)
  · rintro ⟨hne, hnodup⟩
    exact .enum hne hnodup

theorem suits_anyOf_iff {schemas : List Json} : Suits "anyOf" (.arr schemas) ↔ schemas ≠ [] := by
  constructor
  · generalize hkeyword : "anyOf" = keyword
    intro hsuits
    cases hsuits with
    | enum _ _ => exact absurd hkeyword (by decide)
    | anyOf hne => exact hne
    | required _ _ => exact absurd hkeyword (by decide)
  · exact .anyOf

theorem texts_injective {first second : List String} (heq : Json.texts first = Json.texts second) :
    first = second :=
  List.map_injective_iff.2 (fun _ _ hstr => Json.str.inj hstr) (Json.arr.inj heq)

end Json

/-! ## Nodes -/

namespace Node

/-- What a node lists is not empty, what it enumerates is different, and its kind is one of those
that there are. -/
def IsFilled : Node → Prop
  | .primitive _ kind => kind ∈ Json.simpleTypes
  | .enum _ values => values ≠ [] ∧ values.Nodup
  | .anyOf _ variants => variants ≠ []
  | _ => True

theorem followsRules_keys_iff {note : Option String} {rest : Entries Json} :
    (keys note rest).FollowsRules ↔ ∀ entry ∈ rest, Json.Suits entry.1 entry.2 := by
  cases note with
  | none => exact Iff.rfl
  | some text =>
      have hnote : Json.Suits "description" (.str text) := .text (by decide) text
      rw [keys, Json.FollowsRules, List.forall_mem_cons]
      exact and_iff_right hnote

theorem followsRules_toJson_iff (node : Node) : node.toJson.FollowsRules ↔ node.IsFilled := by
  have hkind : ∀ kind ∈ Json.simpleTypes, Json.Suits "type" (.str kind) := fun _ => .type
  cases node with
  | primitive note kind =>
      rw [toJson, followsRules_keys_iff, List.forall_mem_singleton]
      exact Json.suits_type_iff
  | anyObject note =>
      rw [toJson, followsRules_keys_iff, List.forall_mem_cons, List.forall_mem_singleton]
      exact iff_of_true ⟨hkind _ (by decide), .properties []⟩ trivial
  | enum note values =>
      rw [toJson, followsRules_keys_iff, List.forall_mem_cons, List.forall_mem_singleton,
        and_iff_right (hkind _ (by decide))]
      exact Json.suits_enum_iff
  | ref note type =>
      have href : "$ref" ∈ Json.textKeywords := by decide
      rw [toJson, followsRules_keys_iff, List.forall_mem_singleton]
      exact iff_of_true (.text href _) trivial
  | anyOf note variants =>
      rw [toJson, followsRules_keys_iff, List.forall_mem_singleton, toJsons_eq_map,
        Json.suits_anyOf_iff, ne_eq, List.map_eq_nil_iff]
      rfl
  | array note items =>
      have hitems : ∃ entries, items.toJson = .obj entries := by cases items <;> exact ⟨_, rfl⟩
      obtain ⟨entries, hentries⟩ := hitems
      rw [toJson, followsRules_keys_iff, List.forall_mem_cons, List.forall_mem_singleton, hentries]
      exact iff_of_true ⟨hkind _ (by decide), .items entries⟩ trivial

theorem get?_required_eq_none (node : Node) : node.toJson.get? "required" = none := by
  rw [get?_toJson (by simp)]
  cases node <;> simp [laterKeys, Entries.get?]

/-- Somewhere in a node something is missing. -/
def HasGap (node : Node) : Prop :=
  ∃ sub, node.Contains sub ∧ ¬ sub.IsFilled

theorem hasGap_anyOf_iff {note : Option String} {variants : List Node} :
    (Node.anyOf note variants).HasGap ↔ variants = [] ∨ ∃ node ∈ variants, node.HasGap := by
  constructor
  · rintro ⟨sub, hcontains, hgap⟩
    cases hcontains with
    | self => exact .inl (not_not.1 hgap)
    | variant hmem h => exact .inr ⟨_, hmem, sub, h, hgap⟩
  · rintro (hempty | ⟨node, hmem, sub, h, hgap⟩)
    · exact ⟨_, .self _, not_not.2 hempty⟩
    · exact ⟨sub, .variant hmem h, hgap⟩

theorem hasGap_array_iff {note : Option String} {items : Node} :
    (Node.array note items).HasGap ↔ items.HasGap := by
  constructor
  · rintro ⟨sub, hcontains, hgap⟩
    cases hcontains with
    | self => exact absurd trivial hgap
    | items h => exact ⟨sub, h, hgap⟩
  · rintro ⟨sub, h, hgap⟩
    exact ⟨sub, .items h, hgap⟩

theorem hasGap_withNote_iff {note : Option String} {node : Node} :
    (node.withNote note).HasGap ↔ node.HasGap := by
  cases node with
  | anyOf own variants => rw [withNote, hasGap_anyOf_iff, hasGap_anyOf_iff]
  | array own items => rw [withNote, hasGap_array_iff, hasGap_array_iff]
  | _ =>
      constructor
      · rintro ⟨sub, hcontains, hgap⟩
        cases hcontains
        exact ⟨_, .self _, hgap⟩
      · rintro ⟨sub, hcontains, hgap⟩
        cases hcontains
        exact ⟨_, .self _, hgap⟩

/-- The schemas inside a node are nodes of it, and the maps among them are empty. -/
theorem exists_contains_of_subschema {node : Node} {schema : Json}
    (hsub : node.toJson.Subschema schema) :
    ∃ inner, node.Contains inner ∧ schema = inner.toJson := by
  induction hsub with
  | self => exact ⟨node, .self node, rfl⟩
  | definition _ hkey _ ih =>
      obtain ⟨inner, -, rfl⟩ := ih
      rw [get?_definitions_eq_none] at hkey
      contradiction
  | property _ hkey hmem ih =>
      obtain ⟨inner, -, rfl⟩ := ih
      rw [Json.obj.inj (get?_properties_eq_some hkey)] at hmem
      exact absurd hmem List.not_mem_nil
  | items _ hkey ih =>
      obtain ⟨inner, hinner, rfl⟩ := ih
      obtain ⟨note, items, rfl, rfl⟩ := get?_items_eq_some_iff.1 hkey
      exact ⟨items, hinner.trans (.items (.self items)), rfl⟩
  | alternative _ hkey hmem ih =>
      obtain ⟨inner, hinner, rfl⟩ := ih
      obtain ⟨note, variants, rfl, heq⟩ := get?_anyOf_eq_some_iff.1 hkey
      rw [Json.arr.inj heq] at hmem
      obtain ⟨variant, hvariant, rfl⟩ := List.mem_map.1 hmem
      exact ⟨variant, hinner.trans (.variant hvariant (.self variant)), rfl⟩

end Node

/-! ## Documents -/

namespace Properties

theorem suits_of_mem_toJson {properties : Properties} (hrequired : properties.required.Nodup)
    {front : Entries Json} (hfront : ∀ entry ∈ front, Json.Suits entry.1 entry.2) (isOpen : Bool) :
    ∀ entry ∈ properties.toJson front isOpen, Json.Suits entry.1 entry.2 := by
  intro entry hentry
  rw [toJson, List.mem_append, List.mem_append, List.mem_append] at hentry
  rcases hentry with ((hfronted | hfixed) | hlisted) | hlast
  · exact hfront entry hfronted
  · rcases List.mem_cons.1 hfixed with rfl | hmap
    · exact .type (by decide)
    · rw [List.mem_singleton.1 hmap]
      exact .properties _
  · cases hempty : properties.required.isEmpty with
    | true => simp [hempty] at hlisted
    | false =>
        simp only [hempty, Bool.false_eq_true, if_false, List.mem_singleton] at hlisted
        rw [hlisted]
        exact .required (by simpa using hempty) hrequired
  · rw [List.mem_singleton.1 hlast]
    exact .additionalProperties isOpen

theorem HasKeys.requiresDeclared {properties : Properties} {isOpen : Bool} {schema : Json}
    (hkeys : properties.HasKeys isOpen schema)
    (hdeclared : ∀ name ∈ properties.required, name ∈ properties.nodes.names) :
    schema.RequiresDeclared := by
  intro names hrequired name hname
  refine ⟨properties.jsonNodes, by simp [hkeys.get?_eq], ?_⟩
  rw [properties.names_jsonNodes]
  apply hdeclared
  rw [hkeys.get?_eq (by simp)] at hrequired
  simp only [String.reduceEq, if_false, if_true, jsonRequired?, Option.ite_none_left_eq_some,
    Option.some.injEq] at hrequired
  rw [Json.texts_injective hrequired.2]
  exact hname

end Properties

namespace SchemaDocument

variable {document : SchemaDocument}

/-- The properties at the top of a document and in its definitions. -/
inductive HasProperties (document : SchemaDocument) : Properties → Prop
  | root : HasProperties document document.root
  | definition {key : String} {definition : Definition}
      (hmem : (key, definition) ∈ document.definitions) :
      HasProperties document definition.properties

theorem isWellFormed_iff {uri title : String} (huri : document.schemaUri = .str uri)
    (htitle : document.title = .str title)
    (hrequired : ∀ properties, document.HasProperties properties → properties.required.Nodup) :
    document.toJson.IsWellFormed ↔ ∀ node, document.IsProperty node → ¬ node.HasGap := by
  constructor
  · rintro hformed node hproperty ⟨sub, hcontains, hgap⟩
    have hsub := (subschema_of_isProperty hproperty).of_contains hcontains
    exact hgap ((Node.followsRules_toJson_iff sub).1 (hformed _ hsub))
  · intro hfilled schema hsub
    cases part_of_subschema hsub with
    | whole =>
        have hfront : ∀ entry ∈ [("$schema", document.schemaUri), ("title", document.title)],
            Json.Suits entry.1 entry.2 := by
          simp only [huri, htitle, List.forall_mem_cons, List.not_mem_nil, false_implies,
            implies_true, and_true]
          exact ⟨.text (by decide) uri, .text (by decide) title⟩
        rw [toJson, Json.FollowsRules, List.forall_mem_append, List.forall_mem_singleton]
        exact ⟨Properties.suits_of_mem_toJson (hrequired _ .root) hfront false, .definitions _⟩
    | @definition key definition hmem =>
        have htitled : "title" ∈ Json.textKeywords := by decide
        refine Properties.suits_of_mem_toJson (hrequired _ (.definition hmem)) ?_ _
        rw [List.forall_mem_singleton]
        exact .text htitled definition.title
    | @node property sub hproperty hcontains =>
        rw [Node.followsRules_toJson_iff]
        by_contra hgap
        exact hfilled property hproperty ⟨sub, hcontains, hgap⟩

theorem requiresDeclared_of_subschema
    (hdeclared : ∀ properties, document.HasProperties properties →
      ∀ name ∈ properties.required, name ∈ properties.nodes.names)
    {schema : Json} (hsub : document.toJson.Subschema schema) : schema.RequiresDeclared := by
  cases part_of_subschema hsub with
  | whole => exact document.hasKeys.requiresDeclared (hdeclared _ .root)
  | @definition key definition hmem =>
      exact definition.hasKeys.requiresDeclared (hdeclared _ (.definition hmem))
  | @node property sub _ _ =>
      intro names hkey
      rw [sub.get?_required_eq_none] at hkey
      contradiction

/-- No properties are declared below a property. -/
theorem empty_of_subschema_property {schema node inner value : Json} {properties : Entries Json}
    {name : String} (hsub : document.toJson.Subschema schema)
    (hkey : schema.get? "properties" = some (.obj properties)) (hmem : (name, node) ∈ properties)
    (hinner : node.Subschema inner) (hvalue : inner.get? "properties" = some value) :
    value = .obj [] := by
  have hnode : ∃ property : Node, node = property.toJson := by
    cases part_of_subschema hsub with
    | whole =>
        rw [document.get?_properties, Option.some.injEq, Json.obj.injEq] at hkey
        rw [← hkey] at hmem
        obtain ⟨property, -, hproperty⟩ := Properties.mem_jsonNodes_iff.1 hmem
        exact ⟨property, hproperty.symm⟩
    | @definition key definition _ =>
        rw [definition.get?_properties, Option.some.injEq, Json.obj.injEq] at hkey
        rw [← hkey] at hmem
        obtain ⟨property, -, hproperty⟩ := Properties.mem_jsonNodes_iff.1 hmem
        exact ⟨property, hproperty.symm⟩
    | node _ _ =>
        rw [Json.obj.inj (Node.get?_properties_eq_some hkey)] at hmem
        exact absurd hmem List.not_mem_nil
  obtain ⟨property, rfl⟩ := hnode
  obtain ⟨sub, -, rfl⟩ := Node.exists_contains_of_subschema hinner
  exact Node.get?_properties_eq_some hvalue

end SchemaDocument

/-! ## Types that offer no choice -/

namespace TypeGraph

variable {graph : TypeGraph} {describe : Bool} {name last : String} {type : TypeDef}

/-- A type leaves nothing to choose from. -/
def IsHollow (graph : TypeGraph) (type : TypeDef) : Prop :=
  match type.shape with
  | .enum values => values = []
  | .union members => members = []
  | .interface .. => ∀ object ∈ graph.objects, type.name ∉ object.interfaces
  | _ => False

/-- A field of an object type leads, directly or through unions of unions, to a type that leaves
nothing to choose from. -/
def LeadsNowhere (graph : TypeGraph) : Prop :=
  ∃ type ∈ graph.objects, ∃ field ∈ type.fields, ∃ name target,
    Relation.ReflTransGen graph.Lists field.type.base name ∧
      graph.index.get? name = some target ∧ graph.IsHollow target

/-- The enums that names stand for have different values. -/
def HasUniqueValues (graph : TypeGraph) : Prop :=
  ∀ name type values, graph.index.get? name = some type → type.shape = .enum values →
    values.Nodup

theorem isHollow_iff :
    graph.IsHollow type ↔ type.shape = .enum [] ∨ graph.variants? type = some [] := by
  unfold IsHollow variants?
  cases hshape : type.shape with
  | interface fields interfaces =>
      simp only [reduceCtorEq, false_or, Option.some.injEq, implementors, List.map_eq_nil_iff,
        List.filter_eq_nil_iff, List.contains_iff_mem]
  | _ => simp

theorem isFilled_leafNode_iff :
    (leafNode describe type).IsFilled ↔
      ∀ values, type.shape = .enum values → values ≠ [] ∧ values.Nodup := by
  have hkinds : ∀ entry ∈ Node.scalarKinds, entry.2 ∈ Json.simpleTypes := by decide
  unfold leafNode
  cases hshape : type.shape with
  | enum values => simp [Node.IsFilled]
  | scalar =>
      refine iff_of_true ?_ (by simp)
      unfold Node.ofScalar?
      cases hkind : Node.scalarKinds.get? type.name with
      | none => trivial
      | some kind =>
          have hsimple : kind ∈ Json.simpleTypes := hkinds _ (Entries.mem_of_get? hkind)
          by_cases hobject : kind = "object"
          · simp [hobject, Node.IsFilled]
          · simpa [hobject, Node.IsFilled] using hsimple
  | _ => exact iff_of_true trivial (by simp)

private theorem reachesHollow_of_contains [Runtime] (hname : graph.IsNamed)
    (hvalues : graph.HasUniqueValues) {node sub : Node} (hcontains : node.Contains sub)
    (hgap : ¬ sub.IsFilled) (hok : graph.node describe name = .ok node) :
    ∃ last target, Relation.ReflTransGen graph.Expands name last ∧
      graph.index.get? last = some target ∧ graph.IsHollow target := by
  induction hcontains generalizing name with
  | self node =>
      obtain ⟨type, hget, ⟨-, rfl⟩ | ⟨variants, nodes, hvariants, hall, rfl⟩⟩ :=
        exists_type_of_node hname hok
      · rw [isFilled_leafNode_iff] at hgap
        push Not at hgap
        obtain ⟨values, hshape, hempty⟩ := hgap
        have hnil : values = [] := by
          by_contra hne
          exact hempty hne (hvalues name type values hget hshape)
        rw [hnil] at hshape
        exact ⟨name, type, .refl, hget, isHollow_iff.2 (.inl hshape)⟩
      · have hnil : nodes = [] := not_not.1 hgap
        rw [hnil, List.forall₂_nil_right_iff] at hall
        rw [hall] at hvariants
        exact ⟨name, type, .refl, hget, isHollow_iff.2 (.inr hvariants)⟩
  | @items own items sub _ _ =>
      obtain ⟨type, hget, ⟨-, hleaf⟩ | ⟨variants, nodes, -, -, hany⟩⟩ :=
        exists_type_of_node hname hok
      · exact absurd hleaf.symm leafNode_ne_array
      · contradiction
  | @variant own nodes node sub hmem _ ih =>
      obtain ⟨type, hget, ⟨-, hleaf⟩ | ⟨variants, others, hvariants, hall, hany⟩⟩ :=
        exists_type_of_node hname hok
      · exact absurd hleaf.symm leafNode_ne_anyOf
      · rw [Node.anyOf.injEq] at hany
        rw [hany.2] at hmem
        obtain ⟨next, hnext, hnode⟩ := Results.exists_left_of_forall₂ hall hmem
        obtain ⟨last, target, hpath, htarget⟩ := ih hgap hnode
        exact ⟨last, target, .head ⟨type, variants, hget, hvariants, hnext⟩ hpath, htarget⟩

theorem hasGap_iff_of_node [Runtime] (hname : graph.IsNamed) (hvalues : graph.HasUniqueValues)
    {node : Node} (hok : graph.node describe name = .ok node) :
    node.HasGap ↔ ∃ last target, Relation.ReflTransGen graph.Expands name last ∧
      graph.index.get? last = some target ∧ graph.IsHollow target := by
  constructor
  · rintro ⟨sub, hcontains, hgap⟩
    exact reachesHollow_of_contains hname hvalues hcontains hgap hok
  · rintro ⟨last, target, hpath, htarget, hhollow⟩
    induction hpath using Relation.ReflTransGen.head_induction_on generalizing node with
    | refl =>
        obtain ⟨type, hget, ⟨hnone, rfl⟩ | ⟨variants, nodes, hvariants, hall, rfl⟩⟩ :=
          exists_type_of_node hname hok
        · rw [htarget, Option.some.injEq] at hget
          subst type
          have hshape := (isHollow_iff.1 hhollow).resolve_right (by simp [hnone])
          refine ⟨_, .self _, fun hfilled => ?_⟩
          exact (isFilled_leafNode_iff.1 hfilled [] hshape).1 rfl
        · rw [htarget, Option.some.injEq] at hget
          subst type
          rcases isHollow_iff.1 hhollow with hshape | hempty
          · rw [variants?, hshape] at hvariants
            contradiction
          · rw [hempty, Option.some.injEq] at hvariants
            rw [← hvariants, List.forall₂_nil_left_iff] at hall
            exact Node.hasGap_anyOf_iff.2 (.inl hall)
    | @head first next hstep _ ih =>
        obtain ⟨type, hget, ⟨hnone, -⟩ | ⟨variants, nodes, hvariants, hall, rfl⟩⟩ :=
          exists_type_of_node hname hok
        · obtain ⟨variants, hsome, -⟩ := (expands_iff hget).1 hstep
          rw [hnone] at hsome
          contradiction
        · obtain ⟨others, hothers, hmem⟩ := (expands_iff hget).1 hstep
          rw [hvariants, Option.some.injEq] at hothers
          subst others
          obtain ⟨sub, hsub, hnode⟩ := Results.exists_right_of_forall₂ hall hmem
          exact Node.hasGap_anyOf_iff.2 (.inr ⟨sub, hsub, ih hnode⟩)

/-- Only unions are passed on the way to what is no object type. -/
theorem lists_of_expands (hindexed : graph.IsIndexed)
    (hpath : Relation.ReflTransGen graph.Expands name last)
    (hget : graph.index.get? last = some type) (hkind : type.isObject = false) :
    Relation.ReflTransGen graph.Lists name last := by
  induction hpath using Relation.ReflTransGen.head_induction_on with
  | refl => exact .refl
  | @head first next hstep hrest ih =>
      rcases hstep.cases with hlists | ⟨object, hobject, rfl⟩
      · exact .head hlists ih
      · obtain ⟨hmem, hisObject⟩ := mem_objects_iff.1 hobject
        have hfound := hindexed.get?_name hmem
        rcases Relation.ReflTransGen.cases_head hrest with heq | ⟨another, hanother, -⟩
        · rw [← heq, hfound, Option.some.injEq] at hget
          rw [← hget, hisObject] at hkind
          contradiction
        · exact absurd hanother (not_expands_of_isObject hfound hisObject)

theorem IsHollow.isObject_eq_false (hhollow : graph.IsHollow type) : type.isObject = false := by
  unfold IsHollow at hhollow
  unfold TypeDef.isObject
  split at hhollow <;> simp_all

theorem hasGap_iff_of_fieldNode [Runtime] (hindexed : graph.IsIndexed)
    (hvalues : graph.HasUniqueValues)
    {field : Field} {node : Node} (hok : graph.fieldNode describe field = .ok node) :
    node.HasGap ↔ ∃ last target, Relation.ReflTransGen graph.Lists field.type.base last ∧
      graph.index.get? last = some target ∧ graph.IsHollow target := by
  obtain ⟨base, hbase, hnode⟩ := exists_base_of_fieldNode hok
  have hsame : node.HasGap ↔ base.HasGap := by
    rw [hnode]
    split
    · exact Node.hasGap_array_iff
    · exact Node.hasGap_withNote_iff
  rw [hsame, hasGap_iff_of_node hindexed.isNamed hvalues hbase]
  constructor
  · rintro ⟨last, target, hpath, hget, hhollow⟩
    exact ⟨last, target, lists_of_expands hindexed hpath hget hhollow.isObject_eq_false, hget,
      hhollow⟩
  · rintro ⟨last, target, hpath, hget, hhollow⟩
    exact ⟨last, target, hpath.lift id fun _ _ hlists => hlists.expands, hget, hhollow⟩

/-! ## Documents of graphs -/

theorem HasParts.properties_cases [Runtime] {root : String} {document : SchemaDocument}
    (hparts : graph.HasParts describe root document) {properties : Properties}
    (hhas : document.HasProperties properties) :
    properties = {} ∨ ∃ type ∈ graph.objects,
      graph.properties describe type.fields = .ok properties := by
  cases hhas with
  | root =>
      by_cases hroot : ∃ type ∈ graph.objects, type.name = root
      · obtain ⟨type, htype, hname⟩ := hroot
        exact .inr ⟨type, htype, hparts.root_eq type htype hname⟩
      · exact .inl (hparts.root_missing (by simpa using hroot))
  | @definition key definition hmem =>
      have hkey : key ∈ document.definitions.names := List.mem_map_of_mem hmem
      rw [hparts.names_definitions, List.mem_filter, List.mem_map] at hkey
      obtain ⟨⟨type, htype, rfl⟩, hne⟩ := hkey
      obtain ⟨properties, hproperties, hget⟩ :=
        hparts.definition_eq type htype (by simpa using hne)
      rw [Entries.get?_eq_some_of_mem hparts.nodup_definitions hmem, Option.some.injEq] at hget
      subst definition
      exact .inr ⟨type, htype, hproperties⟩

/-- Where fields have different names, what is required is declared, and once. -/
theorem HasParts.required_spec [Runtime] {root : String} {document : SchemaDocument}
    (hparts : graph.HasParts describe root document)
    (hfields : ∀ type ∈ graph.objects, (type.fields.map (·.name)).Nodup) {properties : Properties}
    (hhas : document.HasProperties properties) :
    properties.required.Nodup ∧ ∀ name ∈ properties.required, name ∈ properties.nodes.names := by
  rcases hparts.properties_cases hhas with rfl | ⟨type, htype, hproperties⟩
  · exact ⟨List.nodup_nil, by simp⟩
  · rw [required_of_properties hproperties, names_of_properties hproperties (hfields type htype)]
    exact ⟨nodup_requiredNames (hfields type htype), fun name hname =>
      (List.filter_sublist.map _).subset hname⟩

theorem HasParts.hasGap_iff [Runtime] {root : String} {document : SchemaDocument}
    (hparts : graph.HasParts describe root document) (hindexed : graph.IsIndexed)
    (hvalues : graph.HasUniqueValues)
    (hfields : ∀ type ∈ graph.objects, (type.fields.map (·.name)).Nodup) :
    (∃ node, document.IsProperty node ∧ node.HasGap) ↔ graph.LeadsNowhere := by
  constructor
  · rintro ⟨node, hproperty, hgap⟩
    obtain ⟨type, htype, field, hfield, hnode⟩ := hparts.isProperty_iff.1 hproperty
    obtain ⟨name, target, hpath⟩ := (hasGap_iff_of_fieldNode hindexed hvalues hnode).1 hgap
    exact ⟨type, htype, field, (mem_of_fieldNamed? hfield).1, name, target, hpath⟩
  · rintro ⟨type, htype, field, hfield, name, target, hpath⟩
    obtain ⟨node, hnode⟩ := hparts.exists_fieldNode htype hfield
    have hnamed := fieldNamed?_of_mem (hfields type htype) hfield
    refine ⟨node, hparts.isProperty_iff.2 ⟨type, htype, field, hnamed, hnode⟩, ?_⟩
    exact (hasGap_iff_of_fieldNode hindexed hvalues hnode).2 ⟨name, target, hpath⟩

theorem hasUniqueValues_ofTypes {types : List TypeDef} {directives : List String}
    (hindexed : (ofTypes types directives).IsIndexed)
    (hvalues : ∀ type ∈ types, ∀ values, type.shape = .enum values → values.Nodup) :
    (ofTypes types directives).HasUniqueValues := by
  intro name type values hget
  exact hvalues type ((hindexed name type).1 hget).1 values

/-- A document follows the rules of draft 4, with all that is required declared, exactly if no
field leads to a type that leaves nothing to choose from; and no property has properties. -/
theorem document_follows_draft_rules [Runtime] {types : List TypeDef} {directives : List String}
    (hnames : (types.map (·.name)).Nodup)
    (hfields : ∀ type ∈ types, (type.fields.map (·.name)).Nodup)
    (hvalues : ∀ type ∈ types, ∀ values, type.shape = .enum values → values.Nodup)
    {settings : Settings} {uri title : String} (huri : settings.schemaUri = .str uri)
    (htitle : settings.title = .str title) {asked : Json} {document : SchemaDocument}
    (hok : (ofTypes types directives).document settings asked = .ok document) :
    (document.toJson.IsWellFormed ∧
        (∀ schema, document.toJson.Subschema schema → schema.RequiresDeclared) ↔
      ¬ (ofTypes types directives).LeadsNowhere) ∧
      (∀ schema, document.toJson.Subschema schema → schema.RequiresDeclared) ∧
      ∀ schema, document.toJson.Subschema schema → ∀ properties name node,
        schema.get? "properties" = some (.obj properties) → (name, node) ∈ properties →
        ∀ inner, node.Subschema inner → ∀ value, inner.get? "properties" = some value →
          value = .obj [] := by
  have hindexed : (ofTypes types directives).IsIndexed := isIndexed_ofTypes directives hnames
  have hobjects : ∀ type ∈ (ofTypes types directives).objects, (type.fields.map (·.name)).Nodup :=
    fun type htype => hfields type (mem_objects_iff.1 htype).1
  obtain ⟨root, hpicks⟩ := (ofTypes types directives).exists_picksRoot (rootFor asked settings)
  have hparts := hasParts_of_picksRoot hindexed hnames hpicks hok
  obtain ⟨huriKept, htitleKept⟩ := settings_of_document hok
  have hdeclared : ∀ schema, document.toJson.Subschema schema → schema.RequiresDeclared :=
    fun _ => SchemaDocument.requiresDeclared_of_subschema fun _ hhas =>
      (hparts.required_spec hobjects hhas).2
  have hformed : document.toJson.IsWellFormed ↔ ¬ (ofTypes types directives).LeadsNowhere := by
    rw [SchemaDocument.isWellFormed_iff (huriKept.trans huri) (htitleKept.trans htitle)
      fun _ hhas => (hparts.required_spec hobjects hhas).1]
    rw [← hparts.hasGap_iff hindexed (hasUniqueValues_ofTypes hindexed hvalues) hobjects]
    push Not
    rfl
  refine ⟨?_, hdeclared, ?_⟩
  · rw [and_iff_left hdeclared]
    exact hformed
  · intro schema hsub properties name node hkey hmem inner hinner value hvalue
    exact SchemaDocument.empty_of_subschema_property hsub hkey hmem hinner hvalue

/-- A union of an interface that no object type implements. -/
def unclaimedTypes : List TypeDef :=
  [{ name := "Query", shape := .object [{ name := "place", type := .list (.named "Place") }] [] },
    { name := "Place", shape := .union ["Placed"] },
    { name := "Placed", shape := .interface [] [] }]

section Usual

attribute [local instance] Runtime.usual

theorem shelfTypes_follow_draft_rules :
    (∃ document, (ofTypes shelfTypes).document {} (.str "Query") = .ok document ∧
      document.toJson.IsWellFormed) ∧
    ∃ document, (ofTypes unclaimedTypes).document {} (.str "Query") = .ok document ∧
      ¬ document.toJson.IsWellFormed := by
  constructor
  · obtain ⟨document, hok⟩ :=
      exists_document_shelfTypes (by decide : "Query" ≠ "") (by decide)
    obtain ⟨hformed, -, -⟩ := document_follows_draft_rules nodup_names_shelfTypes
      nodup_fields_shelfTypes (by simp [shelfTypes]) rfl rfl hok
    have hfilled : ∀ type ∈ shelfTypes,
        ¬ (type.shape = .enum [] ∨ (ofTypes shelfTypes).variants? type = some []) := by decide
    refine ⟨document, hok, (hformed.2 ?_).1⟩
    rintro ⟨-, -, -, -, name, target, -, hget, hhollow⟩
    have htarget := ((isIndexed_ofTypes [] nodup_names_shelfTypes name target).1 hget).1
    exact hfilled target htarget (isHollow_iff.1 hhollow)
  · have hnames : (unclaimedTypes.map (·.name)).Nodup := by decide
    have hrank :
        (ofTypes unclaimedTypes).RanksVariants fun name => if name = "Place" then 1 else 0 :=
      by decide
    have hshallow : ¬ (ofTypes unclaimedTypes).IsTooDeep :=
      hrank.not_isTooDeep fun name => by split <;> omega
    obtain ⟨document, hok⟩ := exists_document (isIndexed_ofTypes [] hnames) (by decide)
      hrank.hasFiniteUnions hshallow {} (by decide : "Query" ≠ "") (by decide)
    obtain ⟨hformed, hdeclared, -⟩ := document_follows_draft_rules hnames (by decide)
      (by simp [unclaimedTypes]) rfl rfl hok
    refine ⟨document, hok, fun hrules => hformed.1 ⟨hrules, hdeclared⟩ ?_⟩
    have hlists : (ofTypes unclaimedTypes).Lists "Place" "Placed" :=
      ⟨_, ["Placed"], rfl, rfl, List.mem_singleton.2 rfl⟩
    obtain ⟨type, htype, field, hfield, hbase⟩ : ∃ type ∈ (ofTypes unclaimedTypes).objects,
      ∃ field ∈ type.fields, field.type.base = "Place" := by decide
    refine ⟨type, htype, field, hfield, "Placed", _, ?_, rfl, isHollow_iff.2 (.inr (by decide))⟩
    rw [hbase]
    exact .single hlists

end Usual

end TypeGraph

end ConfigSchema
