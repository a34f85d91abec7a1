import ConfigSchema.Proofs.Conformance
import ConfigSchema.Proofs.DocumentEmission

/-!
# What schema documents accept

The document of a root accepts exactly the values that the root stands for.  References are to
object types, and the schema of an object type looks at parts of a value only; so all references
are seen to mean their types by induction on the size of the value.  A reference to the root itself
is to no definition of the document, and so the main statement asks for its meaning only if a field
leads back to the root.
-/

namespace ConfigSchema

namespace TypeGraph

variable {graph : TypeGraph} {describe : Bool} {document value : Json}
  {outside : String → Json → Prop}

/-- The references to object types that fields lead to accept a value if the types do. -/
def RefersTruly (graph : TypeGraph) (document : Json) (outside : String → Json → Prop)
    (value : Json) : Prop :=
  ∀ type ∈ graph.objects, graph.IsLedTo type.name → ∀ note,
    (document.Validates outside (Node.ref note type.name).toJson value ↔
      graph.Conforms type.name value)

theorem validates_fieldNode_iff [Runtime] (hindexed : graph.IsIndexed) {owner : TypeDef}
    (howner : owner ∈ graph.objects) {field : Field}
    (hfield : fieldNamed? owner.fields field.name = some field) {node : Node}
    (hok : graph.fieldNode describe field = .ok node)
    (hrefs : ∀ part : Json, sizeOf part ≤ sizeOf value → graph.RefersTruly document outside part) :
    document.Validates outside node.toJson value ↔ graph.ConformsField field value := by
  obtain ⟨base, hbase, hnode⟩ := exists_base_of_fieldNode hok
  have hmeans : ∀ part : Json, sizeOf part ≤ sizeOf value → ∀ note,
      (document.Validates outside (base.withNote note).toJson part ↔
        graph.Conforms field.type.base part) := by
    intro part hpart note
    refine validates_node_iff hindexed.isNamed ?_ hbase note
    intro key type hpath hget hkind own
    obtain ⟨hmem, rfl⟩ := (hindexed key type).1 hget
    have hled : graph.IsLedTo type.name := ⟨owner, howner, field, hfield, hpath⟩
    exact hrefs part hpart type (mem_objects_iff.2 ⟨hmem, hkind⟩) hled own
  rw [hnode, ConformsField]
  by_cases hisList : field.type.isList = true
  · rw [if_pos hisList, if_pos hisList, Node.validates_array_iff]
    have hitems : ∀ items, value = .arr items → ∀ item ∈ items,
        (document.Validates outside base.toJson item ↔ graph.Conforms field.type.base item) := by
      rintro items rfl item hitem
      have hmember := List.sizeOf_lt_of_mem hitem
      have hpart : sizeOf item ≤ sizeOf (Json.arr items) := by
        rw [Json.arr.sizeOf_spec]
        omega
      have hitemMeans := hmeans item hpart base.note
      rwa [Node.withNote_note] at hitemMeans
    constructor
    · rintro ⟨items, hvalue, hall⟩
      exact ⟨items, hvalue, fun item hitem => (hitems items hvalue item hitem).1 (hall item hitem)⟩
    · rintro ⟨items, hvalue, hall⟩
      exact ⟨items, hvalue, fun item hitem => (hitems items hvalue item hitem).2 (hall item hitem)⟩
  · rw [if_neg hisList, if_neg hisList]
    exact hmeans value (Nat.le_refl _) _

/-- The schema of an object type accepts the objects whose fields conform, given that references
mean their types for everything smaller. -/
theorem validates_properties_iff [Runtime] (hindexed : graph.IsIndexed) {owner : TypeDef}
    (howner : owner ∈ graph.objects) (hnodup : (owner.fields.map (·.name)).Nodup)
    {properties : Properties} (hok : graph.properties describe owner.fields = .ok properties)
    {schema : Json} {isOpen : Bool} (hkeys : properties.HasKeys isOpen schema)
    (hrefs : ∀ part : Json, sizeOf part < sizeOf value → graph.RefersTruly document outside part) :
    document.Validates outside schema value ↔
      ∃ entries, value = .obj entries ∧ graph.ConformsFields owner.fields entries ∧
        (isOpen = false →
          ∀ name ∈ Entries.names entries, name ∈ owner.fields.map (·.name)) := by
  rw [Properties.validates_iff hkeys, names_of_properties hok hnodup, required_of_properties hok]
  refine exists_congr fun entries => and_congr_right fun hvalue => ?_
  subst value
  rw [← and_assoc]
  refine and_congr_left fun _ => ?_
  have hrequired : (∀ name ∈ requiredNames owner.fields, name ∈ Entries.names entries) ↔
      ∀ field ∈ owner.fields,
        field.type.isRequired = true → field.name ∈ Entries.names entries := by
    simp only [requiredNames, List.mem_map, List.mem_filter]
    constructor
    · intro hall field hfield hneeded
      exact hall field.name ⟨field, ⟨hfield, hneeded⟩, rfl⟩
    · rintro hall name ⟨field, ⟨hfield, hneeded⟩, rfl⟩
      exact hall field hfield hneeded
  have hmeans : ∀ field ∈ owner.fields, ∀ node, graph.fieldNode describe field = .ok node →
      ∀ item, (field.name, item) ∈ entries →
        (document.Validates outside node.toJson item ↔ graph.ConformsField field item) := by
    intro field hfield node hnode item hitem
    refine validates_fieldNode_iff hindexed howner (fieldNamed?_of_mem hnodup hfield) hnode ?_
    intro part hpart
    have hmember := List.sizeOf_lt_of_mem hitem
    refine hrefs part ?_
    rw [Prod.mk.sizeOf_spec] at hmember
    rw [Json.obj.sizeOf_spec]
    omega
  rw [ConformsFields, hrequired]
  refine and_congr_right fun _ => ?_
  constructor
  · intro hall field hfield item hitem
    obtain ⟨node, hnode⟩ := exists_fieldNode_of_properties hok hfield
    have hmem : (field.name, node) ∈ properties.nodes :=
      (mem_nodes_iff hok).2 ⟨field, fieldNamed?_of_mem hnodup hfield, hnode⟩
    have hget := Entries.get?_eq_some_of_mem (nodup_names_of_properties hok) hmem
    exact (hmeans field hfield node hnode item hitem).1 (hall field.name item node hitem hget)
  · intro hall name item node hitem hget
    obtain ⟨field, hfield, hnode⟩ := (mem_nodes_iff hok).1 (Entries.mem_of_get? hget)
    obtain ⟨hmem, rfl⟩ := mem_of_fieldNamed? hfield
    exact (hmeans field hmem node hnode item hitem).2 (hall field hmem item hitem)

/-! ## Documents -/

/-- All references of a document mean their types, if the one to the root does that has no
definition. -/
theorem HasParts.refersTruly [Runtime] {root : String} {document : SchemaDocument}
    (hparts : graph.HasParts describe root document) (hindexed : graph.IsIndexed)
    (hfields : ∀ type ∈ graph.types, (type.fields.map (·.name)).Nodup)
    (hback : graph.IsLedTo root →
      ∀ value, outside (Node.refTarget root) value ↔ graph.Conforms root value) (value : Json) :
    graph.RefersTruly document.toJson outside value := by
  induction hsize : sizeOf value using Nat.strongRecOn generalizing value with
  | ind size ih =>
      intro type htype hled note
      obtain ⟨hmem, hkind⟩ := mem_objects_iff.1 htype
      have href : (Node.ref note type.name).toJson.get? "$ref" =
          some (.str (Node.refTarget type.name)) :=
        Node.get?_ref_eq_some_iff.2 ⟨note, type.name, rfl, rfl⟩
      have hreferent := document.referent?_toJson type.name
      by_cases hname : type.name = root
      · rw [hname, hparts.definition?_root_eq_none, ← hname] at hreferent
        rw [Json.validates_iff_of_undefined href hreferent, hname]
        exact hback (hname ▸ hled) value
      · obtain ⟨properties, hproperties, hget⟩ := hparts.definition_eq type htype hname
        rw [document.definition?_toJson, hget, Option.map_some] at hreferent
        rw [Json.validates_iff_of_defined href hreferent,
          conforms_object_iff (hindexed.get?_name hmem) hkind]
        rw [validates_properties_iff hindexed htype (hfields type hmem) hproperties
          (definitionOf type properties).hasKeys
          (fun part hpart => ih _ (hsize ▸ hpart) part rfl)]
        refine exists_congr fun entries => and_congr_right fun _ => and_congr_right fun _ => ?_
        by_cases hopen : openDirective ∈ type.directives
        · simp [definitionOf, hopen]
        · simp [definitionOf, hopen]

/-- The document of an object type accepts the values that the type stands for as a root.  If
fields lead back to the root, the reference to it has to mean the root. -/
theorem document_accepts [Runtime] {types : List TypeDef} {directives : List String}
    (hnames : (types.map (·.name)).Nodup)
    (hfields : ∀ type ∈ types, (type.fields.map (·.name)).Nodup)
    (hclosed : (ofTypes types directives).IsClosed)
    (hunions : (ofTypes types directives).HasFiniteUnions) (settings : Settings) {root : TypeDef}
    (hroot : root ∈ (ofTypes types directives).objects) (hname : root.name ≠ "") :
    let graph := ofTypes types directives
    (graph.IsTooDeep → graph.document settings (.str root.name) = .error (.graph .tooDeep)) ∧
      (¬ graph.IsTooDeep → ∃ document, graph.document settings (.str root.name) = .ok document ∧
        ∀ outside : String → Json → Prop,
          (graph.IsLedTo root.name → ∀ value,
            outside ("#/definitions/" ++ root.name) value ↔ graph.Conforms root.name value) →
          ∀ value, document.toJson.Validates outside document.toJson value ↔
            graph.ConformsAsRoot root value) := by
  intro graph
  have hindexed : graph.IsIndexed := isIndexed_ofTypes directives hnames
  rcases document_outcome hindexed hclosed hunions settings hname with
    ⟨hdeep, herror⟩ | ⟨-, hmissing, -⟩ | ⟨hshallow, -, document, hok⟩
  · exact ⟨fun _ => herror, fun hshallow => absurd hdeep hshallow⟩
  · exact absurd rfl (hmissing root hroot)
  · refine ⟨fun hdeep => absurd hdeep hshallow, fun _ => ⟨document, hok, ?_⟩⟩
    intro outside hback value
    have hparts := hasParts_of_document hindexed hnames hname hok
    have hrefs := hparts.refersTruly hindexed hfields hback
    rw [validates_properties_iff hindexed hroot (hfields root (mem_objects_iff.1 hroot).1)
      (hparts.root_eq root hroot rfl) document.hasKeys (fun part _ => hrefs part)]
    simp [ConformsAsRoot]

section Usual

attribute [local instance] Runtime.usual

/-- Undeclared keys are refused in the root and allowed in an open object below it, here in one of
the same type. -/
theorem shelfTypes_accepts_open_object :
    ∃ document, (ofTypes shelfTypes).document {} (.str "Shelf") = .ok document ∧
      ∀ outside : String → Json → Prop,
        (∀ value, outside "#/definitions/Shelf" value ↔
          (ofTypes shelfTypes).Conforms "Shelf" value) →
        document.toJson.Validates outside document.toJson
            (.obj [("label", .str "top"), ("above", .obj [("colour", .null)])]) ∧
          ¬ document.toJson.Validates outside document.toJson (.obj [("colour", .null)]) := by
  obtain ⟨root, hroot, hname, hget, hfields, hdirectives⟩ :
      ∃ root ∈ (ofTypes shelfTypes).objects, root.name = "Shelf" ∧
        (ofTypes shelfTypes).index.get? "Shelf" = some root ∧
        root.fields = [{ name := "label", type := .named "String" },
          { name := "above", type := .named "Placed" }] ∧
        openDirective ∈ root.directives := by decide
  obtain ⟨-, haccepts⟩ := document_accepts nodup_names_shelfTypes nodup_fields_shelfTypes
    isClosed_shelfTypes ranksVariants_shelfTypes.hasFiniteUnions {} hroot (by rw [hname]; decide)
  obtain ⟨document, hok, hall⟩ := haccepts not_isTooDeep_shelfTypes
  rw [hname] at hok hall
  have hkind : root.isObject = true := (mem_objects_iff.1 hroot).2
  have hlabel : (ofTypes shelfTypes).Conforms "String" (.str "top") := by
    obtain ⟨scalar, hscalar, hshape, hword⟩ :
        ∃ type, (ofTypes shelfTypes).index.get? "String" = some type ∧ type.shape = .scalar ∧
          scalarWord type.name ∈ (Json.str "top").kinds := ⟨_, rfl, rfl, by decide⟩
    exact .scalar hscalar hshape hword
  have hopen : (ofTypes shelfTypes).Conforms "Shelf" (.obj [("colour", .null)]) := by
    rw [conforms_object_iff hget hkind, hfields]
    refine ⟨_, rfl, ⟨?_, ?_⟩, fun _ _ => .inr hdirectives⟩
    · simp [TypeRef.isRequired]
    · simp
  have habove : (ofTypes shelfTypes).Conforms "Placed" (.obj [("colour", .null)]) := by
    obtain ⟨placed, hplaced, hvariants⟩ : ∃ type,
        (ofTypes shelfTypes).index.get? "Placed" = some type ∧
          (ofTypes shelfTypes).variants? type = some ["Shelf"] := ⟨_, rfl, by decide⟩
    rw [conforms_variants_iff hplaced hvariants]
    exact ⟨"Shelf", List.mem_singleton.2 rfl, hopen⟩
  refine ⟨document, hok, fun outside hback => ?_⟩
  rw [hall outside (fun _ => hback), hall outside (fun _ => hback)]
  constructor
  · refine ⟨_, rfl, ⟨?_, ?_⟩, ?_⟩
    · rw [hfields]
      simp [TypeRef.isRequired]
    · rw [hfields]
      simp [ConformsField, TypeRef.isList, TypeRef.base, hlabel, habove]
    · rw [hfields]
      simp [Entries.names]
  · rintro ⟨entries, hentries, -, hdeclared⟩
    rw [Json.obj.injEq] at hentries
    rw [← hentries, hfields] at hdeclared
    simp at hdeclared

/-- A tower of 401 unions above its only object leaves no room for a document. -/
theorem tower_has_no_document :
    ((tower 400).map (·.name)).Nodup ∧
      (∀ type ∈ tower 400, (type.fields.map (·.name)).Nodup) ∧
      (ofTypes (tower 400)).IsClosed ∧ (ofTypes (tower 400)).HasFiniteUnions ∧
      (∃ root ∈ (ofTypes (tower 400)).objects, root.name = "Settings") ∧
      ∀ document, (ofTypes (tower 400)).document {} (.str "Settings") ≠ .ok document := by
  have hdeep : (ofTypes (tower 400)).IsTooDeep := isTooDeep_tower_usual (by decide)
  refine ⟨nodup_names_tower 400, nodup_fields_tower 400, isClosed_tower 400,
    hasFiniteUnions_tower 400, ⟨_, mem_objects_iff.2 ⟨List.mem_cons_self, rfl⟩, rfl⟩, ?_⟩
  rintro document hok
  rcases document_outcome (isIndexed_tower 400) (isClosed_tower 400) (hasFiniteUnions_tower 400) {}
    (by decide : "Settings" ≠ "") with ⟨-, herror⟩ | ⟨hshallow, -⟩ | ⟨hshallow, -⟩
  · rw [hok] at herror
    contradiction
  · exact absurd hdeep hshallow
  · exact absurd hdeep hshallow

end Usual

end TypeGraph

end ConfigSchema
