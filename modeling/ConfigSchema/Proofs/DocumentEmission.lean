import ConfigSchema.Proofs.DocumentKeys
import ConfigSchema.Proofs.DocumentParts

/-!
# What a document says about object types

Every object type is described once: the root by the document itself, every other one by the
definition of its name, with its fields as properties in order and the required ones listed.  What
is said about a type does not depend on the root.  The one way to get no document although the
root is there is a field whose variants are nested too deep for the room that there is, and such a
field also hides that a root is missing.
-/

namespace ConfigSchema

/-- A schema has the fields of an object type as its properties, in order, and lists the required
ones unless there are none. -/
structure DescribesObject (type : TypeDef) (isOpen : Bool) (schema : Json) : Prop where
  properties : ∃ nodes : Entries Json, schema.get? "properties" = some (.obj nodes) ∧
    nodes.names = type.fields.map (·.name)
  required : schema.get? "required" =
    if requiredNames type.fields = [] then none
    else some (Json.texts (requiredNames type.fields))
  nodup_required : (requiredNames type.fields).Nodup
  additional : schema.get? "additionalProperties" = some (.bool isOpen)

/-- A schema without properties that allows none. -/
structure DescribesNothing (schema : Json) : Prop where
  properties : schema.get? "properties" = some (.obj [])
  required : schema.get? "required" = none
  additional : schema.get? "additionalProperties" = some (.bool false)

/-- Two schemas have the same properties and the same required names. -/
def SameProperties (first second : Json) : Prop :=
  first.get? "properties" = second.get? "properties" ∧
    first.get? "required" = second.get? "required"

namespace TypeGraph

/-- A document describes each object type of a graph once and in order. -/
structure EmitsObjects (graph : TypeGraph) (root : String) (document : Json) : Prop where
  names_definitions : ∃ definitions : Entries Json,
    document.get? "definitions" = some (.obj definitions) ∧
      definitions.names = (graph.objects.map (·.name)).filter (· ≠ root) ∧
      definitions.names.Nodup
  definition_describes : ∀ type ∈ graph.objects, type.name ≠ root →
    ∃ schema, document.definition? type.name = some schema ∧
      schema.get? "title" = some (.str type.name) ∧
      DescribesObject type (type.directives.contains openDirective) schema
  root_describes : ∀ type ∈ graph.objects, type.name = root → DescribesObject type false document
  missing_describes : (∀ type ∈ graph.objects, type.name ≠ root) → DescribesNothing document

/-- Documents of two roots say the same about every object type, wherever they say it. -/
structure AgreesOn (graph : TypeGraph) (root other : String) (first second : Json) : Prop where
  exchanged : ∀ type ∈ graph.objects, type.name = other → other ≠ root →
    ∃ schema, first.definition? other = some schema ∧ SameProperties schema second
  shared : ∀ type ∈ graph.objects, type.name ≠ root → type.name ≠ other →
    ∃ schema, first.definition? type.name = some schema ∧
      second.definition? type.name = some schema

variable {graph : TypeGraph}

theorem describesObject_of_properties [Runtime] {describe : Bool} {type : TypeDef}
    {properties : Properties} (hok : graph.properties describe type.fields = .ok properties)
    (hfields : (type.fields.map (·.name)).Nodup) {isOpen : Bool} {schema : Json}
    (hkeys : properties.HasKeys isOpen schema) :
    DescribesObject type isOpen schema where
  properties := by
    refine ⟨properties.jsonNodes, ?_, ?_⟩
    · simp [hkeys.get?_eq]
    · rw [properties.names_jsonNodes, names_of_properties hok hfields]
  required := by
    rw [hkeys.get?_eq (by simp), Properties.jsonRequired?, required_of_properties hok]
    rfl
  nodup_required := nodup_requiredNames hfields
  additional := by
    simp [hkeys.get?_eq]

theorem HasParts.emitsObjects [Runtime] {describe : Bool} {root : String}
    {document : SchemaDocument} (hparts : graph.HasParts describe root document)
    (hfields : ∀ type ∈ graph.types, (type.fields.map (·.name)).Nodup) :
    graph.EmitsObjects root document.toJson where
  names_definitions := by
    refine ⟨document.jsonDefinitions, document.get?_definitions, ?_, ?_⟩
    · rw [document.names_jsonDefinitions, hparts.names_definitions]
    · rw [document.names_jsonDefinitions]
      exact hparts.nodup_definitions
  definition_describes := by
    intro type htype hname
    obtain ⟨properties, hok, hget⟩ := hparts.definition_eq type htype hname
    refine ⟨(definitionOf type properties).toJson, ?_, ?_, ?_⟩
    · rw [document.definition?_toJson, hget]
      rfl
    · simp [Definition.toJson, Properties.toJson, Entries.get?, definitionOf]
    · exact describesObject_of_properties hok (hfields type (mem_objects_iff.1 htype).1)
        (definitionOf type properties).hasKeys
  root_describes := by
    intro type htype hname
    have hok := hparts.root_eq type htype hname
    exact describesObject_of_properties hok (hfields type (mem_objects_iff.1 htype).1)
      document.hasKeys
  missing_describes := by
    intro hmissing
    have hroot := hparts.root_missing hmissing
    have hkeys := document.hasKeys
    rw [hroot] at hkeys
    exact ⟨hkeys.get?_eq (by simp), hkeys.get?_eq (by simp), hkeys.get?_eq (by simp)⟩

theorem HasParts.agreesOn [Runtime] {describe : Bool} {root other : String}
    {first second : SchemaDocument} (hfirst : graph.HasParts describe root first)
    (hsecond : graph.HasParts describe other second) :
    graph.AgreesOn root other first.toJson second.toJson where
  exchanged := by
    rintro type htype rfl hne
    obtain ⟨properties, hok, hget⟩ := hfirst.definition_eq type htype hne
    have hroot := hsecond.root_eq type htype rfl
    rw [hok, Except.ok.injEq] at hroot
    refine ⟨(definitionOf type properties).toJson, ?_, ?_, ?_⟩
    · rw [first.definition?_toJson, hget]
      rfl
    · rw [(definitionOf type properties).hasKeys.get?_eq (by simp),
        second.hasKeys.get?_eq (by simp), ← hroot]
      rfl
    · rw [(definitionOf type properties).hasKeys.get?_eq (by simp),
        second.hasKeys.get?_eq (by simp), ← hroot]
      rfl
  shared := by
    intro type htype hne hneOther
    obtain ⟨properties, hok, hget⟩ := hfirst.definition_eq type htype hne
    obtain ⟨others, hokOther, hgetOther⟩ := hsecond.definition_eq type htype hneOther
    rw [hok, Except.ok.injEq] at hokOther
    subst others
    refine ⟨(definitionOf type properties).toJson, ?_, ?_⟩
    · rw [first.definition?_toJson, hget]
      rfl
    · rw [second.definition?_toJson, hgetOther]
      rfl

/-- Compilation finds the root unless an expansion goes too deep, and a document that comes out
describes every object type once, the same way for every root. -/
theorem document_emits_each_object [Runtime] {types : List TypeDef} {directives : List String}
    (hnames : (types.map (·.name)).Nodup)
    (hfields : ∀ type ∈ types, (type.fields.map (·.name)).Nodup)
    (hclosed : (ofTypes types directives).IsClosed)
    (hunions : (ofTypes types directives).HasFiniteUnions)
    (settings : Settings) {root : String} (hroot : root ≠ "") :
    let graph := ofTypes types directives
    (graph.document settings (.str root) = .error (.graph .tooDeep) ↔ graph.IsTooDeep) ∧
      (graph.document settings (.str root) = .error (.rootNotFound (.str root)) ↔
        ¬ graph.IsTooDeep ∧ (∀ type ∈ graph.objects, type.name ≠ root) ∧
          settings.allowMissingRoot.isTruthy = false) ∧
      ((∃ document, graph.document settings (.str root) = .ok document) ↔
        ¬ graph.IsTooDeep ∧ ((∃ type ∈ graph.objects, type.name = root) ∨
          settings.allowMissingRoot.isTruthy = true)) ∧
      ∀ document, graph.document settings (.str root) = .ok document →
        graph.EmitsObjects root document.toJson ∧
          ∀ other second, other ≠ "" → graph.document settings (.str other) = .ok second →
            graph.AgreesOn root other document.toJson second.toJson := by
  intro graph
  have hindexed : graph.IsIndexed := isIndexed_ofTypes directives hnames
  have houtcome := document_outcome hindexed hclosed hunions settings hroot
  refine ⟨?_, ?_, ?_, ?_⟩
  · rcases houtcome with ⟨hdeep, herror⟩ | ⟨hshallow, -, -, herror⟩ | ⟨hshallow, -, document, hok⟩
    · simp [hdeep, herror]
    · simp [hshallow, herror]
    · simp [hshallow, hok]
  · rcases houtcome with ⟨hdeep, herror⟩ | ⟨hshallow, hmissing, hallow, herror⟩ |
      ⟨hshallow, hfound, document, hok⟩
    · simp [hdeep, herror]
    · simp only [herror, true_iff]
      exact ⟨hshallow, hmissing, hallow⟩
    · simp only [hok, reduceCtorEq, false_iff]
      rintro ⟨-, hmissing, hallow⟩
      rcases hfound with ⟨type, htype, hname⟩ | hallowed
      · exact hmissing type htype hname
      · rw [hallow] at hallowed
        contradiction
  · rcases houtcome with ⟨hdeep, herror⟩ | ⟨hshallow, hmissing, hallow, herror⟩ |
      ⟨hshallow, hfound, document, hok⟩
    · simp [hdeep, herror]
    · simp only [herror, reduceCtorEq, exists_false, false_iff]
      rintro ⟨-, ⟨type, htype, hname⟩ | hallowed⟩
      · exact hmissing type htype hname
      · rw [hallow] at hallowed
        contradiction
    · exact ⟨fun _ => ⟨hshallow, hfound⟩, fun _ => ⟨document, hok⟩⟩
  · intro document hok
    have hparts := hasParts_of_document hindexed hnames hroot hok
    refine ⟨hparts.emitsObjects hfields, ?_⟩
    intro other second hother hsecond
    exact hparts.agreesOn (hasParts_of_document hindexed hnames hother hsecond)

section Usual

attribute [local instance] Runtime.usual

theorem shelfTypes_emits_each_object :
    ∃ document, (ofTypes shelfTypes).document {} (.str "Query") = .ok document ∧
      (ofTypes shelfTypes).EmitsObjects "Query" document.toJson := by
  obtain ⟨document, hok⟩ :=
    exists_document_shelfTypes (by decide : "Query" ≠ "") (by decide)
  obtain ⟨-, -, -, hemits⟩ :=
    document_emits_each_object nodup_names_shelfTypes nodup_fields_shelfTypes
      isClosed_shelfTypes ranksVariants_shelfTypes.hasFiniteUnions {} (by decide : "Query" ≠ "")
  exact ⟨document, hok, (hemits document hok).1⟩

end Usual

/-! ## A tower of unions -/

def floorName (level : Nat) : String :=
  String.ofList (List.replicate (level + 1) 'U')

/-- The unions of a tower; each lists the one below it, and the lowest an object. -/
def floor : Nat → TypeDef
  | 0 => { name := floorName 0, shape := .union ["Settings"] }
  | level + 1 => { name := floorName (level + 1), shape := .union [floorName level] }

/-- An object whose only field has the top of a tower as its type. -/
def tower (height : Nat) : List TypeDef :=
  { name := "Settings"
    shape := .object [{ name := "value", type := .named (floorName height) }] [] } ::
    (List.range (height + 1)).map floor

@[simp] theorem name_floor (level : Nat) : (floor level).name = floorName level := by
  cases level <;> rfl

theorem floorName_injective {first second : Nat} (heq : floorName first = floorName second) :
    first = second := by
  have hlength := congrArg String.length heq
  simpa [floorName] using hlength

theorem floorName_ne_of_head {name : String} (hhead : name.toList.head? ≠ some 'U') (level : Nat) :
    floorName level ≠ name := by
  rintro rfl
  exact hhead (by simp [floorName, List.replicate_succ])

theorem floorName_ne_settings (level : Nat) : floorName level ≠ "Settings" :=
  floorName_ne_of_head (by decide) level

theorem mem_tower_iff {height : Nat} {type : TypeDef} :
    type ∈ tower height ↔
      type = { name := "Settings"
               shape := .object [{ name := "value", type := .named (floorName height) }] [] } ∨
        ∃ level ≤ height, type = floor level := by
  rw [tower, List.mem_cons, List.mem_map]
  simp only [List.mem_range, Nat.lt_succ_iff, eq_comm]

theorem nodup_names_tower (height : Nat) : ((tower height).map (·.name)).Nodup := by
  rw [tower, List.map_cons, List.nodup_cons, List.map_map]
  constructor
  · intro hmem
    obtain ⟨level, -, hname⟩ := List.mem_map.1 hmem
    exact floorName_ne_settings level (by simpa using hname)
  · refine List.Nodup.map ?_ List.nodup_range
    intro first second heq
    exact floorName_injective (by simpa using heq)

theorem nodup_fields_tower (height : Nat) :
    ∀ type ∈ tower height, (type.fields.map (·.name)).Nodup := by
  intro type htype
  rcases mem_tower_iff.1 htype with rfl | ⟨level, -, rfl⟩
  · simp [TypeDef.fields, TypeDef.fields?]
  · cases level <;> simp [floor, TypeDef.fields, TypeDef.fields?]

theorem isIndexed_tower (height : Nat) : (ofTypes (tower height)).IsIndexed :=
  isIndexed_ofTypes [] (nodup_names_tower height)

theorem get?_floorName {height level : Nat} (hle : level ≤ height) :
    (ofTypes (tower height)).index.get? (floorName level) = some (floor level) := by
  rw [← name_floor]
  exact (isIndexed_tower height).get?_name (mem_tower_iff.2 (.inr ⟨level, hle, rfl⟩))

theorem isClosed_tower (height : Nat) : (ofTypes (tower height)).IsClosed := by
  have hfloor : ∀ level ≤ height,
      floorName level ∈ (ofTypes (tower height)).index.names := by
    intro level hle
    exact Entries.mem_names_of_get? (get?_floorName hle)
  intro type htype name hname
  rcases mem_tower_iff.1 htype with rfl | ⟨level, hle, rfl⟩
  · simp only [TypeDef.references, List.map_cons, List.map_nil, List.append_nil,
      List.mem_singleton] at hname
    rw [hname]
    exact hfloor height (Nat.le_refl _)
  · cases level with
    | zero =>
        simp only [floor, TypeDef.references, List.mem_singleton] at hname
        rw [hname]
        exact Entries.mem_names_of_get?
          ((isIndexed_tower height).get?_name (mem_tower_iff.2 (.inl rfl)))
    | succ level =>
        simp only [floor, TypeDef.references, List.mem_singleton] at hname
        rw [hname]
        exact hfloor level (by omega)

theorem expandsIn_floors {graph : TypeGraph} {height level : Nat}
    (hfloors : ∀ below ≤ height, graph.index.get? (floorName below) = some (floor below))
    (hle : level ≤ height) : graph.ExpandsIn level (floorName level) (floorName 0) := by
  induction level with
  | zero => rfl
  | succ level ih =>
      refine ⟨floorName level, ?_, ih (by omega)⟩
      exact ⟨floor (level + 1), [floorName level], hfloors (level + 1) hle, rfl, by simp⟩

theorem expandsIn_tower {height level : Nat} (hle : level ≤ height) :
    (ofTypes (tower height)).ExpandsIn level (floorName level) (floorName 0) :=
  expandsIn_floors (fun _ hbelow => get?_floorName hbelow) hle

/-- A tower is too deep where there is no room for as many calls as it takes to come to its
lowest union. -/
theorem isTooDeep_tower [Runtime] {height : Nat}
    (hfull : ∀ calls : List Call, calls.length = 3 * height + 4 → Runtime.hasRoom calls = false) :
    (ofTypes (tower height)).IsTooDeep := by
  obtain ⟨calls, hreach, hlength⟩ := (expandsIn_tower (Nat.le_refl height)).exists_calls
  refine .field (mem_objects_iff.2 ⟨mem_tower_iff.2 (.inl rfl), rfl⟩) (List.mem_singleton.2 rfl)
    ⟨floorName 0, calls, hreach, hfull _ ?_⟩
  rw [List.length_append, hlength]
  rfl

theorem hasFiniteUnions_tower (height : Nat) : (ofTypes (tower height)).HasFiniteUnions := by
  have hstep : ∀ first last, (ofTypes (tower height)).Lists first last →
      first ≠ "Settings" ∧ (last ≠ "Settings" → last.length < first.length) := by
    rintro first last ⟨type, members, hget, hshape, hmem⟩
    obtain ⟨htype, hname⟩ := (isIndexed_tower height first type).1 hget
    rcases mem_tower_iff.1 htype with rfl | ⟨level, -, rfl⟩
    · simp at hshape
    · rw [name_floor] at hname
      subst first
      refine ⟨floorName_ne_settings level, fun hlast => ?_⟩
      cases level with
      | zero =>
          simp only [floor, TypeShape.union.injEq] at hshape
          subst members
          exact absurd (List.mem_singleton.1 hmem) hlast
      | succ level =>
          simp only [floor, TypeShape.union.injEq] at hshape
          subst members
          rw [List.mem_singleton.1 hmem]
          simp [floorName]
  have hpath : ∀ first last, Relation.TransGen (ofTypes (tower height)).Lists first last →
      first ≠ "Settings" ∧ (last ≠ "Settings" → last.length < first.length) := by
    intro first last hreach
    induction hreach with
    | single hlists => exact hstep _ _ hlists
    | tail _ hlists ih =>
        obtain ⟨hmiddle, hlt⟩ := hstep _ _ hlists
        exact ⟨ih.1, fun hlast => Nat.lt_trans (hlt hlast) (ih.2 hmiddle)⟩
  intro name hcycle
  obtain ⟨hname, hlt⟩ := hpath name name hcycle
  exact Nat.lt_irrefl _ (hlt hname)

section Usual

attribute [local instance] Runtime.usual

theorem isTooDeep_tower_usual {height : Nat} (hheight : 989 < 3 * height) :
    (ofTypes (tower height)).IsTooDeep := by
  refine isTooDeep_tower fun calls hlength => ?_
  rw [Runtime.hasRoom_usual_eq_false_iff]
  omega

/-- In a tower of 401 unions a missing root is not told. -/
theorem tower_hides_missing_root :
    ((tower 400).map (·.name)).Nodup ∧
      (∀ type ∈ tower 400, (type.fields.map (·.name)).Nodup) ∧
      (ofTypes (tower 400)).IsClosed ∧ (ofTypes (tower 400)).HasFiniteUnions ∧
      (∀ type ∈ (ofTypes (tower 400)).objects, type.name ≠ "Query") ∧
      ({} : Settings).allowMissingRoot.isTruthy = false ∧
      (ofTypes (tower 400)).document {} (.str "Query") ≠ .error (.rootNotFound (.str "Query")) := by
  have hdeep : (ofTypes (tower 400)).IsTooDeep := isTooDeep_tower_usual (by decide)
  refine ⟨nodup_names_tower 400, nodup_fields_tower 400, isClosed_tower 400,
    hasFiniteUnions_tower 400, ?_, rfl, ?_⟩
  · intro type htype
    obtain ⟨hmem, hkind⟩ := mem_objects_iff.1 htype
    rcases mem_tower_iff.1 hmem with rfl | ⟨level, -, rfl⟩
    · decide
    · cases level <;> simp [floor, TypeDef.isObject] at hkind
  · rcases document_outcome (isIndexed_tower 400) (isClosed_tower 400)
      (hasFiniteUnions_tower 400) {} (by decide : "Query" ≠ "") with
      ⟨-, herror⟩ | ⟨hshallow, -⟩ | ⟨hshallow, -⟩
    · rw [herror]
      simp
    · exact absurd hdeep hshallow
    · exact absurd hdeep hshallow

end Usual

end TypeGraph

end ConfigSchema
