import ConfigSchema.Proofs.DocumentKeys

/-!
# Validity of JSON values

Which values a JSON Schema document accepts, as far as its schemas use the keywords of draft 04:
references, kinds, enumerations, alternatives, items, properties, required names and additional
properties.  A reference names a definition of the document; what a reference to no definition
accepts is left open.  Main statements: what each kind of node and the schema of an object type
accept.
-/

namespace ConfigSchema

namespace Json

/-- The words for the kinds of a value; a whole number is a number, too. -/
def kinds : Json → List String
  | .null => ["null"]
  | .bool _ => ["boolean"]
  | .int _ => ["integer", "number"]
  | .float _ => ["number"]
  | .str _ => ["string"]
  | .arr _ => ["array"]
  | .obj _ => ["object"]

/-- The schema that a reference of a document stands for. -/
def referent? (document : Json) (target : String) : Option Json :=
  match document.get? "definitions" with
  | some (.obj definitions) =>
      (definitions.find? fun entry => "#/definitions/" ++ entry.1 = target).map (·.2)
  | _ => none

/-- The names that a schema declares as properties. -/
def declaredNames (schema : Json) : List String :=
  match schema.get? "properties" with
  | some (.obj properties) => Entries.names properties
  | _ => []

mutual

/-- A schema of a document accepts a value.  Beside a reference no other key counts; a key that
is about objects or arrays says nothing about other values. -/
inductive Validates (document : Json) (outside : String → Json → Prop) : Json → Json → Prop
  | defined {schema next value : Json} {target : String}
      (href : schema.get? "$ref" = some (.str target))
      (hnext : document.referent? target = some next)
      (h : Validates document outside next value) : Validates document outside schema value
  | undefined {schema value : Json} {target : String}
      (href : schema.get? "$ref" = some (.str target))
      (hnone : document.referent? target = none) (h : outside target value) :
      Validates document outside schema value
  | keywords {schema value : Json} (href : schema.get? "$ref" = none)
      (htype : ∀ kind, schema.get? "type" = some (.str kind) → kind ∈ value.kinds)
      (henum : ∀ values, schema.get? "enum" = some (.arr values) → value ∈ values)
      (hanyOf : ∀ schemas, schema.get? "anyOf" = some (.arr schemas) →
        ValidatesSome document outside schemas value)
      (hitems : ∀ sub items, schema.get? "items" = some sub → value = .arr items →
        ∀ item ∈ items, Validates document outside sub item)
      (hrequired : ∀ names entries, schema.get? "required" = some (.arr names) →
        value = .obj entries → ∀ name, .str name ∈ names → name ∈ Entries.names entries)
      (hproperties : ∀ properties entries, schema.get? "properties" = some (.obj properties) →
        value = .obj entries → ∀ name item sub, (name, item) ∈ entries →
          Entries.get? name properties = some sub → Validates document outside sub item)
      (hadditional : schema.get? "additionalProperties" = some (.bool false) →
        ∀ entries, value = .obj entries →
          ∀ name ∈ Entries.names entries, name ∈ schema.declaredNames) :
      Validates document outside schema value

/-- Some schema of a list accepts a value. -/
inductive ValidatesSome (document : Json) (outside : String → Json → Prop) :
    List Json → Json → Prop
  | intro {schemas : List Json} {sub value : Json} (hmem : sub ∈ schemas)
      (h : Validates document outside sub value) : ValidatesSome document outside schemas value

end

variable {document schema value : Json} {outside : String → Json → Prop}

theorem object_mem_kinds_iff : "object" ∈ value.kinds ↔ ∃ entries, value = .obj entries := by
  cases value <;> simp [kinds]

theorem array_mem_kinds_iff : "array" ∈ value.kinds ↔ ∃ items, value = .arr items := by
  cases value <;> simp [kinds]

theorem validates_iff_of_defined {next : Json} {target : String}
    (href : schema.get? "$ref" = some (.str target))
    (hnext : document.referent? target = some next) :
    document.Validates outside schema value ↔ document.Validates outside next value := by
  constructor
  · intro hvalid
    cases hvalid with
    | defined hrefOther hnextOther h =>
        rw [href, Option.some.injEq, Json.str.injEq] at hrefOther
        subst hrefOther
        rw [hnext, Option.some.injEq] at hnextOther
        rwa [hnextOther]
    | undefined hrefOther hnone _ =>
        rw [href, Option.some.injEq, Json.str.injEq] at hrefOther
        subst hrefOther
        rw [hnext] at hnone
        contradiction
    | keywords hrefOther =>
        rw [href] at hrefOther
        contradiction
  · exact .defined href hnext

theorem validates_iff_of_undefined {target : String}
    (href : schema.get? "$ref" = some (.str target)) (hnone : document.referent? target = none) :
    document.Validates outside schema value ↔ outside target value := by
  constructor
  · intro hvalid
    cases hvalid with
    | defined hrefOther hnext _ =>
        rw [href, Option.some.injEq, Json.str.injEq] at hrefOther
        subst hrefOther
        rw [hnone] at hnext
        contradiction
    | undefined hrefOther _ h =>
        rw [href, Option.some.injEq, Json.str.injEq] at hrefOther
        rwa [hrefOther]
    | keywords hrefOther =>
        rw [href] at hrefOther
        contradiction
  · exact .undefined href hnone

end Json

/-! ## What nodes accept -/

namespace Node

variable {document value : Json} {outside : String → Json → Prop} {note : Option String}

theorem validates_primitive_iff {kind : String} :
    document.Validates outside (Node.primitive note kind).toJson value ↔ kind ∈ value.kinds := by
  constructor
  · intro hvalid
    cases hvalid with
    | defined href _ _ => simp [get?_toJson, laterKeys, Entries.get?] at href
    | undefined href _ _ => simp [get?_toJson, laterKeys, Entries.get?] at href
    | keywords _ htype => exact htype kind (by simp [get?_toJson, laterKeys, Entries.get?])
  · intro hkind
    apply Json.Validates.keywords <;> simp [get?_toJson, laterKeys, Entries.get?]
    exact hkind

theorem validates_anyObject_iff :
    document.Validates outside (Node.anyObject note).toJson value ↔ "object" ∈ value.kinds := by
  constructor
  · intro hvalid
    cases hvalid with
    | defined href _ _ => simp [get?_toJson, laterKeys, Entries.get?] at href
    | undefined href _ _ => simp [get?_toJson, laterKeys, Entries.get?] at href
    | keywords _ htype => exact htype "object" (by simp [get?_toJson, laterKeys, Entries.get?])
  · intro hkind
    apply Json.Validates.keywords <;> simp [get?_toJson, laterKeys, Entries.get?]
    · exact hkind
    · rintro properties entries rfl - name item sub - hsub
      simp [Entries.get?] at hsub

theorem validates_enum_iff {values : List String} :
    document.Validates outside (Node.enum note values).toJson value ↔
      ∃ text ∈ values, value = .str text := by
  constructor
  · intro hvalid
    cases hvalid with
    | defined href _ _ => simp [get?_toJson, laterKeys, Entries.get?] at href
    | undefined href _ _ => simp [get?_toJson, laterKeys, Entries.get?] at href
    | keywords _ _ henum =>
        have hmem := henum (values.map .str)
          (by simp [get?_toJson, laterKeys, Entries.get?, Json.texts])
        obtain ⟨text, htext, heq⟩ := List.mem_map.1 hmem
        exact ⟨text, htext, heq.symm⟩
  · rintro ⟨text, htext, rfl⟩
    apply Json.Validates.keywords <;>
      simp [get?_toJson, laterKeys, Entries.get?, Json.texts, Json.kinds]
    exact htext

theorem validates_anyOf_iff {variants : List Node} :
    document.Validates outside (Node.anyOf note variants).toJson value ↔
      ∃ node ∈ variants, document.Validates outside node.toJson value := by
  constructor
  · intro hvalid
    cases hvalid with
    | defined href _ _ => simp [get?_toJson, laterKeys, Entries.get?] at href
    | undefined href _ _ => simp [get?_toJson, laterKeys, Entries.get?] at href
    | keywords _ _ _ hanyOf =>
        cases hanyOf (variants.map toJson) (by simp [get?_toJson, laterKeys, Entries.get?]) with
        | intro hsub h =>
            obtain ⟨node, hnode, rfl⟩ := List.mem_map.1 hsub
            exact ⟨node, hnode, h⟩
  · rintro ⟨node, hnode, h⟩
    apply Json.Validates.keywords <;> simp [get?_toJson, laterKeys, Entries.get?]
    exact .intro (List.mem_map_of_mem hnode) h

theorem validates_array_iff {items : Node} :
    document.Validates outside (Node.array note items).toJson value ↔
      ∃ list, value = .arr list ∧ ∀ item ∈ list, document.Validates outside items.toJson item := by
  constructor
  · intro hvalid
    cases hvalid with
    | defined href _ _ => simp [get?_toJson, laterKeys, Entries.get?] at href
    | undefined href _ _ => simp [get?_toJson, laterKeys, Entries.get?] at href
    | keywords _ htype _ _ hitems =>
        have hkind := htype "array" (by simp [get?_toJson, laterKeys, Entries.get?])
        obtain ⟨list, rfl⟩ := Json.array_mem_kinds_iff.1 hkind
        exact ⟨list, rfl, hitems items.toJson list
          (by simp [get?_toJson, laterKeys, Entries.get?]) rfl⟩
  · rintro ⟨list, rfl, hall⟩
    apply Json.Validates.keywords <;>
      simp [get?_toJson, laterKeys, Entries.get?, Json.kinds]
    exact hall

end Node

/-! ## What schemas of object types accept -/

namespace Properties

variable {document schema value : Json} {outside : String → Json → Prop}

private theorem declaredNames_eq {properties : Properties}
    (hkey : schema.get? "properties" = some (.obj properties.jsonNodes)) :
    schema.declaredNames = properties.nodes.names := by
  rw [Json.declaredNames, hkey]
  exact properties.names_jsonNodes

/-- A schema with the keys of an object accepts objects that have all required names, fitting
values under the names of properties, and further names only where it is open. -/
theorem validates_iff {properties : Properties} {isOpen : Bool}
    (hkeys : properties.HasKeys isOpen schema) :
    document.Validates outside schema value ↔
      ∃ entries, value = .obj entries ∧
        (∀ name ∈ properties.required, name ∈ Entries.names entries) ∧
        (∀ name item node, (name, item) ∈ entries → properties.nodes.get? name = some node →
          document.Validates outside node.toJson item) ∧
        (isOpen = false → ∀ name ∈ Entries.names entries, name ∈ properties.nodes.names) := by
  have href : schema.get? "$ref" = none := by
    simp [hkeys.get?_eq]
  have htype : schema.get? "type" = some (.str "object") := by
    simp [hkeys.get?_eq]
  have henum : schema.get? "enum" = none := by
    simp [hkeys.get?_eq]
  have hanyOf : schema.get? "anyOf" = none := by
    simp [hkeys.get?_eq]
  have hitems : schema.get? "items" = none := by
    simp [hkeys.get?_eq]
  have hrequired : schema.get? "required" = properties.jsonRequired? := by
    simp [hkeys.get?_eq]
  have hproperties : schema.get? "properties" = some (.obj properties.jsonNodes) := by
    simp [hkeys.get?_eq]
  have hadditional : schema.get? "additionalProperties" = some (.bool isOpen) := by
    simp [hkeys.get?_eq]
  constructor
  · intro hvalid
    cases hvalid with
    | defined hrefOther _ _ =>
        rw [href] at hrefOther
        contradiction
    | undefined hrefOther _ _ =>
        rw [href] at hrefOther
        contradiction
    | keywords _ hkinds _ _ _ hnames hsubs hmore =>
        obtain ⟨entries, rfl⟩ := Json.object_mem_kinds_iff.1 (hkinds "object" htype)
        refine ⟨entries, rfl, ?_, ?_, ?_⟩
        · intro name hname
          have hsome : schema.get? "required" = some (Json.texts properties.required) := by
            rw [hrequired, jsonRequired?, if_neg (List.ne_nil_of_mem hname)]
          exact hnames _ entries hsome rfl name (List.mem_map_of_mem hname)
        · intro name item node hitem hnode
          refine hsubs _ entries hproperties rfl name item node.toJson hitem ?_
          rw [properties.get?_jsonNodes, hnode]
          rfl
        · intro hclosed name hname
          rw [hclosed] at hadditional
          rw [← declaredNames_eq hproperties]
          exact hmore hadditional entries rfl name hname
  · rintro ⟨entries, rfl, hnames, hnodes, hclosed⟩
    refine .keywords href ?_ ?_ ?_ ?_ ?_ ?_ ?_
    · intro kind hkind
      rw [htype, Option.some.injEq, Json.str.injEq] at hkind
      simp [Json.kinds, ← hkind]
    · intro values hvalues
      rw [henum] at hvalues
      contradiction
    · intro schemas hschemas
      rw [hanyOf] at hschemas
      contradiction
    · intro sub items hsub
      rw [hitems] at hsub
      contradiction
    · intro names others hsome heq name hname
      rw [Json.obj.injEq] at heq
      subst others
      rw [hrequired, jsonRequired?] at hsome
      split at hsome
      · contradiction
      · rw [Option.some.injEq, Json.texts, Json.arr.injEq] at hsome
        subst names
        exact hnames name (by simpa using hname)
    · intro others members hsome heq name item sub hitem hsub
      rw [Json.obj.injEq] at heq
      subst members
      rw [hproperties, Option.some.injEq, Json.obj.injEq] at hsome
      subst others
      rw [properties.get?_jsonNodes, Option.map_eq_some_iff] at hsub
      obtain ⟨node, hnode, rfl⟩ := hsub
      exact hnodes name item node hitem hnode
    · intro hsome others heq name hname
      rw [Json.obj.injEq] at heq
      subst others
      rw [hadditional, Option.some.injEq, Json.bool.injEq] at hsome
      rw [declaredNames_eq hproperties]
      exact hclosed hsome name hname

end Properties

namespace SchemaDocument

theorem referent?_toJson (document : SchemaDocument) (name : String) :
    document.toJson.referent? (Node.refTarget name) = document.toJson.definition? name := by
  have hfind : ∀ entries : Entries Json,
      (entries.find? fun entry => "#/definitions/" ++ entry.1 = Node.refTarget name).map (·.2) =
        entries.get? name := by
    intro entries
    induction entries with
    | nil => rfl
    | cons entry rest ih =>
        by_cases hname : entry.1 = name
        · simp [Entries.get?, Node.refTarget, hname]
        · have hne : ¬ "#/definitions/" ++ entry.1 = Node.refTarget name := by
            simpa [Node.refTarget] using hname
          rw [List.find?_cons_of_neg (by simpa using hne), ih]
          simp [Entries.get?, hname]
  rw [Json.referent?, Json.definition?, document.get?_definitions]
  exact hfind document.jsonDefinitions

end SchemaDocument

end ConfigSchema
