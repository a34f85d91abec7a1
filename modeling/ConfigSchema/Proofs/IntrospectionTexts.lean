import ConfigSchema.Proofs.DetouredSchemas
import ConfigSchema.Proofs.ExactDocuments

/-!
# Texts of introspection results

The introspection result of a loaded schema comes back from its text, however the text is laid out.
It has no numbers, no lone surrogate stands in it, and what nests deepest is a reference of an
argument, whose layers the language bounds.
-/

namespace ConfigSchema

namespace Schema

variable {schema : Schema}

/-! ## Plain parts -/

/-- How many layers a reference can have that is read from a document or built in. -/
def readLayers [Runtime] : Nat := 2 * Runtime.parsingDepth + 3

/-- A reference to a plain name, through no more layers than that. -/
structure IsPlainRef [Runtime] (ref : TypeRef) : Prop where
  base : Text.hasSurrogate ref.base = false
  layers : ref.layers ≤ readLayers

structure InputValue.IsPlain [Runtime] (schema : Schema) (input : InputValue) : Prop where
  name : Text.hasSurrogate input.name = false
  description : IsPlainText input.description
  type : IsPlainRef input.type
  default : IsPlainText (schema.defaultText? input)
  deprecation : IsPlainText input.deprecation

structure Field.IsPlain [Runtime] (schema : Schema) (field : Field) : Prop where
  name : Text.hasSurrogate field.name = false
  description : IsPlainText field.description
  arguments : ∀ input ∈ field.arguments, input.IsPlain schema
  type : IsPlainRef field.type
  deprecation : IsPlainText field.deprecation

structure EnumValue.IsPlain [Runtime] (value : EnumValue) : Prop where
  name : Text.hasSurrogate value.name = false
  description : IsPlainText value.description
  deprecation : IsPlainText value.deprecation

def Shape.IsPlain [Runtime] (schema : Schema) : Shape → Prop
  | .scalar specification => IsPlainText specification
  | .object _ fields => ∀ field ∈ fields, field.IsPlain schema
  | .interface _ fields => ∀ field ∈ fields, field.IsPlain schema
  | .union _ => True
  | .enum values => ∀ value ∈ values, value.IsPlain
  | .input fields _ => ∀ input ∈ fields, input.IsPlain schema

structure NamedType.IsPlain [Runtime] (schema : Schema) (type : NamedType) : Prop where
  name : Text.hasSurrogate type.name = false
  description : IsPlainText type.description
  references : ∀ name ∈ type.references, Text.hasSurrogate name = false
  shape : type.shape.IsPlain schema

structure Directive.IsPlain [Runtime] (schema : Schema) (d : Directive) : Prop where
  name : Text.hasSurrogate d.name = false
  description : IsPlainText d.description
  arguments : ∀ input ∈ d.arguments, input.IsPlain schema

/-! ## Built-in types -/

/-- The argument that asks for what is deprecated. -/
def isFilter (input : InputValue) : Bool :=
  input.name = "includeDeprecated" && input.description.isNone && input.type = .named "Boolean" &&
    input.deprecation.isNone && match input.default with
      | some (.boolean false) => true
      | _ => false

theorem isPlain_of_isFilter [Runtime] {input : InputValue} (hfilter : isFilter input = true) :
    input.IsPlain schema := by
  obtain ⟨name, description, type, default, deprecation⟩ := input
  simp only [isFilter, Bool.and_eq_true, decide_eq_true_eq, Option.isNone_iff_eq_none] at hfilter
  obtain ⟨⟨⟨⟨rfl, rfl⟩, rfl⟩, rfl⟩, hdefault⟩ := hfilter
  split at hdefault
  · refine ⟨Text.hasSurrogate_of_ascii (by decide), isPlainText_none,
      ⟨Text.hasSurrogate_of_ascii (by decide), ?_⟩, ?_, isPlainText_none⟩
    · exact Nat.zero_le _
    change IsPlainText (some "false")
    rintro _ ⟨⟩
    exact Text.hasSurrogate_of_ascii (by decide)
  · contradiction

/-- A field of a type that describes schemas. -/
structure Field.DescribesSchemas (field : Field) : Prop where
  name : Text.IsAscii field.name
  description : field.description = none
  arguments : field.arguments.all isFilter = true
  base : Text.IsAscii field.type.base
  layers : field.type.layers ≤ 3
  deprecation : field.deprecation = none

instance (field : Field) : Decidable field.DescribesSchemas :=
  decidable_of_iff (Text.IsAscii field.name ∧ field.description = none ∧
      field.arguments.all isFilter = true ∧ Text.IsAscii field.type.base ∧
      field.type.layers ≤ 3 ∧ field.deprecation = none)
    ⟨fun ⟨hname, hdescription, harguments, hbase, hlayers, hdeprecation⟩ =>
        ⟨hname, hdescription, harguments, hbase, hlayers, hdeprecation⟩,
      fun ⟨hname, hdescription, harguments, hbase, hlayers, hdeprecation⟩ =>
        ⟨hname, hdescription, harguments, hbase, hlayers, hdeprecation⟩⟩

theorem Field.DescribesSchemas.isPlain [Runtime] {field : Field}
    (hdescribes : field.DescribesSchemas) : field.IsPlain schema where
  name := Text.hasSurrogate_of_ascii hdescribes.name
  description := hdescribes.description ▸ isPlainText_none
  arguments input hinput :=
    isPlain_of_isFilter (List.all_eq_true.1 hdescribes.arguments input hinput)
  type := ⟨Text.hasSurrogate_of_ascii hdescribes.base,
    hdescribes.layers.trans (Nat.le_add_left 3 _)⟩
  deprecation := hdescribes.deprecation ▸ isPlainText_none

theorem isPlain_scalarType [Runtime] {name description : String} (hname : Text.IsAscii name)
    (hdescription : Text.IsAscii description) :
    (BuiltIn.scalarType name description).IsPlain schema :=
  ⟨Text.hasSurrogate_of_ascii hname,
    fun _ htext => Option.some.inj htext ▸ Text.hasSurrogate_of_ascii hdescription,
    fun _ hmem => (List.not_mem_nil hmem).elim, isPlainText_none⟩

theorem isPlain_enumType [Runtime] {name : String} {values : List String}
    (hplain : Text.IsAscii name ∧ ∀ value ∈ values, Text.IsAscii value) :
    (BuiltIn.enumType name values).IsPlain schema := by
  refine ⟨Text.hasSurrogate_of_ascii hplain.1, isPlainText_none,
    fun _ hmem => (List.not_mem_nil hmem).elim, ?_⟩
  intro value hvalue
  obtain ⟨text, htext, rfl⟩ := List.mem_map.1 hvalue
  exact ⟨Text.hasSurrogate_of_ascii (hplain.2 text htext), isPlainText_none, isPlainText_none⟩

theorem isPlain_objectType [Runtime] {name : String} {fields : List Field}
    (hplain : Text.IsAscii name ∧ ∀ field ∈ fields, field.DescribesSchemas) :
    (BuiltIn.objectType name fields).IsPlain schema := by
  have hfields : ∀ field ∈ fields, field.IsPlain schema := fun field hfield =>
    (hplain.2 field hfield).isPlain
  refine ⟨Text.hasSurrogate_of_ascii hplain.1, isPlainText_none, ?_, hfields⟩
  intro base hbase
  obtain ⟨field, hfield, hmem⟩ := List.mem_flatMap.1 hbase
  rcases List.mem_cons.1 hmem with rfl | hargument
  · exact (hfields field hfield).type.base
  · obtain ⟨input, hinput, rfl⟩ := List.mem_map.1 hargument
    exact ((hfields field hfield).arguments input hinput).type.base

theorem BuiltIn.isPlain_scalars [Runtime] : ∀ type ∈ BuiltIn.scalars, type.IsPlain schema := by
  simp only [scalars, List.forall_mem_cons]
  refine ⟨isPlain_scalarType (by decide) ?_, isPlain_scalarType (by decide) ?_,
    isPlain_scalarType (by decide) ?_, isPlain_scalarType (by decide) (by decide +kernel),
    isPlain_scalarType (by decide) ?_, by simp⟩
  all_goals
    simp only [Text.isAscii_append_iff]
    repeat' refine And.intro ?_ ?_
    all_goals decide +kernel

theorem BuiltIn.isPlain [Runtime] : ∀ type ∈ BuiltIn.types, type.IsPlain schema := by
  refine List.forall_mem_append.2 ⟨isPlain_scalars, ?_⟩
  simp only [introspectionTypes, List.forall_mem_cons]
  exact ⟨isPlain_objectType (by decide +kernel), isPlain_objectType (by decide +kernel),
    isPlain_enumType (by decide +kernel), isPlain_objectType (by decide +kernel),
    isPlain_objectType (by decide +kernel), isPlain_objectType (by decide +kernel),
    isPlain_objectType (by decide +kernel), isPlain_enumType (by decide +kernel), by simp⟩

/-! ## Own types -/

theorem hasSurrogate_of_type? [Runtime] {name : String} (hsound : schema.IsSound)
    (htype : (schema.type? name).isSome = true) : Text.hasSurrogate name = false := by
  obtain ⟨type, htype⟩ := Option.isSome_iff_exists.1 htype
  rcases type?_cases htype with ⟨-, hbuilt⟩ | ⟨-, hown, rfl⟩
  · have hascii : ∀ name ∈ Sdl.BuiltIn.typeNames, Text.IsAscii name := by decide
    exact Text.hasSurrogate_of_ascii (hascii name hbuilt)
  · exact Sdl.hasSurrogate_name (hsound.types type hown).name

theorem isPlainRef [Runtime] {ref : TypeRef} (hsound : schema.IsSound) (hwritable : ref.IsWritable)
    (htype : (schema.type? ref.base).isSome = true) : IsPlainRef ref where
  base := hasSurrogate_of_type? hsound htype
  layers := by
    have hlayers := hwritable.isProper.layers_le
    have hdepth := hwritable.listDepth_le
    rw [readLayers]
    split at hlayers <;> omega

section

variable [Runtime] (hloaded : schema.IsLoaded)

include hloaded

theorem IsLoaded.isPlainText_defaultText? {input : InputValue}
    (hinput : input ∈ schema.inputValues) :
    IsPlainText (schema.defaultText? input) := by
  rw [defaultText?]
  cases hdefault : schema.normalDefault input with
  | error cause => exact isPlainText_none
  | ok value =>
      intro text htext
      obtain ⟨w, rfl, rfl⟩ := Option.map_eq_some_iff.1 htext
      exact Sdl.hasSurrogate_value w (hloaded.isPrintable hinput hdefault)

theorem IsLoaded.isPlain_input {input : InputValue} (hinput : input ∈ schema.inputValues)
    (htype : (schema.type? input.type.base).isSome = true) : input.IsPlain schema :=
  let hsound := hloaded.sound.inputValues input hinput
  ⟨Sdl.hasSurrogate_name hsound.name, hsound.description,
    isPlainRef hloaded.sound hsound.type htype, hloaded.isPlainText_defaultText? hinput,
    hsound.deprecation⟩

theorem IsLoaded.isPlain_type {type : NamedType} (htype : type ∈ schema.types) :
    type.IsPlain schema := by
  have hsound := hloaded.sound.types type htype
  have hknown : ∀ name ∈ type.references, (schema.type? name).isSome = true := fun name hname =>
    isSome_type?_of_references (hloaded.sound.hasFittingReferences htype) hname
  refine ⟨Sdl.hasSurrogate_name hsound.name, hsound.description,
    fun name hname => hasSurrogate_of_type? hloaded.sound (hknown name hname), ?_⟩
  have hinputs : ∀ input ∈ type.shape.inputValues, input ∈ schema.inputValues :=
    fun input hinput => mem_inputValues_of_type htype hinput
  have hfields : ∀ fields : List Field, AreSoundFields fields →
      (∀ field ∈ fields, ∀ name ∈ field.references, (schema.type? name).isSome = true) →
      (∀ field ∈ fields, ∀ input ∈ field.arguments, input ∈ schema.inputValues) →
        ∀ field ∈ fields, field.IsPlain schema := by
    intro fields hsounds hnames hmems field hfield
    have hsound := hsounds.sound field hfield
    refine ⟨Sdl.hasSurrogate_name hsound.name, hsound.description, ?_,
      isPlainRef hloaded.sound hsound.type (hnames field hfield _ List.mem_cons_self),
      hsound.deprecation⟩
    intro input hinput
    exact hloaded.isPlain_input (hmems field hfield input hinput)
      (hnames field hfield _ (List.mem_cons_of_mem _ (List.mem_map_of_mem hinput)))
  have hshape := hsound.shape
  obtain ⟨name, description, directives, shape⟩ := type
  cases shape with
  | scalar specification => exact hshape
  | object interfaces fields =>
      exact hfields fields hshape
        (fun field hfield name hname => hknown name
          (List.mem_append_right _ (List.mem_flatMap.2 ⟨field, hfield, hname⟩)))
        fun field hfield input hinput => hinputs input (List.mem_flatMap.2 ⟨field, hfield, hinput⟩)
  | interface interfaces fields =>
      exact hfields fields hshape
        (fun field hfield name hname => hknown name
          (List.mem_append_right _ (List.mem_flatMap.2 ⟨field, hfield, hname⟩)))
        fun field hfield input hinput => hinputs input (List.mem_flatMap.2 ⟨field, hfield, hinput⟩)
  | union members => trivial
  | enum values =>
      intro value hvalue
      have hsound := hshape.sound value hvalue
      exact ⟨Sdl.hasSurrogate_name hsound.name, hsound.description, hsound.deprecation⟩
  | input fields isOneOf =>
      exact fun input hinput => hloaded.isPlain_input (hinputs input hinput)
        (hknown _ (List.mem_map_of_mem hinput))

theorem IsLoaded.isPlain_directive {d : Directive} (hd : d ∈ schema.directives) :
    d.IsPlain schema := by
  have hsound := hloaded.sound.directives d hd
  refine ⟨Sdl.hasSurrogate_name hsound.name, hsound.description, fun input hinput => ?_⟩
  exact hloaded.isPlain_input (mem_inputValues_of_directive hd hinput)
    (isSome_type?_of_isKind (hloaded.sound.isInput_of_argument hd hinput))

end

end Schema

namespace Introspection

namespace Result

open Schema

variable {schema : Schema} {room : Nat}

/-! ## Exact parts -/

theorem isExact_ofText? [Runtime] {text : Option String} (hplain : IsPlainText text) :
    (Json.ofText? text).IsExact room := by
  cases text with
  | none => exact ⟨.null, .null⟩
  | some found => exact .str (Text.isJoined_of_hasSurrogate (hplain found rfl))

/-- Texts that are told by themselves. -/
theorem isExact_str [Runtime] {text : String} (hplain : Text.hasSurrogate text = false) :
    (Json.str text).IsExact room :=
  .str (Text.isJoined_of_hasSurrogate hplain)

theorem isExact_obj [Runtime] {entries : Entries Json} (names : List String)
    (hnames : entries.names = names) (hkeys : names.Nodup ∧ ∀ name ∈ names, Text.IsAscii name)
    (hvalues : ∀ v ∈ entries.map (·.2), v.IsExact room) :
    (Json.obj entries).IsExact (room + 1) := by
  subst hnames
  refine .obj hkeys.1 fun entry hentry => ⟨Text.isJoined_of_hasSurrogate ?_, ?_⟩
  · exact Text.hasSurrogate_of_ascii (hkeys.2 _ (List.mem_map_of_mem hentry))
  · exact hvalues _ (List.mem_map_of_mem hentry)

theorem isExact_ofRef [Runtime] {ref : TypeRef} (hbase : Text.hasSurrogate ref.base = false) :
    (ofRef schema ref).IsExact (ref.layers + 1) := by
  have hlayer : ∀ {kind : String} {of : TypeRef}, Text.hasSurrogate kind = false →
      (ofRef schema of).IsExact (of.layers + 1) →
        (Json.obj [("kind", .str kind), ("name", .null), ("ofType", ofRef schema of)]).IsExact
          (of.layers + 2) := by
    intro kind of hkind hof
    refine isExact_obj ["kind", "name", "ofType"] rfl (by decide) ?_
    simp only [List.map_cons, List.map_nil, List.forall_mem_cons]
    exact ⟨isExact_str hkind, ⟨.null, .null⟩, hof, by simp⟩
  induction ref with
  | named name =>
      have hkind : IsPlainText ((schema.type? name).map (·.shape.kind.word)) := by
        intro word hword
        obtain ⟨type, -, rfl⟩ := Option.map_eq_some_iff.1 hword
        cases type.shape.kind <;> exact Text.hasSurrogate_of_ascii (by decide)
      refine isExact_obj ["kind", "name", "ofType"] rfl (by decide) ?_
      simp only [List.map_cons, List.map_nil, List.forall_mem_cons]
      exact ⟨isExact_ofText? hkind, isExact_str hbase, ⟨.null, .null⟩, by simp⟩
  | list of ih => exact hlayer (Text.hasSurrogate_of_ascii (by decide)) (ih hbase)
  | required of ih => exact hlayer (Text.hasSurrogate_of_ascii (by decide)) (ih hbase)

/-- How deep a reference of a document nests. -/
def refRoom [Runtime] : Nat := readLayers + 1

theorem isExact_ofNames [Runtime] {names : List String}
    (hnames : ∀ name ∈ names, Text.hasSurrogate name = false) :
    (ofNames schema names).IsExact (room + 2) := by
  refine .arr (List.forall_mem_map.2 fun name hname => ?_)
  have hbase : Text.hasSurrogate (TypeRef.named name).base = false := hnames name hname
  exact (isExact_ofRef hbase).mono (Nat.le_add_left 1 room)

theorem isExact_ofInput [Runtime] {input : InputValue} (hplain : input.IsPlain schema) :
    (ofInput schema input).IsExact (refRoom + 1) := by
  refine isExact_obj ["name", "description", "type", "defaultValue", "isDeprecated",
    "deprecationReason"] rfl (by decide) ?_
  simp only [List.map_cons, List.map_nil, List.forall_mem_cons]
  exact ⟨isExact_str hplain.name, isExact_ofText? hplain.description,
    (isExact_ofRef hplain.type.base).mono (Nat.succ_le_succ hplain.type.layers),
    isExact_ofText? hplain.default, .bool _, isExact_ofText? hplain.deprecation, by simp⟩

theorem isExact_ofField [Runtime] {field : Schema.Field} (hplain : field.IsPlain schema) :
    (ofField schema field).IsExact (refRoom + 3) := by
  refine isExact_obj ["name", "description", "args", "type", "isDeprecated",
    "deprecationReason"] rfl (by decide) ?_
  simp only [List.map_cons, List.map_nil, List.forall_mem_cons]
  have hlayers : field.type.layers + 1 ≤ refRoom + 2 :=
    Nat.le_add_right_of_le (Nat.succ_le_succ hplain.type.layers)
  exact ⟨isExact_str hplain.name, isExact_ofText? hplain.description,
    .arr (List.forall_mem_map.2
      fun input hinput => isExact_ofInput (hplain.arguments input hinput)),
    (isExact_ofRef hplain.type.base).mono hlayers, .bool _, isExact_ofText? hplain.deprecation,
    by simp⟩

theorem isExact_ofEnumValue [Runtime] {value : EnumValue} (hplain : value.IsPlain) :
    (ofEnumValue value).IsExact (room + 1) := by
  refine isExact_obj ["name", "description", "isDeprecated", "deprecationReason"] rfl
    (by decide) ?_
  simp only [List.map_cons, List.map_nil, List.forall_mem_cons]
  exact ⟨isExact_str hplain.name, isExact_ofText? hplain.description, .bool _,
    isExact_ofText? hplain.deprecation, by simp⟩

theorem isExact_ofType [Runtime] {type : NamedType} (hplain : type.IsPlain schema)
    (himplementors : ∀ name ∈ implementors schema type.name, Text.hasSurrogate name = false) :
    (ofType schema type).IsExact (refRoom + 5) := by
  refine isExact_obj ["kind", "name", "description", "specifiedByURL", "isOneOf", "fields",
    "inputFields", "interfaces", "enumValues", "possibleTypes"] rfl (by decide) ?_
  simp only [List.map_cons, List.map_nil, List.forall_mem_cons]
  have hkind : Text.hasSurrogate type.shape.kind.word = false := by
    cases type.shape.kind <;> exact Text.hasSurrogate_of_ascii (by decide)
  have hnull : Json.null.IsExact (refRoom + 4) := ⟨.null, .null⟩
  have hfields : ∀ fields : List Schema.Field, (∀ field ∈ fields, field.IsPlain schema) →
      (Json.arr (fields.map (ofField schema))).IsExact (refRoom + 4) := fun fields hfields =>
    .arr (List.forall_mem_map.2 fun field hfield => isExact_ofField (hfields field hfield))
  have hshape := hplain.shape
  have hreferences := hplain.references
  refine ⟨isExact_str hkind, isExact_str hplain.name, isExact_ofText? hplain.description, ?_⟩
  obtain ⟨name, description, directives, shape⟩ := type
  cases shape with
  | scalar specification =>
      exact ⟨isExact_ofText? hshape, hnull, hnull, hnull, hnull, hnull, hnull, by simp⟩
  | object interfaces fields =>
      have hinterfaces : ∀ name ∈ interfaces, Text.hasSurrogate name = false :=
        fun name hname => hreferences name (List.mem_append_left _ hname)
      exact ⟨hnull, hnull, hfields fields hshape, hnull, isExact_ofNames hinterfaces, hnull, hnull,
        by simp⟩
  | interface interfaces fields =>
      have hinterfaces : ∀ name ∈ interfaces, Text.hasSurrogate name = false :=
        fun name hname => hreferences name (List.mem_append_left _ hname)
      exact ⟨hnull, hnull, hfields fields hshape, hnull, isExact_ofNames hinterfaces, hnull,
        isExact_ofNames himplementors, by simp⟩
  | union members =>
      exact ⟨hnull, hnull, hnull, hnull, hnull, hnull, isExact_ofNames hreferences, by simp⟩
  | enum values =>
      have hvalues : (Json.arr (values.map ofEnumValue)).IsExact (refRoom + 4) :=
        .arr (List.forall_mem_map.2 fun value hvalue => isExact_ofEnumValue (hshape value hvalue))
      exact ⟨hnull, hnull, hnull, hnull, hnull, hvalues, hnull, by simp⟩
  | input fields isOneOf =>
      have hinputs : (Json.arr (fields.map (ofInput schema))).IsExact (refRoom + 4) :=
        (Json.IsExact.arr (List.forall_mem_map.2 fun input hinput =>
          isExact_ofInput (hshape input hinput))).mono (by omega)
      exact ⟨hnull, .bool _, hnull, hinputs, hnull, hnull, hnull, by simp⟩

theorem isExact_ofDirective [Runtime] {d : Directive} (hplain : d.IsPlain schema) :
    (ofDirective schema d).IsExact (refRoom + 3) := by
  refine isExact_obj ["name", "description", "isRepeatable", "locations", "args"] rfl
    (by decide) ?_
  simp only [List.map_cons, List.map_nil, List.forall_mem_cons]
  have hlocation : ∀ location : Sdl.Location, Text.hasSurrogate location.name = false := by
    intro location
    cases location <;> exact Text.hasSurrogate_of_ascii (by decide)
  have hlocations : ∀ text ∈ d.locations.map (·.name), Text.IsJoined text :=
    List.forall_mem_map.2 fun location _ => Text.isJoined_of_hasSurrogate (hlocation location)
  exact ⟨isExact_str hplain.name, isExact_ofText? hplain.description, .bool _, .texts hlocations,
    .arr (List.forall_mem_map.2
      fun input hinput => isExact_ofInput (hplain.arguments input hinput)),
    by simp⟩

/-! ## Whole results -/

section

variable [Runtime] (hloaded : schema.IsLoaded)

include hloaded

theorem isPlain_of_orderedTypes {type : NamedType} (htype : type ∈ schema.orderedTypes) :
    type.IsPlain schema := by
  rcases orderedTypes_cases htype with ⟨-, hbuilt⟩ | ⟨-, hown⟩
  · exact BuiltIn.isPlain type hbuilt
  · exact hloaded.isPlain_type hown

theorem isExact_ofRoot {root : Option String}
    (hroot : ∀ name ∈ root, name ∈ schema.roots.names) :
    (ofRoot root).IsExact (room + 1) := by
  cases root with
  | none => exact ⟨.null, .null⟩
  | some name =>
      have hkind := hloaded.sound.roots name (hroot name rfl)
      refine isExact_obj ["name"] rfl (by decide) (List.forall_mem_singleton.2 ?_)
      exact isExact_str (hasSurrogate_of_type? hloaded.sound (isSome_type?_of_isKind hkind))

theorem isExact_ofSchema : (ofSchema schema).IsExact (refRoom + 8) := by
  have hquery : ∀ name ∈ schema.roots.query, name ∈ schema.roots.names := fun name hname =>
    List.mem_append_left _ (List.mem_append_left _ (Option.mem_toList.2 hname))
  have hmutation : ∀ name ∈ schema.roots.mutation, name ∈ schema.roots.names := fun name hname =>
    List.mem_append_left _ (List.mem_append_right _ (Option.mem_toList.2 hname))
  have hsubscription : ∀ name ∈ schema.roots.subscription, name ∈ schema.roots.names :=
    fun name hname => List.mem_append_right _ (Option.mem_toList.2 hname)
  have himplementors : ∀ type ∈ schema.orderedTypes, ∀ name ∈ implementors schema type.name,
      Text.hasSurrogate name = false := by
    intro type _ name hname
    obtain ⟨object, hobject, hnamed⟩ := List.mem_filterMap.1 hname
    split at hnamed
    · split_ifs at hnamed
      cases hnamed
      exact (isPlain_of_orderedTypes hloaded hobject).name
    · contradiction
  have htypes : (Json.arr (schema.orderedTypes.map (ofType schema))).IsExact (refRoom + 6) :=
    .arr (List.forall_mem_map.2 fun type htype =>
      isExact_ofType (isPlain_of_orderedTypes hloaded htype) (himplementors type htype))
  have hdirectives : (Json.arr (schema.directives.map (ofDirective schema))).IsExact
      (refRoom + 6) :=
    (Json.IsExact.arr (List.forall_mem_map.2 fun d hd =>
      isExact_ofDirective (hloaded.isPlain_directive hd))).mono (by omega)
  refine isExact_obj ["__schema"] rfl (by decide) (List.forall_mem_singleton.2 ?_)
  refine isExact_obj ["description", "queryType", "mutationType", "subscriptionType", "types",
    "directives"] rfl (by decide) ?_
  simp only [List.map_cons, List.map_nil, List.forall_mem_cons]
  exact ⟨isExact_ofText? hloaded.sound.description, isExact_ofRoot hloaded hquery,
    isExact_ofRoot hloaded hmutation, isExact_ofRoot hloaded hsubscription, htypes, hdirectives,
    by simp⟩

/-- The introspection result of a loaded schema comes back from its text. -/
theorem read_render_ofSchema {purpose : Purpose} {style : Json.Indentation}
    (hstyle : style.IsBlank) :
    Json.read ((ofSchema schema).render style ++ "\n") purpose = .ok (ofSchema schema) := by
  have hroom : refRoom + 8 ≤ Runtime.readingDepth purpose := by
    have hreading := Runtime.parsed_le_reading purpose
    unfold refRoom readLayers
    omega
  have hexact := (isExact_ofSchema hloaded).mono hroom
  exact Json.read_render hexact.fits hexact.plain hstyle

end

end Result

end Introspection

end ConfigSchema
