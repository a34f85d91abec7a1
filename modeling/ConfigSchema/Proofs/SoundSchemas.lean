import ConfigSchema.Proofs.DeclarationOrder
import ConfigSchema.Proofs.IntrospectionResults
import ConfigSchema.Proofs.PrintedValues
import ConfigSchema.Proofs.ReferenceLayers

/-!
# Sound schemas

A schema is sound if its names are names of the language and different where they have to be, its
references can be written, its texts hold no lone surrogates, its types have no built-in names, and
every type is used where its kind may be used.  Every name that such a schema mentions stands in the
order of its types.
-/

namespace ConfigSchema

/-- Whether a reference can be written: no mark stands behind another, and its lists do not nest
too deep. -/
structure TypeRef.IsWritable [Runtime] (ref : TypeRef) : Prop where
  isProper : ref.IsProper
  listDepth_le : ref.listDepth ≤ Runtime.parsingDepth

namespace Schema

/-- No lone surrogate stands in a text that may be there. -/
def IsPlainText [Runtime] (text : Option String) : Prop :=
  ∀ found ∈ text, Text.hasSurrogate found = false

theorem isPlainText_none [Runtime] : IsPlainText none := by simp [IsPlainText]

structure InputValue.IsSound [Runtime] (input : InputValue) : Prop where
  name : Introspection.isName input.name = true
  description : IsPlainText input.description
  type : input.type.IsWritable
  deprecation : IsPlainText input.deprecation

/-- Values with different names. -/
structure AreSoundInputs [Runtime] (inputs : List InputValue) : Prop where
  sound : ∀ input ∈ inputs, input.IsSound
  nodup : (inputs.map (·.name)).Nodup

structure Field.IsSound [Runtime] (field : Field) : Prop where
  name : Introspection.isName field.name = true
  description : IsPlainText field.description
  arguments : AreSoundInputs field.arguments
  type : field.type.IsWritable
  deprecation : IsPlainText field.deprecation

structure AreSoundFields [Runtime] (fields : List Field) : Prop where
  sound : ∀ field ∈ fields, field.IsSound
  nodup : (fields.map (·.name)).Nodup

structure EnumValue.IsSound [Runtime] (value : EnumValue) : Prop where
  name : Introspection.isName value.name = true
  word : value.name ∉ Sdl.valueWords
  description : IsPlainText value.description
  deprecation : IsPlainText value.deprecation

structure AreSoundValues [Runtime] (values : List EnumValue) : Prop where
  sound : ∀ value ∈ values, value.IsSound
  nodup : (values.map (·.name)).Nodup

def Shape.IsSound [Runtime] : Shape → Prop
  | .scalar specification => IsPlainText specification
  | .object _ fields => AreSoundFields fields
  | .interface _ fields => AreSoundFields fields
  | .union _ => True
  | .enum values => AreSoundValues values
  | .input fields _ => AreSoundInputs fields

structure NamedType.IsSound [Runtime] (type : NamedType) : Prop where
  own : type.name ∉ Sdl.BuiltIn.typeNames
  name : Introspection.isName type.name = true
  description : IsPlainText type.description
  shape : type.shape.IsSound

structure Directive.IsSound [Runtime] (d : Directive) : Prop where
  name : Introspection.isName d.name = true
  description : IsPlainText d.description
  arguments : AreSoundInputs d.arguments
  locations : d.locations ≠ []
  deprecation : d.deprecation = none

structure IsSound [Runtime] (schema : Schema) : Prop where
  description : IsPlainText schema.description
  types : ∀ type ∈ schema.types, type.IsSound
  nodup : (schema.types.map (·.name)).Nodup
  directives : ∀ d ∈ schema.directives, d.IsSound
  isWellKinded : schema.isWellKinded = true
  roots : ∀ name ∈ schema.roots.names, schema.isKind (· = .object) name = true

variable {schema : Schema} {name : String} {type : NamedType}

theorem IsSound.type?_of_mem [Runtime] (hsound : schema.IsSound) (htype : type ∈ schema.types) :
    schema.type? type.name = some type := by
  have hnone : BuiltIn.type? type.name = none :=
    BuiltIn.type?_eq_none_iff.2 (hsound.types type htype).own
  rw [Schema.type?, hnone, Option.none_or]
  cases hfound : schema.types.find? (·.name = type.name) with
  | none => simpa using List.find?_eq_none.1 hfound type htype
  | some found =>
      have hname : found.name = type.name := by simpa using List.find?_some hfound
      rw [List.inj_on_of_nodup_map hsound.nodup (List.mem_of_find?_eq_some hfound) htype hname]

/-! ## The names of the order -/

/-- What the walk over a schema is asked for is found if it is a type. -/
theorem mem_orderedNames_of_start {start : Option String × List String}
    (hstart : start ∈ schema.starts) (hpending : name ∈ start.2)
    (htype : schema.type? name = some type) : name ∈ schema.orderedNames := by
  by_cases hdefined : name ∈ schema.types.map (·.name)
  · obtain ⟨other, hother, rfl⟩ := List.mem_map.1 hdefined
    exact mem_orderedNames_of_own hother
  · rcases type?_cases htype with ⟨-, hbuilt⟩ | ⟨-, hin, hname⟩
    · have hremains : name ∈ Sdl.BuiltIn.typeNames.filter fun name =>
          !(schema.types.map (·.name)).contains name := by
        rw [List.mem_filter, Bool.not_eq_true', ← Bool.not_eq_true, List.contains_iff_mem]
        exact ⟨hbuilt, hdefined⟩
      exact mem_walk_of_pending hstart hpending hremains
    · exact absurd (List.mem_map.2 ⟨type, hin, hname⟩) hdefined

theorem mem_orderedNames_of_root (hname : name ∈ schema.roots.names)
    (htype : schema.type? name = some type) : name ∈ schema.orderedNames :=
  mem_orderedNames_of_start (List.mem_append_right _ List.mem_cons_self) hname htype

theorem mem_orderedNames_of_argument {d : Directive} (hd : d ∈ schema.directives)
    {input : InputValue} (hinput : input ∈ d.arguments)
    (htype : schema.type? input.type.base = some type) :
    input.type.base ∈ schema.orderedNames := by
  have hpending : input.type.base ∈ schema.directives.flatMap fun d =>
      d.arguments.map (·.type.base) :=
    List.mem_flatMap.2 ⟨d, hd, List.mem_map_of_mem hinput⟩
  exact mem_orderedNames_of_start
    (List.mem_append_right _ (List.mem_cons_of_mem _ List.mem_cons_self)) hpending htype

theorem mem_orderedTypes_of_type? (hname : name ∈ schema.orderedNames)
    (htype : schema.type? name = some type) : type ∈ schema.orderedTypes := by
  have hself := name_of_type? htype
  rw [mem_orderedTypes_iff, hself]
  exact ⟨hname, htype⟩

theorem names_orderedTypes_sublist (schema : Schema) :
    (schema.orderedTypes.map (·.name)).Sublist schema.orderedNames := by
  have hnames : schema.orderedTypes.map (·.name) =
      schema.orderedNames.filterMap fun name => (schema.type? name).map (·.name) := by
    rw [orderedTypes, List.map_filterMap]
  rw [hnames]
  generalize schema.orderedNames = names
  induction names with
  | nil => exact List.Sublist.refl _
  | cons first rest ih =>
      rw [List.filterMap_cons]
      cases htype : schema.type? first with
      | none => exact ih.cons first
      | some type =>
          rw [Option.map_some, name_of_type? htype]
          exact ih.cons_cons first

theorem IsSound.nodup_names_orderedTypes [Runtime] (hsound : schema.IsSound) :
    (schema.orderedTypes.map (·.name)).Nodup :=
  (nodup_orderedNames hsound.nodup).sublist schema.names_orderedTypes_sublist

/-- A type of the order is built in or the schema's own. -/
theorem orderedTypes_cases (htype : type ∈ schema.orderedTypes) :
    BuiltIn.type? type.name = some type ∧ type ∈ BuiltIn.types ∨
      type.name ∉ Sdl.BuiltIn.typeNames ∧ type ∈ schema.types := by
  rcases type?_cases (mem_orderedTypes_iff.1 htype).2 with ⟨hbuilt, -⟩ | ⟨hown, hmem, -⟩
  · exact .inl ⟨hbuilt, (BuiltIn.mem_of_type? hbuilt).1⟩
  · exact .inr ⟨hown, hmem⟩

/-! ## Kinds in their places -/

theorem IsSound.hasFittingReferences [Runtime] (hsound : schema.IsSound)
    (htype : type ∈ schema.types) :
    schema.hasFittingReferences type = true :=
  List.all_eq_true.1 (Bool.and_eq_true_iff.1 hsound.isWellKinded).1 type htype

theorem IsSound.isInput_of_argument [Runtime] (hsound : schema.IsSound) {d : Directive}
    (hd : d ∈ schema.directives) {input : InputValue} (hinput : input ∈ d.arguments) :
    schema.isInput input.type.base = true :=
  List.all_eq_true.1
    (List.all_eq_true.1 (Bool.and_eq_true_iff.1 hsound.isWellKinded).2 d hd) input hinput

end Schema

end ConfigSchema
