import ConfigSchema.Proofs.ResettledSchemas

/-!
# Schemas after the detour

A schema that is read from an introspection result is written as a document that can be read back
and is valid behind the marks.  The schema of that document has the types of the first schema, used
as they were used there.
-/

namespace ConfigSchema

namespace Schema

open Introspection.Document

variable {schema one other : Schema}

/-! ## Sound parts stay sound -/

theorem InputValue.IsSound.retold [Runtime] {input : InputValue} (hsound : input.IsSound) :
    (input.retold schema).IsSound :=
  ⟨hsound.name, hsound.description, hsound.type, hsound.deprecation⟩

theorem AreSoundInputs.retold [Runtime] {inputs : List InputValue}
    (hsound : AreSoundInputs inputs) :
    AreSoundInputs (inputs.map (·.retold schema)) where
  sound := List.forall_mem_map.2 fun input hinput => (hsound.sound input hinput).retold
  nodup := by
    rw [List.map_map]
    exact hsound.nodup

theorem AreSoundFields.retold [Runtime] {fields : List Field} (hsound : AreSoundFields fields) :
    AreSoundFields (fields.map (·.retold schema)) where
  sound := List.forall_mem_map.2 fun field hfield =>
    let hfield := hsound.sound field hfield
    ⟨hfield.name, hfield.description, hfield.arguments.retold, hfield.type, hfield.deprecation⟩
  nodup := by
    rw [List.map_map]
    exact hsound.nodup

theorem NamedType.IsSound.retold [Runtime] {type : NamedType} (hsound : type.IsSound) :
    (type.retold schema).IsSound := by
  have hshape := hsound.shape
  obtain ⟨own, name, description, -⟩ := hsound
  rw [NamedType.retold, if_neg own]
  refine ⟨own, name, description, ?_⟩
  dsimp only
  generalize type.shape = shape at hshape ⊢
  cases shape with
  | object interfaces fields => exact AreSoundFields.retold hshape
  | interface interfaces fields => exact AreSoundFields.retold hshape
  | input fields isOneOf => exact AreSoundInputs.retold hshape
  | _ => exact hshape

theorem Directive.IsSound.retold [Runtime] {d : Directive} (hsound : d.IsSound) :
    (d.retold schema).IsSound :=
  ⟨hsound.name, hsound.description, hsound.arguments.retold, hsound.locations,
    hsound.deprecation⟩

/-! ## References -/

theorem isSome_type?_of_isKind {test : Sdl.TypeBody.Kind → Bool} {name : String}
    (hkind : schema.isKind test name = true) : (schema.type? name).isSome = true := by
  obtain ⟨type, htype, -⟩ := isKind_iff.1 hkind
  rw [htype]
  rfl

theorem isSome_type?_of_fields {fields : List Field}
    (hfits : (fields.all fun field => schema.isOutput field.type.base &&
      schema.hasInputArguments field.arguments) = true) {name : String}
    (hname : name ∈ fields.flatMap Field.references) : (schema.type? name).isSome = true := by
  obtain ⟨field, hfield, hmem⟩ := List.mem_flatMap.1 hname
  obtain ⟨houtput, hinputs⟩ := Bool.and_eq_true_iff.1 (List.all_eq_true.1 hfits field hfield)
  rcases List.mem_cons.1 hmem with rfl | hargument
  · exact isSome_type?_of_isKind houtput
  · obtain ⟨input, hinput, rfl⟩ := List.mem_map.1 hargument
    exact isSome_type?_of_isKind (List.all_eq_true.1 hinputs input hinput)

/-- What a type refers to is there. -/
theorem isSome_type?_of_references {type : NamedType}
    (hfits : schema.hasFittingReferences type = true) {name : String}
    (hname : name ∈ type.references) : (schema.type? name).isSome = true := by
  obtain ⟨own, description, directives, shape⟩ := type
  cases shape with
  | scalar url => contradiction
  | object interfaces fields =>
      obtain ⟨hinterfaces, hfields⟩ := Bool.and_eq_true_iff.1 hfits
      rcases List.mem_append.1 hname with hmem | hmem
      · exact isSome_type?_of_isKind (List.all_eq_true.1 hinterfaces name hmem)
      · exact isSome_type?_of_fields hfields hmem
  | interface interfaces fields =>
      obtain ⟨hinterfaces, hfields⟩ := Bool.and_eq_true_iff.1 hfits
      rcases List.mem_append.1 hname with hmem | hmem
      · exact isSome_type?_of_isKind (List.all_eq_true.1 hinterfaces name hmem)
      · exact isSome_type?_of_fields hfields hmem
  | union members => exact isSome_type?_of_isKind (List.all_eq_true.1 hfits name hname)
  | enum values => contradiction
  | input fields isOneOf =>
      obtain ⟨input, hinput, rfl⟩ := List.mem_map.1 hname
      exact isSome_type?_of_isKind (List.all_eq_true.1 hfits input hinput)

theorem references_retold [Runtime] (type : NamedType) :
    (type.retold schema).references = type.references := by
  have hfields : ∀ fields : List Field,
      (fields.map (·.retold schema)).flatMap Field.references = fields.flatMap Field.references :=
    fun fields => flatMap_references_map fun field => by
      rw [Field.references, Field.references, Field.retold, List.map_map]
      rfl
  obtain ⟨name, description, directives, shape⟩ := type
  rw [NamedType.retold]
  split_ifs
  · rfl
  · cases shape with
    | object interfaces fields => exact congrArg (interfaces ++ ·) (hfields fields)
    | interface interfaces fields => exact congrArg (interfaces ++ ·) (hfields fields)
    | input fields isOneOf =>
        change ((fields.map (·.retold schema)).map (·.type.base)) = _
        rw [List.map_map]
        rfl
    | _ => rfl

/-! ## Printing -/

theorem IsSound.isSome_type?_retold [Runtime] (hsound : schema.IsSound) {name : String}
    (hname : (schema.type? name).isSome = true) : (schema.retold.type? name).isSome = true := by
  rw [hsound.type?_retold, Option.isSome_map]
  exact hname

theorem exists_of_mem_ownDirectives [Runtime] {d : Directive}
    (hd : d ∈ ownDirectives schema.retold) :
    ∃ source ∈ schema.directives, d = source.retold schema := by
  obtain ⟨source, hsource, rfl⟩ := List.mem_map.1 (List.mem_of_mem_filter hd)
  exact ⟨source, hsource, rfl⟩

theorem Shape.inputValues_retold [Runtime] (shape : Shape) :
    (shape.retold schema).inputValues = shape.inputValues.map (·.retold schema) := by
  have hfields : ∀ fields : List Field, (fields.map (·.retold schema)).flatMap (·.arguments) =
      (fields.flatMap (·.arguments)).map (·.retold schema) := by
    intro fields
    rw [List.flatMap_map, List.map_flatMap]
    rfl
  cases shape with
  | object interfaces fields => exact hfields fields
  | interface interfaces fields => exact hfields fields
  | _ => rfl

/-- The values that are printed are those that were told. -/
theorem IsSound.exists_of_mem_ownInputs [Runtime] (hsound : schema.IsSound) {input : InputValue}
    (hinput : input ∈ ownInputs schema.retold) :
    ∃ source ∈ schema.inputValues, input = source.retold schema := by
  rcases List.mem_append.1 hinput with hinput | hinput
  · obtain ⟨_, hmem, hinput⟩ := List.mem_flatMap.1 hinput
    obtain ⟨d, hd, rfl⟩ := exists_of_mem_ownDirectives hmem
    obtain ⟨source, hsource, rfl⟩ := List.mem_map.1 hinput
    exact ⟨source, mem_inputValues_of_directive hd hsource, rfl⟩
  · rw [hsound.ownTypes_retold, List.flatMap_map] at hinput
    obtain ⟨type, htype, hinput⟩ := List.mem_flatMap.1 hinput
    rw [NamedType.retold, if_neg (hsound.types type htype).own] at hinput
    dsimp only at hinput
    rw [Shape.inputValues_retold] at hinput
    obtain ⟨source, hsource, rfl⟩ := List.mem_map.1 hinput
    exact ⟨source, mem_inputValues_of_type htype hsource, rfl⟩

theorem IsRetellable.isPrintable [Runtime] (hretellable : schema.IsRetellable) :
    IsPrintable schema.retold where
  description := hretellable.loaded.sound.description
  types := by
    rw [hretellable.loaded.sound.ownTypes_retold, List.forall_mem_map]
    exact fun type htype => (hretellable.loaded.sound.types type htype).retold
  directives := by
    intro d hd
    obtain ⟨source, hsource, rfl⟩ := exists_of_mem_ownDirectives hd
    exact (hretellable.loaded.sound.directives source hsource).retold
  names := by
    constructor
    · have hnames : schema.retold.directives.map (·.name) = schema.directives.map (·.name) := by
        rw [retold, List.map_map]
        rfl
      exact (hnames ▸ hretellable.loaded.nodup_directives).sublist ((List.filter_sublist).map _)
    · have hname : ((·.name) ∘ (·.retold schema) : NamedType → String) = (·.name) :=
        funext fun type => type.name_retold
      rw [hretellable.loaded.sound.ownTypes_retold, List.map_map, hname]
      exact hretellable.loaded.sound.nodup
  references := by
    rw [hretellable.loaded.sound.ownTypes_retold, List.forall_mem_map]
    intro type htype name hname
    rw [references_retold] at hname
    exact hretellable.loaded.sound.isSome_type?_retold
      (isSome_type?_of_references (hretellable.loaded.sound.hasFittingReferences htype) hname)
  arguments := by
    intro d hd
    obtain ⟨source, hsource, rfl⟩ := exists_of_mem_ownDirectives hd
    rw [Directive.retold, List.forall_mem_map]
    intro input hinput
    have hkind := hretellable.loaded.sound.isInput_of_argument hsource hinput
    exact hretellable.loaded.sound.isSome_type?_retold (isSome_type?_of_isKind hkind)
  query := hretellable.loaded.query
  roots := fun name hname => hretellable.loaded.sound.isSome_type?_retold
    (isSome_type?_of_isKind (hretellable.loaded.sound.roots name hname))
  defaults := by
    intro input hinput w hw
    obtain ⟨source, hsource, rfl⟩ := hretellable.loaded.sound.exists_of_mem_ownInputs hinput
    have hwritten := (hretellable.defaultOf_retold hsource).2
    rw [hw] at hwritten
    generalize (source.retold schema).default = value at hwritten
    cases hwritten with
    | some hwritten => exact hwritten.isRereadable

theorem IsRetellable.definitions_retold [Runtime] (hretellable : schema.IsRetellable) :
    definitions schema.retold = .ok (printedDefinitions schema.retold) := by
  have hprintable := hretellable.isPrintable
  have hdefaults : ∀ input ∈ ownInputs schema.retold,
      HasDefault schema.retold (settledOf schema.retold) input := by
    intro input hinput
    obtain ⟨source, hsource, rfl⟩ := hretellable.loaded.sound.exists_of_mem_ownInputs hinput
    exact (hretellable.defaultOf_retold hsource).1
  have hparts : HasSoundParts schema.retold :=
    ⟨fun d hd => (hprintable.directives d hd).arguments, fun type htype =>
      (hprintable.types type htype).shape⟩
  rw [definitions_eq_ok_iff hparts]
  exact ⟨⟨fun d hd input hinput => hdefaults input (mem_ownInputs_of_directive hd hinput),
    fun type htype input hinput => hdefaults input (mem_ownInputs_of_type htype hinput)⟩, rfl⟩

/-! ## Uses of types -/

theorem TakesAlike.isKind_eq (halike : one.TakesAlike other) (test : Sdl.TypeBody.Kind → Bool)
    (name : String) : other.isKind test name = one.isKind test name := by
  rcases halike.type?_cases name with ⟨hone, hother⟩ | ⟨first, second, hone, hother, hboth⟩
  · rw [isKind, isKind, hone, hother]
  · rw [isKind, isKind, hone, hother]
    exact congrArg test hboth.kind.symm

theorem TakesAlike.hasInputArguments_eq (halike : one.TakesAlike other)
    {inputs others : List InputValue}
    (hbases : others.map (·.type.base) = inputs.map (·.type.base)) :
    other.hasInputArguments others = one.hasInputArguments inputs := by
  have hall : ∀ (schema : Schema) (arguments : List InputValue),
      schema.hasInputArguments arguments = (arguments.map (·.type.base)).all schema.isInput := by
    intro schema arguments
    rw [List.all_map]
    rfl
  rw [hall, hall, hbases]
  exact congrArg _ (funext (halike.isKind_eq _))

theorem IsSound.hasFittingReferences_detoured [Runtime] (hsound : schema.IsSound) {type : NamedType}
    (htype : type ∈ schema.types) :
    schema.retold.reprinted.hasFittingReferences (type.detoured schema) = true := by
  have halike := hsound.takesAlike_reprinted
  have hfits := hsound.hasFittingReferences htype
  have hown := (hsound.types type htype).own
  have hfields : ∀ (interfaces : List String) (fields : List Field),
      schema.retold.reprinted.hasFittingFields interfaces
        ((fields.map (·.retold schema)).map (·.reprinted schema.retold)) =
          schema.hasFittingFields interfaces fields := by
    intro interfaces fields
    rw [hasFittingFields, hasFittingFields, funext (halike.isKind_eq (· = .interface)),
      List.map_map, List.all_map]
    congr 2
    funext field
    exact congrArg₂ and (halike.isKind_eq _ field.type.base)
      (halike.hasInputArguments_eq (bases_reprinted field.arguments))
  obtain ⟨name, description, directives, shape⟩ := type
  rw [NamedType.detoured, NamedType.reprinted, NamedType.retold, if_neg hown]
  cases shape with
  | object interfaces fields => exact (hfields interfaces fields).trans hfits
  | interface interfaces fields => exact (hfields interfaces fields).trans hfits
  | union members =>
      change members.all (schema.retold.reprinted.isKind (· = .object)) = true
      rw [funext (halike.isKind_eq (· = .object))]
      exact hfits
  | input fields isOneOf =>
      have hbases : (((fields.map (·.retold schema)).map (·.reprinted schema.retold)).map
          (·.type.base)) = fields.map (·.type.base) := by
        rw [List.map_map, List.map_map]
        rfl
      exact (halike.hasInputArguments_eq hbases).trans hfits
  | _ => rfl

theorem IsRetellable.isWellKinded_reprinted [Runtime] (hretellable : schema.IsRetellable)
    {own : List Directive} (hown : schema.HasOwnDirectives own) :
    schema.retold.reprinted.isWellKinded = true := by
  have hsound := hretellable.loaded.sound
  have halike := hsound.takesAlike_reprinted
  have hinputs : ∀ d ∈ schema.directives, schema.hasInputArguments d.arguments = true :=
    fun d hd => List.all_eq_true.2 fun _ hinput => hsound.isInput_of_argument hd hinput
  rw [isWellKinded, hsound.types_reprinted, List.all_map, Bool.and_eq_true, List.all_eq_true,
    List.all_eq_true]
  refine ⟨fun type htype => hsound.hasFittingReferences_detoured htype, ?_⟩
  rw [hown.directives] at hinputs
  rw [reprinted, hown.unmarkedDirectives_retold, List.map_map]
  intro d hd
  rcases List.mem_append.1 hd with hd | hbuiltIn
  · rcases List.mem_append.1 hd with hmark | hmade
    · exact (halike.hasInputArguments_eq rfl).trans
        (hinputs d (List.mem_append_left _ (List.mem_append_left _ hmark)))
    · obtain ⟨source, hsource, rfl⟩ := List.mem_map.1 hmade
      exact (halike.hasInputArguments_eq (bases_reprinted source.arguments)).trans
        (hinputs source (List.mem_append_left _ (List.mem_append_right _ hsource)))
  · exact (halike.hasInputArguments_eq rfl).trans (hinputs d (List.mem_append_right _ hbuiltIn))

/-- The document of a schema that was told is one of a schema. -/
theorem IsRetellable.isOf_reprinted [Runtime] (hretellable : schema.IsRetellable)
    {own : List Directive} (hown : schema.HasOwnDirectives own) :
    schema.retold.reprinted.IsOf (mergedDocument schema.retold) :=
  Schema.isOf_reprinted hretellable.isPrintable.isValid_mergedDocument
    (hretellable.isWellKinded_reprinted hown) (hretellable.settles_reprinted hown)

end Schema

end ConfigSchema
