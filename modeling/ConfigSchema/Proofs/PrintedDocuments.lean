import ConfigSchema.Proofs.RepeatedDefinitions
import ConfigSchema.Proofs.ReprintedSchemas

/-!
# Printed documents are valid

The document of a schema applies no directives but the built-in ones that tell of deprecations, of
specifications and of input objects that take one field.  So it is valid, behind the marks, too,
and its text can be read back, if the names of the schema are unique, all that it refers to is
there, and its defaults can be read back.
-/

namespace ConfigSchema

namespace Introspection

namespace Document

open Schema

variable {schema : Schema}

/-! ## Schemas that can be printed -/

/-- A default whose text can be read back, and whose objects give no field twice. -/
structure IsRereadable [Runtime] (w : Sdl.Value) : Prop where
  depth_le : w.depth ≤ Runtime.parsingDepth
  nodup_fieldNames : ∀ names ∈ w.fieldNames, names.Nodup
  hasReadableTexts : hasReadableTexts w = true

/-- The values that are printed. -/
def ownInputs (schema : Schema) : List InputValue :=
  (ownDirectives schema).flatMap (·.arguments) ++
    (ownTypes schema).flatMap (·.shape.inputValues)

structure IsPrintable [Runtime] (schema : Schema) : Prop where
  description : IsPlainText schema.description
  types : ∀ type ∈ ownTypes schema, type.IsSound
  directives : ∀ d ∈ ownDirectives schema, d.IsSound
  names : HasDistinctNames schema
  references : ∀ type ∈ ownTypes schema, ∀ name ∈ type.references,
    (schema.type? name).isSome = true
  arguments : ∀ d ∈ ownDirectives schema, ∀ input ∈ d.arguments,
    (schema.type? input.type.base).isSome = true
  query : schema.roots.query.isSome = true
  roots : ∀ name ∈ schema.roots.names, (schema.type? name).isSome = true
  defaults : ∀ input ∈ ownInputs schema,
    ∀ w ∈ printedDefault schema (settledOf schema) input, IsRereadable w

theorem mem_ownInputs_of_directive {d : Schema.Directive} (hd : d ∈ ownDirectives schema)
    {input : InputValue} (hinput : input ∈ d.arguments) : input ∈ ownInputs schema :=
  List.mem_append_left _ (List.mem_flatMap.2 ⟨d, hd, hinput⟩)

theorem mem_ownInputs_of_type {type : NamedType} (htype : type ∈ ownTypes schema)
    {input : InputValue} (hinput : input ∈ type.shape.inputValues) : input ∈ ownInputs schema :=
  List.mem_append_right _ (List.mem_flatMap.2 ⟨type, htype, hinput⟩)

theorem forall_mem_describedInputs {P : InputValue → Prop} {inputs : List InputValue}
    (hinputs : ∀ input ∈ inputs, P input ∧ P { input with description := none }) :
    ∀ input ∈ describedInputs inputs, P input := by
  rw [describedInputs]
  split_ifs
  · exact fun input hinput => (hinputs input hinput).1
  · rw [List.forall_mem_map]
    exact fun input hinput => (hinputs input hinput).2

theorem names_printedArguments (schema : Schema) (settled : Settled) (inputs : List InputValue) :
    (printedArguments schema settled inputs).map (·.name) = inputs.map (·.name) := by
  rw [printedArguments, describedInputs, List.map_map]
  split_ifs
  · rfl
  · rw [List.map_map]
    rfl

/-- What holds of values that are printed, with their descriptions or without them. -/
theorem forall_mem_printedArguments {P : Sdl.InputValue → Prop} {settled : Settled}
    {inputs : List InputValue} (hinputs : ∀ input ∈ inputs,
      P (printedInput schema settled input) ∧
        P (printedInput schema settled { input with description := none })) :
    ∀ input ∈ printedArguments schema settled inputs, P input := by
  rw [printedArguments, List.forall_mem_map]
  exact forall_mem_describedInputs hinputs

/-! ## Texts that can be read back -/

theorem isReadableText_descriptionOf [Runtime] {text : Option String} (hplain : IsPlainText text) :
    isReadableText (descriptionOf text) = true := by
  cases text with
  | none => rfl
  | some text =>
      change (!Text.hasSurrogate text) = true
      rw [hplain text rfl]
      rfl

theorem isReadableValue_textValue [Runtime] {text : String}
    (hplain : Text.hasSurrogate text = false) :
    isReadableValue (textValue text) = true := by
  change (decide (0 ≤ Runtime.parsingDepth) && !Text.hasSurrogate text) = true
  rw [hplain]
  rfl

theorem areReadableDirectives_deprecationOf [Runtime] {reason : Option String}
    (hplain : IsPlainText reason) : areReadableDirectives (deprecationOf reason) = true := by
  cases reason with
  | none => rfl
  | some reason =>
      rw [deprecationOf]
      split_ifs
      · rfl
      · simp [areReadableDirectives, isReadableValue_textValue (hplain reason rfl)]

theorem areReadableDirectives_directivesOf [Runtime] {shape : Shape} (hsound : shape.IsSound) :
    areReadableDirectives (directivesOf shape) = true := by
  cases shape with
  | scalar url =>
      cases url with
      | none => rfl
      | some url =>
          have hplain : Text.hasSurrogate url = false := hsound url rfl
          simp [directivesOf, areReadableDirectives, isReadableValue_textValue hplain]
  | input fields isOneOf => cases isOneOf <;> rfl
  | _ => rfl

theorem IsRereadable.isReadableValue [Runtime] {w : Sdl.Value} (hw : IsRereadable w) :
    isReadableValue w = true := by
  rw [Document.isReadableValue, decide_eq_true hw.depth_le, hw.hasReadableTexts]
  rfl

theorem isReadableInput_printedInput [Runtime] {settled : Settled} {input : InputValue}
    (hsound : input.IsSound)
    (hdefault : ∀ w ∈ printedDefault schema settled input, IsRereadable w) :
    isReadableInput (printedInput schema settled input) = true := by
  rw [isReadableInput, Bool.and_eq_true, Bool.and_eq_true, Bool.and_eq_true]
  refine ⟨⟨⟨isReadableText_descriptionOf hsound.description,
    decide_eq_true hsound.type.listDepth_le⟩, ?_⟩,
    areReadableDirectives_deprecationOf hsound.deprecation⟩
  rw [Option.all_eq_true]
  exact fun w hw => (hdefault w hw).isReadableValue

theorem all_isReadableInput_printedArguments [Runtime] {settled : Settled}
    {inputs : List InputValue} (hsound : ∀ input ∈ inputs, input.IsSound)
    (hdefaults : ∀ input ∈ inputs, ∀ w ∈ printedDefault schema settled input, IsRereadable w) :
    (printedArguments schema settled inputs).all isReadableInput = true := by
  rw [List.all_eq_true]
  refine forall_mem_printedArguments fun input hinput => ?_
  have hbare : InputValue.IsSound { input with description := none } :=
    { hsound input hinput with description := isPlainText_none }
  exact ⟨isReadableInput_printedInput (hsound input hinput) (hdefaults input hinput),
    isReadableInput_printedInput hbare (hdefaults input hinput)⟩

theorem isReadableField_printedField [Runtime] {settled : Settled} {f : Schema.Field}
    (hsound : f.IsSound)
    (hdefaults : ∀ input ∈ f.arguments, ∀ w ∈ printedDefault schema settled input,
      IsRereadable w) : isReadableField (printedField schema settled f) = true := by
  rw [isReadableField, Bool.and_eq_true, Bool.and_eq_true, Bool.and_eq_true]
  exact ⟨⟨⟨isReadableText_descriptionOf hsound.description,
    decide_eq_true hsound.type.listDepth_le⟩,
    all_isReadableInput_printedArguments hsound.arguments.sound hdefaults⟩,
    areReadableDirectives_deprecationOf hsound.deprecation⟩

theorem isReadableBody_printedBody [Runtime] {settled : Settled} {shape : Shape}
    (hsound : shape.IsSound)
    (hdefaults : ∀ input ∈ shape.inputValues, ∀ w ∈ printedDefault schema settled input,
      IsRereadable w) : isReadableBody (printedBody schema settled shape) = true := by
  have hfields : ∀ {fields : List Schema.Field}, AreSoundFields fields →
      (∀ input ∈ fields.flatMap (·.arguments), ∀ w ∈ printedDefault schema settled input,
        IsRereadable w) →
          (fields.map (printedField schema settled)).all isReadableField = true := by
    intro fields hfields hinputs
    rw [List.all_map, List.all_eq_true]
    exact fun f hf => isReadableField_printedField (hfields.sound f hf) fun input hinput =>
      hinputs input (List.mem_flatMap.2 ⟨f, hf, hinput⟩)
  cases shape with
  | object interfaces fields => exact hfields hsound hdefaults
  | interface interfaces fields => exact hfields hsound hdefaults
  | enum values =>
      rw [printedBody, isReadableBody, List.all_map, List.all_eq_true]
      intro value hvalue
      have hvalues := AreSoundValues.sound hsound value hvalue
      exact Bool.and_eq_true_iff.2 ⟨isReadableText_descriptionOf hvalues.description,
        areReadableDirectives_deprecationOf hvalues.deprecation⟩
  | input fields isOneOf =>
      rw [printedBody, isReadableBody, List.all_map, List.all_eq_true]
      exact fun input hinput => isReadableInput_printedInput
        (AreSoundInputs.sound hsound input hinput) (hdefaults input hinput)
  | _ => rfl

theorem IsPrintable.isReadable [Runtime] (hprintable : IsPrintable schema) :
    ∀ definition ∈ printedDefinitions schema, isReadable definition = true := by
  have hdefaults := hprintable.defaults
  intro definition hdefinition
  rcases List.mem_append.1 hdefinition with hdefinition | htypes
  · rcases List.mem_append.1 hdefinition with hschema | hdirectives
    · rcases schemaDefinition_cases schema with hnone | hsome
      · rw [hnone] at hschema
        contradiction
      · rw [hsome, List.mem_singleton] at hschema
        subst hschema
        obtain ⟨query, hquery⟩ := Option.isSome_iff_exists.1 hprintable.query
        rw [Document.isReadable, isReadableText_descriptionOf hprintable.description, operations,
          hquery]
        rfl
    · obtain ⟨d, hd, rfl⟩ := List.mem_map.1 hdirectives
      have hsound := hprintable.directives d hd
      rw [Document.isReadable, Bool.and_eq_true, Bool.and_eq_true]
      refine ⟨⟨isReadableText_descriptionOf hsound.description,
        all_isReadableInput_printedArguments hsound.arguments.sound fun input hinput =>
          hdefaults input (mem_ownInputs_of_directive hd hinput)⟩, ?_⟩
      have hlocations := hsound.locations
      cases hall : d.locations with
      | nil => exact absurd hall hlocations
      | cons _ _ =>
          rw [printedDirective, hall]
          rfl
  · obtain ⟨type, htype, rfl⟩ := List.mem_map.1 htypes
    have hsound := hprintable.types type htype
    rw [printedType, Document.isReadable, Bool.and_eq_true, Bool.and_eq_true]
    exact ⟨⟨isReadableText_descriptionOf hsound.description,
      isReadableBody_printedBody hsound.shape fun input hinput =>
        hdefaults input (mem_ownInputs_of_type htype hinput)⟩,
      areReadableDirectives_directivesOf hsound.shape⟩

/-- What a name stands for is built in or printed. -/
theorem known_of_type? {name : String} (htype : (schema.type? name).isSome = true) :
    name ∈ Sdl.BuiltIn.typeNames ∨ name ∈ (ownTypes schema).map (·.name) := by
  obtain ⟨type, htype⟩ := Option.isSome_iff_exists.1 htype
  rcases type?_cases htype with ⟨-, hbuilt⟩ | ⟨hname, hown, rfl⟩
  · exact .inl hbuilt
  · exact .inr (List.mem_map.2 ⟨type, List.mem_filter.2 ⟨hown, by simpa using hname⟩, rfl⟩)

theorem IsPrintable.printedDefinitions_ne_nil [Runtime] (hprintable : IsPrintable schema) :
    printedDefinitions schema ≠ [] := by
  intro hnil
  rw [printedDefinitions, List.append_eq_nil_iff, List.append_eq_nil_iff] at hnil
  obtain ⟨⟨hschema, -⟩, htypes⟩ := hnil
  obtain ⟨query, hquery⟩ := Option.isSome_iff_exists.1 hprintable.query
  have husual : query = "Query" := by
    unfold schemaDefinition at hschema
    split_ifs at hschema with hdefault
    simp only [hasUsualRoots, hquery, Bool.and_eq_true] at hdefault
    simpa using hdefault.2.1.1
  have hknown := hprintable.roots query
    (List.mem_append_left _ (List.mem_append_left _
      (by rw [hquery]; exact List.mem_singleton_self _)))
  rcases known_of_type? hknown with hbuilt | hown
  · subst husual
    exact absurd hbuilt (by decide)
  · rw [List.map_eq_nil_iff.1 htypes] at hown
    contradiction

/-- The document of a schema that can be printed is there. -/
theorem IsPrintable.ofDefinitions? [Runtime] (hprintable : IsPrintable schema) :
    ofDefinitions? schema (printedDefinitions schema) = some (printedDefinitions schema) := by
  have hempty : (printedDefinitions schema).isEmpty = false :=
    List.isEmpty_eq_false_iff.2 hprintable.printedDefinitions_ne_nil
  have hdeprecated : (ownDirectives schema).any (·.deprecation.isSome) = false := by
    rw [List.any_eq_false]
    intro d hd
    rw [(hprintable.directives d hd).deprecation]
    exact Bool.false_ne_true
  rw [Document.ofDefinitions?, hempty, hdeprecated, List.all_eq_true.2 hprintable.isReadable]
  rfl

/-! ## Places -/

/-- A built-in directive that may be applied in some place, once, with the arguments that are given
to it. -/
structure IsApplicable (location : Sdl.Location) (applied : Sdl.Directive)
    (d : Sdl.DirectiveDefinition) : Prop where
  mem : d ∈ Sdl.BuiltIn.directives
  name : d.name = applied.name
  location : d.locations.contains location = true
  known : (applied.arguments.all fun (name, _) => d.arguments.any (·.name = name)) = true
  required : (d.arguments.all fun argument =>
    !argument.type.isRequired || argument.default.isSome ||
      applied.arguments.any (·.1 = argument.name)) = true
  unique : (applied.arguments.map (·.1)).Nodup
  plain : ∀ v ∈ applied.arguments.map (·.2), v.fieldNames = []

/-- A place where nothing is applied, or one built-in directive. -/
def IsToldPlace (place : Sdl.Place) : Prop :=
  place.directives = [] ∨
    ∃ applied d, place.directives = [applied] ∧ IsApplicable place.location applied d

theorem isToldPlace_nil (owner : Option Sdl.Owner) (location : Sdl.Location) :
    IsToldPlace { owner, location, directives := [] } :=
  .inl rfl

theorem isToldPlace_deprecationOf {location : Sdl.Location}
    (hlocation : Sdl.BuiltIn.deprecatedDirective.locations.contains location = true)
    (reason : Option String) :
    IsToldPlace { location, directives := deprecationOf reason } := by
  cases reason with
  | none => exact .inl rfl
  | some reason =>
      right
      rw [deprecationOf]
      split_ifs
      · exact ⟨_, Sdl.BuiltIn.deprecatedDirective, rfl,
          ⟨by simp [Sdl.BuiltIn.directives], rfl, hlocation, rfl, rfl, List.nodup_nil, by simp⟩⟩
      · exact ⟨_, Sdl.BuiltIn.deprecatedDirective, rfl,
          ⟨by simp [Sdl.BuiltIn.directives], rfl, hlocation, rfl, rfl, List.nodup_singleton _,
            by simp [textValue, Sdl.Value.fieldNames]⟩⟩

theorem isToldPlace_directivesOf (owner : Option Sdl.Owner) (shape : Shape) :
    IsToldPlace { owner, location := shape.kind.location, directives := directivesOf shape } := by
  cases shape with
  | scalar url =>
      cases url with
      | none => exact .inl rfl
      | some url =>
          exact .inr ⟨_, Sdl.BuiltIn.specifiedByDirective, rfl,
            ⟨by simp [Sdl.BuiltIn.directives], rfl, rfl, rfl, rfl, List.nodup_singleton _,
              by simp [textValue, Sdl.Value.fieldNames]⟩⟩
  | input fields isOneOf =>
      cases isOneOf with
      | false => exact .inl rfl
      | true =>
          exact .inr ⟨_, Sdl.BuiltIn.oneOfDirective, rfl,
            ⟨by simp [Sdl.BuiltIn.directives], rfl, rfl, rfl, rfl, List.nodup_nil, by simp⟩⟩
  | _ => exact .inl rfl

section

variable {settled : Settled}

theorem isToldPlace_printedArguments {inputs : List InputValue} :
    ∀ input ∈ printedArguments schema settled inputs,
      IsToldPlace (input.place .argumentDefinition) :=
  forall_mem_printedArguments fun input _ =>
    ⟨isToldPlace_deprecationOf rfl input.deprecation,
      isToldPlace_deprecationOf rfl input.deprecation⟩

theorem isToldPlace_printedField (f : Schema.Field) :
    ∀ place ∈ (printedField schema settled f).places, IsToldPlace place := by
  rw [Sdl.FieldDefinition.places, List.forall_mem_cons]
  exact ⟨isToldPlace_deprecationOf rfl f.deprecation,
    List.forall_mem_map.2 isToldPlace_printedArguments⟩

theorem kind_printedBody (shape : Shape) :
    (printedBody schema settled shape).kind = shape.kind := by
  cases shape <;> rfl

theorem isToldPlace_printedBody (shape : Shape) :
    ∀ place ∈ (printedBody schema settled shape).places false, IsToldPlace place := by
  have hfields : ∀ {fields : List Schema.Field}, ∀ place ∈
      (fields.map (printedField schema settled)).flatMap Sdl.FieldDefinition.places,
        IsToldPlace place := by
    intro fields place hplace
    rw [List.flatMap_map] at hplace
    obtain ⟨f, -, hmem⟩ := List.mem_flatMap.1 hplace
    exact isToldPlace_printedField f place hmem
  cases shape with
  | object interfaces fields => exact hfields
  | interface interfaces fields => exact hfields
  | enum values =>
      rw [printedBody, Sdl.TypeBody.places, List.map_map, List.forall_mem_map]
      exact fun value _ => isToldPlace_deprecationOf rfl value.deprecation
  | input fields isOneOf =>
      rw [printedBody, Sdl.TypeBody.places, List.map_map, List.forall_mem_map]
      exact fun input _ => isToldPlace_deprecationOf rfl input.deprecation
  | _ => exact fun _ hplace => (List.not_mem_nil hplace).elim

theorem isToldPlace_printedType (type : NamedType) :
    ∀ place ∈ (printedType schema settled type).places, IsToldPlace place := by
  rw [printedType, Sdl.Definition.places, Sdl.TypeNode.places, List.forall_mem_cons]
  refine ⟨?_, isToldPlace_printedBody type.shape⟩
  change IsToldPlace ⟨_, (printedBody schema settled type.shape).kind.location, _⟩
  rw [kind_printedBody]
  exact isToldPlace_directivesOf _ type.shape

end

/-! ## Documents behind the marks -/

theorem forall_mem_mergedDocument [Runtime] {P : Sdl.Definition → Prop}
    (hmarks : ∀ definition ∈ Sources.marks, P definition)
    (hschema : P (.schema (descriptionOf schema.description) [] (operations schema.roots)))
    (hdirectives : ∀ d ∈ unmarkedDirectives schema,
      P (.directive (printedDirective schema (settledOf schema) d)))
    (htypes : ∀ type ∈ ownTypes schema, P (printedType schema (settledOf schema) type)) :
    ∀ definition ∈ mergedDocument schema, P definition := by
  intro definition hdefinition
  rcases List.mem_append.1 hdefinition with hmark | hdefinition
  · exact hmarks definition hmark
  rcases List.mem_append.1 hdefinition with hdefinition | htype
  · rcases List.mem_append.1 hdefinition with hone | hdirective
    · rcases schemaDefinition_cases schema with hnone | hsome
      · rw [hnone] at hone
        contradiction
      · rw [hsome, List.mem_singleton] at hone
        exact hone ▸ hschema
    · obtain ⟨d, hd, rfl⟩ := List.mem_map.1 hdirective
      exact hdirectives d hd
  · obtain ⟨type, hmem, rfl⟩ := List.mem_map.1 htype
    exact htypes type hmem

theorem isToldPlace_of_mem_places [Runtime] :
    ∀ definition ∈ mergedDocument schema, ∀ place ∈ definition.places, IsToldPlace place := by
  apply forall_mem_mergedDocument
  · simp [Sources.marks, Sdl.Definition.places]
  · intro place hplace
    obtain rfl := List.mem_singleton.1 hplace
    exact isToldPlace_nil _ _
  · intro d _
    exact List.forall_mem_map.2 isToldPlace_printedArguments
  · exact fun type _ => isToldPlace_printedType type

/-- A built-in directive stands for itself in the document. -/
theorem directive?_mergedDocument [Runtime] {d : Sdl.DirectiveDefinition}
    (hd : d ∈ Sdl.BuiltIn.directives) : (mergedDocument schema).directive? d.name = some d := by
  have hnone : (mergedDocument schema).directiveDefinitions.find? (·.name = d.name) = none := by
    rw [List.find?_eq_none]
    intro other hother hname
    exact notMem_directiveNames_of_mergedDocument hother
      (of_decide_eq_true hname ▸ List.mem_map_of_mem hd)
  have hfind : ∀ d ∈ Sdl.BuiltIn.directives,
      Sdl.BuiltIn.directives.find? (·.name = d.name) = some d := by
    simp only [Sdl.BuiltIn.directives, List.forall_mem_cons]
    exact ⟨rfl, rfl, rfl, rfl, rfl, by simp⟩
  rw [Sdl.Document.directive?, hnone, Option.none_or]
  exact hfind d hd

theorem exists_isApplicable [Runtime] {place : Sdl.Place}
    (hplace : place ∈ (mergedDocument schema).places)
    {applied : Sdl.Directive} (happlied : applied ∈ place.directives) :
    ∃ d, (mergedDocument schema).directive? applied.name = some d ∧
      IsApplicable place.location applied d := by
  obtain ⟨definition, hdefinition, hmem⟩ := List.mem_flatMap.1 hplace
  rcases isToldPlace_of_mem_places definition hdefinition place hmem with
    hnone | ⟨told, d, hsome, hd⟩
  · rw [hnone] at happlied
    contradiction
  · rw [hsome, List.mem_singleton] at happlied
    subst happlied
    exact ⟨d, hd.name ▸ directive?_mergedDocument hd.mem, hd⟩

theorem all_applications_mergedDocument [Runtime]
    {test : Sdl.DirectiveDefinition → Sdl.Directive → Bool}
    (htest : ∀ {location applied d}, IsApplicable location applied d → test d applied = true) :
    (mergedDocument schema).applications.all (fun applied =>
      match (mergedDocument schema).directive? applied.name with
      | some d => test d applied
      | none => true) = true := by
  rw [List.all_eq_true]
  intro applied happlication
  obtain ⟨place, hplace, hmem⟩ := List.mem_flatMap.1 happlication
  obtain ⟨d, hfound, hd⟩ := exists_isApplicable hplace hmem
  rw [hfound]
  exact htest hd

/-! ## The rules -/

theorem hasUniqueTypes_mergedDocument [Runtime] (hprintable : IsPrintable schema) :
    (mergedDocument schema).hasUniqueTypes = true := by
  rw [Sdl.Document.hasUniqueTypes, definedTypes_mergedDocument]
  exact decide_eq_true hprintable.names.types

theorem hasUniqueDirectives_mergedDocument [Runtime] (hprintable : IsPrintable schema) :
    (mergedDocument schema).hasUniqueDirectives = true := by
  have hown : ((unmarkedDirectives schema).map (·.name)).Nodup :=
    hprintable.names.directives.sublist ((List.filter_sublist).map _)
  rw [Sdl.Document.hasUniqueDirectives, directiveDefinitions_mergedDocument, List.map_append,
    List.map_map]
  refine decide_eq_true (List.nodup_append'.2 ⟨by decide, hown, ?_⟩)
  intro name hmark hname
  obtain ⟨d, hd, rfl⟩ := List.mem_map.1 hname
  have hunmarked := (List.mem_filter.1 hd).2
  simp only [decide_eq_true_eq] at hunmarked
  exact hunmarked hmark

theorem mem_ownDirectives {d : Schema.Directive} (hd : d ∈ unmarkedDirectives schema) :
    d ∈ ownDirectives schema :=
  List.mem_of_mem_filter hd

theorem nodup_printedArguments [Runtime] {settled : Settled} {inputs : List InputValue}
    (hsound : AreSoundInputs inputs) :
    Sdl.Document.areUnique ((printedArguments schema settled inputs).map (·.name)) = true := by
  rw [names_printedArguments]
  exact decide_eq_true hsound.nodup

theorem typeNodes_mergedDocument [Runtime] (schema : Schema) :
    (mergedDocument schema).typeNodes =
      (ownTypes schema).map (printedNode schema (settledOf schema)) := by
  have hnone : (unmarkedDirectives schema).filterMap (fun _ => (none : Option Sdl.TypeNode)) = [] :=
    List.filterMap_eq_nil_iff.2 fun _ _ => rfl
  rw [Sdl.Document.typeNodes, filterMap_mergedDocument fun _ _ _ => rfl]
  change [] ++ ((unmarkedDirectives schema).filterMap (fun _ => none) ++ _) = _
  rw [hnone]
  exact congrFun List.filterMap_eq_map (ownTypes schema)

theorem hasUniqueArgumentDefinitions_mergedDocument [Runtime] (hprintable : IsPrintable schema) :
    (mergedDocument schema).hasUniqueArgumentDefinitions = true := by
  have hfields : ∀ {fields : List Schema.Field}, AreSoundFields fields →
      ((fields.map (printedField schema (settledOf schema))).all fun f =>
        Sdl.Document.areUnique (f.arguments.map (·.name))) = true := by
    intro fields hfields
    rw [List.all_map, List.all_eq_true]
    exact fun f hf => nodup_printedArguments (hfields.sound f hf).arguments
  rw [Sdl.Document.hasUniqueArgumentDefinitions, directiveDefinitions_mergedDocument,
    typeNodes_mergedDocument, List.all_append, List.all_map, List.all_map, Bool.and_eq_true,
    Bool.and_eq_true, List.all_eq_true, List.all_eq_true, List.all_eq_true]
  refine ⟨⟨by decide, fun d hd => nodup_printedArguments
    (hprintable.directives d (mem_ownDirectives hd)).arguments⟩, ?_⟩
  intro type htype
  have hsound := (hprintable.types type htype).shape
  obtain ⟨name, description, directives, shape⟩ := type
  cases shape with
  | object interfaces fields => exact hfields hsound
  | interface interfaces fields => exact hfields hsound
  | _ => rfl

theorem bases_printedArguments (schema : Schema) (settled : Settled) (inputs : List InputValue) :
    (printedArguments schema settled inputs).map (·.type.base) = inputs.map (·.type.base) := by
  rw [printedArguments, describedInputs, List.map_map]
  split_ifs
  · rfl
  · rw [List.map_map]
    rfl

theorem typeNames_printedNode (settled : Settled) (type : NamedType) :
    (printedNode schema settled type).body.typeNames = type.references := by
  have hfields : ∀ fields : List Schema.Field,
      (fields.map (printedField schema settled)).flatMap Sdl.FieldDefinition.typeNames =
        fields.flatMap Schema.Field.references := by
    intro fields
    rw [List.flatMap_map]
    exact List.flatMap_congr fun f _ =>
      congrArg (f.type.base :: ·) (bases_printedArguments schema settled f.arguments)
  obtain ⟨name, description, directives, shape⟩ := type
  cases shape with
  | object interfaces fields => exact congrArg (interfaces ++ ·) (hfields fields)
  | interface interfaces fields => exact congrArg (interfaces ++ ·) (hfields fields)
  | input fields isOneOf =>
      change ((fields.map (printedInput schema settled)).map (·.type.base)) = _
      rw [List.map_map]
      rfl
  | _ => rfl

theorem names_operations (roots : Roots) : (operations roots).map (·.2) = roots.names := by
  obtain ⟨query, mutation, subscription⟩ := roots
  cases query <;> cases mutation <;> cases subscription <;> rfl

theorem hasKnownTypes_mergedDocument [Runtime] (hprintable : IsPrintable schema) :
    (mergedDocument schema).hasKnownTypes = true := by
  have hknown : ∀ {name : String}, (schema.type? name).isSome = true →
      ((mergedDocument schema).definedTypes.contains name ||
        (true && Sdl.BuiltIn.typeNames.contains name)) = true := by
    intro name hname
    rw [definedTypes_mergedDocument]
    rcases known_of_type? hname with hbuilt | hown
    · rw [List.contains_iff_mem.2 hbuilt, Bool.true_and, Bool.or_true]
    · rw [List.contains_iff_mem.2 hown, Bool.true_or]
  rw [Sdl.Document.hasKnownTypes, List.all_eq_true]
  apply forall_mem_mergedDocument
  · simp [Sources.marks, Sdl.Definition.typeNames]
  · rw [Sdl.Definition.typeNames, names_operations, List.all_eq_true]
    exact fun name hname => hknown (hprintable.roots name hname)
  · intro d hd
    rw [Sdl.Definition.typeNames, printedDirective, bases_printedArguments, List.all_map,
      List.all_eq_true]
    exact fun input hinput => hknown (hprintable.arguments d (mem_ownDirectives hd) input hinput)
  · intro type htype
    change (((printedNode schema (settledOf schema) type).body.typeNames).all _) = true
    rw [typeNames_printedNode, List.all_eq_true]
    exact fun name hname => hknown (hprintable.references type htype name hname)

theorem hasKnownDirectives_mergedDocument [Runtime] (schema : Schema) :
    (mergedDocument schema).hasKnownDirectives = true := by
  rw [Sdl.Document.hasKnownDirectives, List.all_eq_true]
  intro place hplace
  rw [List.all_eq_true]
  intro applied happlied
  obtain ⟨d, hfound, hd⟩ := exists_isApplicable hplace happlied
  rw [hfound]
  exact hd.location

theorem hasPossibleExtensions_mergedDocument [Runtime] (schema : Schema) :
    (mergedDocument schema).hasPossibleExtensions = true := by
  rw [Sdl.Document.hasPossibleExtensions, List.all_eq_true]
  exact forall_mem_mergedDocument (by simp [Sources.marks]) rfl (fun _ _ => rfl) fun _ _ => rfl

theorem argumentLists_eq [Runtime] : ∀ definition ∈ mergedDocument schema, definition.argumentLists
    =
    definition.places.flatMap fun place => place.directives.map (·.arguments) :=
  forall_mem_mergedDocument (by simp [Sources.marks, Sdl.Definition.argumentLists]) rfl
    (fun _ _ => rfl) fun _ _ => rfl

/-- What is given to directives, in any place of a definition. -/
theorem exists_isApplicable_of_mem_argumentLists [Runtime] {definition : Sdl.Definition}
    (hdefinition : definition ∈ mergedDocument schema) {given : List (String × Sdl.Value)}
    (hgiven : given ∈ definition.argumentLists) :
    ∃ location applied d, given = applied.arguments ∧ IsApplicable location applied d := by
  rw [argumentLists_eq definition hdefinition] at hgiven
  obtain ⟨place, hplace, hmem⟩ := List.mem_flatMap.1 hgiven
  obtain ⟨applied, happlied, rfl⟩ := List.mem_map.1 hmem
  have hall : place ∈ (mergedDocument schema).places :=
    List.mem_flatMap.2 ⟨definition, hdefinition, hplace⟩
  obtain ⟨d, -, hd⟩ := exists_isApplicable hall happlied
  exact ⟨place.location, applied, d, rfl, hd⟩

theorem hasUniqueArguments_mergedDocument [Runtime] (schema : Schema) :
    (mergedDocument schema).hasUniqueArguments = true := by
  rw [Sdl.Document.hasUniqueArguments, List.all_eq_true]
  intro definition hdefinition
  rw [List.all_eq_true]
  intro given hgiven
  obtain ⟨_, applied, d, rfl, hd⟩ := exists_isApplicable_of_mem_argumentLists hdefinition hgiven
  exact decide_eq_true hd.unique

theorem mem_defaults_printedArguments {settled : Settled} {inputs : List InputValue} {w : Sdl.Value}
    (hw : some w ∈ (printedArguments schema settled inputs).map (·.default)) :
    ∃ input ∈ inputs, w ∈ printedDefault schema settled input := by
  rw [printedArguments, describedInputs, List.map_map] at hw
  split_ifs at hw
  · obtain ⟨input, hinput, heq⟩ := List.mem_map.1 hw
    exact ⟨input, hinput, heq⟩
  · rw [List.map_map] at hw
    obtain ⟨input, hinput, heq⟩ := List.mem_map.1 hw
    exact ⟨input, hinput, heq⟩

/-- The defaults of a printed type are printed defaults. -/
theorem mem_defaults_printedBody {settled : Settled} {shape : Shape} {w : Sdl.Value}
    (hw : some w ∈ (printedBody schema settled shape).defaults) :
    ∃ input ∈ shape.inputValues, w ∈ printedDefault schema settled input := by
  have hfields : ∀ {fields : List Schema.Field},
      some w ∈ ((fields.map (printedField schema settled)).flatMap fun field =>
        field.arguments.map (·.default)) →
          ∃ input ∈ fields.flatMap (·.arguments), w ∈ printedDefault schema settled input := by
    intro fields hmem
    rw [List.flatMap_map] at hmem
    obtain ⟨f, hf, hdefault⟩ := List.mem_flatMap.1 hmem
    obtain ⟨input, hinput, hprinted⟩ := mem_defaults_printedArguments hdefault
    exact ⟨input, List.mem_flatMap.2 ⟨f, hf, hinput⟩, hprinted⟩
  cases shape with
  | object interfaces fields => exact hfields hw
  | interface interfaces fields => exact hfields hw
  | input fields isOneOf =>
      rw [printedBody, Sdl.TypeBody.defaults, List.map_map] at hw
      obtain ⟨input, hinput, heq⟩ := List.mem_map.1 hw
      exact ⟨input, hinput, heq⟩
  | _ => exact (List.not_mem_nil hw).elim

theorem hasUniqueObjectFields_mergedDocument [Runtime] (hprintable : IsPrintable schema) :
    (mergedDocument schema).hasUniqueObjectFields = true := by
  have hgiven : ∀ definition ∈ mergedDocument schema, ∀ v ∈ definition.argumentLists.flatMap
      fun arguments => arguments.map (·.2), v.fieldNames = [] := by
    intro definition hdefinition v hv
    obtain ⟨given, hgiven, hmem⟩ := List.mem_flatMap.1 hv
    obtain ⟨_, applied, d, rfl, hd⟩ := exists_isApplicable_of_mem_argumentLists hdefinition hgiven
    exact hd.plain v hmem
  have hall : ∀ definition ∈ mergedDocument schema, definition ∈ mergedDocument schema →
      ∀ v ∈ definition.values, ∀ names ∈ v.fieldNames, names.Nodup := by
    apply forall_mem_mergedDocument
    · intro definition hmark hmem v hv
      have hnone : ∀ definition ∈ Sources.marks, definition.values = [] := by
        simp [Sources.marks, Sdl.Definition.values, Sdl.Definition.argumentLists,
          Sdl.Definition.places]
      rw [hnone definition hmark] at hv
      contradiction
    · intro hmem v hv
      rw [hgiven _ hmem v hv]
      simp
    · intro d hd hmem v hv
      rcases List.mem_append.1 hv with hdefault | harguments
      · obtain ⟨input, hinput, hsome⟩ := List.mem_filterMap.1 hdefault
        obtain ⟨source, hsource, hprinted⟩ :=
          mem_defaults_printedArguments (List.mem_map.2 ⟨input, hinput, hsome⟩)
        have hown := mem_ownInputs_of_directive (mem_ownDirectives hd) hsource
        exact (hprintable.defaults source hown v hprinted).nodup_fieldNames
      · rw [hgiven _ hmem v harguments]
        simp
    · intro type htype hmem v hv
      rcases List.mem_append.1 hv with hdefault | harguments
      · obtain ⟨value, hvalue, rfl⟩ := List.mem_filterMap.1 hdefault
        obtain ⟨source, hsource, hprinted⟩ := mem_defaults_printedBody hvalue
        exact (hprintable.defaults source (mem_ownInputs_of_type htype hsource)
          v hprinted).nodup_fieldNames
      · rw [hgiven _ hmem v harguments]
        simp
  rw [Sdl.Document.hasUniqueObjectFields, List.all_eq_true]
  intro definition hdefinition
  rw [List.all_eq_true]
  intro v hv
  rw [List.all_eq_true]
  intro names hnames
  exact decide_eq_true (hall definition hdefinition hdefinition v hv names hnames)

theorem hasOneSchema_mergedDocument [Runtime] (schema : Schema) :
    (mergedDocument schema).hasOneSchema = true := by
  have hcount : (mergedDocument schema).countP Sdl.Definition.isSchema =
      (schemaDefinition schema).countP Sdl.Definition.isSchema := by
    have hmarks : Sources.marks.countP Sdl.Definition.isSchema = 0 := rfl
    have hdirectives : ((unmarkedDirectives schema).map fun d =>
        Sdl.Definition.directive (printedDirective schema (settledOf schema) d)).countP
          Sdl.Definition.isSchema = 0 :=
      List.countP_eq_zero.2 (List.forall_mem_map.2 fun _ _ => Bool.false_ne_true)
    have htypes : ((ownTypes schema).map (printedType schema (settledOf schema))).countP
        Sdl.Definition.isSchema = 0 :=
      List.countP_eq_zero.2 (List.forall_mem_map.2 fun _ _ => Bool.false_ne_true)
    rw [mergedDocument, List.countP_append, List.countP_append, List.countP_append, hmarks,
      hdirectives, htypes, Nat.zero_add, Nat.add_zero]
  apply decide_eq_true
  change (mergedDocument schema).countP Sdl.Definition.isSchema ≤ 1
  rw [hcount]
  rcases schemaDefinition_cases schema with hnone | hsome
  · rw [hnone]
    exact Nat.zero_le 1
  · rw [hsome]
    exact Nat.le_refl 1

theorem nodup_operations (roots : Roots) : ((operations roots).map (·.1)).Nodup := by
  obtain ⟨query, mutation, subscription⟩ := roots
  cases query <;> cases mutation <;> cases subscription <;> simp [operations]

theorem hasUniqueOperations_mergedDocument [Runtime] (schema : Schema) :
    (mergedDocument schema).hasUniqueOperations = true := by
  rw [Sdl.Document.hasUniqueOperations, operations_mergedDocument]
  split_ifs
  · rfl
  · exact decide_eq_true (nodup_operations schema.roots)

/-- Rows that carry different keys have nothing in common. -/
theorem nodup_flatMap_of_keys {α β κ : Type} {items : List α} {key : α → κ}
    {row : α → List (κ × β)} (hkeys : (items.map key).Nodup)
    (hrows : ∀ a ∈ items, (row a).Nodup ∧ ∀ pair ∈ row a, pair.1 = key a) :
    (items.flatMap row).Nodup := by
  rw [List.nodup_flatMap]
  refine ⟨fun a ha => (hrows a ha).1, ?_⟩
  refine (List.pairwise_map.1 hkeys).imp_of_mem ?_
  intro one other hone hother hne pair hpair hagain
  exact hne (((hrows one hone).2 pair hpair).symm.trans ((hrows other hother).2 pair hagain))

theorem keyed_names {α κ : Type} {items : List α} {name : α → String}
    (hnodup : (items.map name).Nodup) (key : κ) :
    (items.map fun a => (key, name a)).Nodup ∧
      ∀ pair ∈ items.map fun a => (key, name a), pair.1 = key := by
  constructor
  · have hmap : (items.map fun a => (key, name a)) = (items.map name).map (key, ·) := by
      rw [List.map_map]
      rfl
    rw [hmap]
    exact hnodup.map fun _ _ heq => (Prod.mk.inj heq).2
  · rw [List.forall_mem_map]
    exact fun _ _ => rfl

theorem hasUniqueEnumValues_mergedDocument [Runtime] (hprintable : IsPrintable schema) :
    (mergedDocument schema).hasUniqueEnumValues = true := by
  rw [Sdl.Document.hasUniqueEnumValues, typeNodes_mergedDocument, List.flatMap_map]
  refine decide_eq_true (nodup_flatMap_of_keys hprintable.names.types fun type htype => ?_)
  have hsound := (hprintable.types type htype).shape
  obtain ⟨name, description, directives, shape⟩ := type
  cases shape with
  | enum values =>
      change (((values.map enumValue).map fun v => (name, v.name)).Nodup ∧
        ∀ pair ∈ (values.map enumValue).map fun v => (name, v.name), pair.1 = name)
      rw [List.map_map]
      exact keyed_names (AreSoundValues.nodup hsound) name
  | _ => exact ⟨List.nodup_nil, fun _ hpair => (List.not_mem_nil hpair).elim⟩

theorem hasUniqueFields_mergedDocument [Runtime] (hprintable : IsPrintable schema) :
    (mergedDocument schema).hasUniqueFields = true := by
  have hfields : ∀ (name : String) {fields : List Schema.Field}, AreSoundFields fields →
      ((fields.map (printedField schema (settledOf schema))).map fun f => (name, f.name)).Nodup ∧
        ∀ pair ∈ (fields.map (printedField schema (settledOf schema))).map fun f => (name, f.name),
          pair.1 = name := by
    intro name fields hfields
    rw [List.map_map]
    exact keyed_names hfields.nodup name
  rw [Sdl.Document.hasUniqueFields, typeNodes_mergedDocument, List.flatMap_map]
  refine decide_eq_true (nodup_flatMap_of_keys hprintable.names.types fun type htype => ?_)
  have hsound := (hprintable.types type htype).shape
  obtain ⟨name, description, directives, shape⟩ := type
  cases shape with
  | object interfaces fields => exact hfields name hsound
  | interface interfaces fields => exact hfields name hsound
  | input fields isOneOf =>
      change (((fields.map (printedInput schema (settledOf schema))).map fun f =>
        (name, f.name)).Nodup ∧ ∀ pair ∈ (fields.map (printedInput schema
          (settledOf schema))).map fun f => (name, f.name), pair.1 = name)
      rw [List.map_map]
      exact keyed_names (AreSoundInputs.nodup hsound) name
  | _ => exact ⟨List.nodup_nil, fun _ hpair => (List.not_mem_nil hpair).elim⟩

theorem nodup_singleNames (document : Sdl.Document) {place : Sdl.Place}
    (htold : IsToldPlace place) :
    (document.singleNames place).Nodup := by
  apply List.Nodup.filter
  rcases htold with hnone | ⟨applied, d, hone, -⟩
  · rw [hnone]
    exact List.nodup_nil
  · rw [hone]
    exact List.nodup_singleton _

theorem flatMap_mergedDocument [Runtime] {β : Type} {f : Sdl.Definition → List β}
    (hmarks : Sources.marks.flatMap f = [])
    (hschema : f (.schema (descriptionOf schema.description) [] (operations schema.roots)) = [])
    (hdirectives : ∀ d : Sdl.DirectiveDefinition, f (.directive d) = []) :
    (mergedDocument schema).flatMap f = (ownTypes schema).flatMap fun type =>
      f (printedType schema (settledOf schema) type) := by
  have hone : (schemaDefinition schema).flatMap f = [] := by
    rcases schemaDefinition_cases schema with hnone | hsome
    · rw [hnone]
      rfl
    · rw [hsome, List.flatMap_cons, hschema]
      rfl
  have hown : ((unmarkedDirectives schema).map fun d =>
      Sdl.Definition.directive (printedDirective schema (settledOf schema) d)).flatMap f = [] := by
    rw [List.flatMap_map, List.flatMap_eq_nil_iff]
    exact fun d _ => hdirectives _
  rw [mergedDocument, List.flatMap_append, List.flatMap_append, List.flatMap_append, hmarks, hone,
    hown, List.nil_append, List.nil_append, List.nil_append, List.flatMap_map]

theorem hasUniqueApplications_mergedDocument [Runtime] (hprintable : IsPrintable schema) :
    (mergedDocument schema).hasUniqueApplications = true := by
  rw [Sdl.hasUniqueApplications_eq, Bool.and_eq_true, List.all_eq_true]
  constructor
  · intro definition hdefinition
    rw [List.all_eq_true]
    intro place hplace
    rw [Bool.or_eq_true]
    exact .inr (decide_eq_true (nodup_singleNames _
      (isToldPlace_of_mem_places definition hdefinition place hplace)))
  · have hnone : ∀ d : Sdl.DirectiveDefinition, (Sdl.Definition.directive d).places.flatMap
        (Sdl.ownedNames (mergedDocument schema)) = [] := by
      intro d
      rw [List.flatMap_eq_nil_iff, Sdl.Definition.places, List.forall_mem_map]
      exact fun _ _ => rfl
    rw [flatMap_mergedDocument (by simp [Sources.marks, Sdl.Definition.places]) rfl hnone]
    have hkeys : ((ownTypes schema).map fun type => Sdl.Owner.type type.name).Nodup := by
      have hmap := hprintable.names.types.map (f := Sdl.Owner.type) fun _ _ heq =>
        Sdl.Owner.type.inj heq
      rwa [List.map_map] at hmap
    refine decide_eq_true (nodup_flatMap_of_keys hkeys fun type _ => ?_)
    have hbody : ((printedBody schema (settledOf schema) type.shape).places false).flatMap
        (Sdl.ownedNames (mergedDocument schema)) = [] :=
      List.flatMap_eq_nil_iff.2 fun place hplace =>
        Sdl.ownedNames_of_none (Sdl.owner_of_mem_bodyPlaces hplace)
    let place : Sdl.Place :=
      { owner := some (.type type.name)
        location := (printedBody schema (settledOf schema) type.shape).kind.location
        directives := directivesOf type.shape }
    have hrow : (printedType schema (settledOf schema) type).places.flatMap
        (Sdl.ownedNames (mergedDocument schema)) =
          ((mergedDocument schema).singleNames place).map (Sdl.Owner.type type.name, ·) := by
      change List.flatMap _ (place ::
        (printedBody schema (settledOf schema) type.shape).places false) = _
      rw [List.flatMap_cons, hbody, List.append_nil]
      rfl
    have htold : IsToldPlace place :=
      isToldPlace_printedType type place List.mem_cons_self
    have hnames := nodup_singleNames (mergedDocument schema) htold
    rw [← List.map_id ((mergedDocument schema).singleNames place)] at hnames
    rw [hrow]
    exact keyed_names hnames (Sdl.Owner.type type.name)

/-- Behind the marks, the document of a schema is valid. -/
theorem IsPrintable.isValid_mergedDocument [Runtime] (hprintable : IsPrintable schema) :
    (mergedDocument schema).isValid = true := by
  rw [Sdl.isValid_iff]
  refine ⟨?_, hasOneSchema_mergedDocument schema, hasUniqueOperations_mergedDocument schema,
    hasUniqueEnumValues_mergedDocument hprintable, hasUniqueFields_mergedDocument hprintable,
    hasUniqueApplications_mergedDocument hprintable⟩
  simp only [Sdl.steadyRules, List.forall_mem_cons]
  exact ⟨hasUniqueTypes_mergedDocument hprintable,
    hasUniqueArgumentDefinitions_mergedDocument hprintable,
    hasUniqueDirectives_mergedDocument hprintable, hasKnownTypes_mergedDocument hprintable,
    hasKnownDirectives_mergedDocument schema, hasPossibleExtensions_mergedDocument schema,
    all_applications_mergedDocument IsApplicable.known, hasUniqueArguments_mergedDocument schema,
    hasUniqueObjectFields_mergedDocument hprintable,
    all_applications_mergedDocument IsApplicable.required, by simp⟩

end Document

end Introspection

end ConfigSchema
