import ConfigSchema.Proofs.NormalDefaults
import ConfigSchema.Proofs.PrintedDocuments
import ConfigSchema.Proofs.SoundSources

/-!
# Defaults that are told again

The text of a default in an introspection result is one of a normal literal.  So it is read as that
literal, unless it nests too deep.  The schema that is read has the same input objects with defaults
for the same fields at most, and in it every default fits again.
-/

namespace ConfigSchema

namespace Schema

variable {schema : Schema} {settled more : Settled}

/-! ## Loaded schemas -/

/-- What holds of the schema of a source: its parts can be told, its directives have different
names, its defaults are constants, its input objects settle, and queries have a root. -/
structure IsLoaded [Runtime] (schema : Schema) : Prop where
  sound : schema.IsSound
  nodup_directives : (schema.directives.map (·.name)).Nodup
  constants : ∀ input ∈ schema.inputValues, input.HasConstant
  settles : (schema.settledInputs? Runtime.settlingDepth).isSome = true
  query : schema.roots.query.isSome = true

theorem IsRead.isLoaded [Runtime] {document : Sdl.Document} (hread : schema.IsRead document)
    (hroots : schema.HasValidRoots) : schema.IsLoaded where
  sound := hread.isSound hroots
  nodup_directives := hread.nodup_names_directives
  constants := hread.hasConstant
  settles := hread.isOf.settles
  query := hroots.query

theorem IsLoaded.settles_settledInputs [Runtime] (hloaded : schema.IsLoaded) :
    schema.Settles schema.settledInputs := by
  obtain ⟨settled, hsettled⟩ := Option.isSome_iff_exists.1 hloaded.settles
  rw [settledInputs, hsettled]
  exact settles_of_settledInputs? hsettled

theorem Shape.isSound_inputValues [Runtime] {shape : Shape} (hsound : shape.IsSound) :
    ∀ input ∈ shape.inputValues, input.IsSound := by
  have hfields : ∀ {fields : List Field}, AreSoundFields fields →
      ∀ input ∈ fields.flatMap (·.arguments), input.IsSound := by
    intro fields hfields input hinput
    obtain ⟨field, hfield, hmem⟩ := List.mem_flatMap.1 hinput
    exact (hfields.sound field hfield).arguments.sound input hmem
  cases shape with
  | object interfaces fields => exact hfields hsound
  | interface interfaces fields => exact hfields hsound
  | input fields isOneOf => exact AreSoundInputs.sound hsound
  | _ => exact fun _ hinput => nomatch hinput

theorem IsSound.inputValues [Runtime] (hsound : schema.IsSound) :
    ∀ input ∈ schema.inputValues, input.IsSound := by
  intro input hinput
  rcases List.mem_append.1 hinput with hinput | hinput
  · obtain ⟨d, hd, hmem⟩ := List.mem_flatMap.1 hinput
    exact (hsound.directives d hd).arguments.sound input hmem
  · obtain ⟨type, htype, hmem⟩ := List.mem_flatMap.1 hinput
    exact Shape.isSound_inputValues (hsound.types type htype).shape input hmem

theorem mem_inputValues_of_isInputObject {name : String} {inputs : List InputValue}
    {isOneOf : Bool} (hinputs : schema.IsInputObject name inputs isOneOf) :
    ∀ input ∈ inputs, input ∈ schema.inputValues := by
  intro input hinput
  obtain ⟨type, hown, -, -, hshape⟩ := own_of_isInputObject hinputs
  exact mem_inputValues_of_type hown (by rw [hshape]; exact hinput)

theorem IsSound.areSoundInputs [Runtime] (hsound : schema.IsSound) {name : String}
    {inputs : List InputValue} {isOneOf : Bool}
    (hinputs : schema.IsInputObject name inputs isOneOf) : AreSoundInputs inputs := by
  obtain ⟨type, hown, -, -, hshape⟩ := own_of_isInputObject hinputs
  have hshaped := (hsound.types type hown).shape
  rw [hshape] at hshaped
  exact hshaped

theorem names_of_settlesFields {inputs : List InputValue} {fields : List SettledField}
    (hfields : List.Forall₂ (schema.SettlesField settled) inputs fields) :
    fields.map (·.name) = inputs.map (·.name) := by
  induction hfields with
  | nil => rfl
  | cons hfirst _ ih => rw [List.map_cons, List.map_cons, hfirst.name, ih]

theorem IsSound.isProper [Runtime] (hsound : schema.IsSound)
    (hsettlement : schema.IsSettlement settled) :
    settled.IsProper := by
  intro name input hlookup
  obtain ⟨inputs, hinputs, hfields⟩ := (hsettlement name input hlookup).isInputObject
  have hsounds := hsound.areSoundInputs hinputs
  refine ⟨?_, names_of_settlesFields hfields ▸ hsounds.nodup, ?_⟩
  · intro field hfield
    obtain ⟨source, hsource, hsettles⟩ := Results.exists_left_of_forall₂ hfields hfield
    exact hsettles.name ▸ (hsounds.sound source hsource).name
  · intro field hfield
    obtain ⟨source, hsource, hsettles⟩ := Results.exists_left_of_forall₂ hfields hfield
    exact hsettles.type ▸ (hsounds.sound source hsource).type.isProper

/-! ## Texts of defaults -/

/-- The literal whose text stands for a default is a normal one. -/
theorem IsLoaded.isNormal [Runtime] (hloaded : schema.IsLoaded) {input : InputValue}
    (hinput : input ∈ schema.inputValues) {w : Sdl.Value}
    (hdefault : schema.normalDefault input = .ok (some w)) :
    IsNormal schema schema.settledInputs input.type w := by
  have hsettlement := hloaded.settles_settledInputs.isSettlement
  have hconstants : schema.HasConstantInputs := fun _ _ _ hinputs source hsource =>
    hloaded.constants source (mem_inputValues_of_isInputObject hinputs source hsource)
  unfold normalDefault Introspection.Document.defaultOf at hdefault
  split at hdefault
  · cases hdefault
  · next value hvalue =>
      split at hdefault
      · cases hdefault
      · next constant hfit =>
          obtain ⟨found, hliteral, heq⟩ := Results.map_eq_ok_iff.1 hdefault
          cases heq
          exact hasNormal hconstants hsettlement (hloaded.sound.isProper hsettlement) constant
            input.type input.type w (hloaded.sound.inputValues input hinput).type.isProper rfl
            ⟨value, hloaded.constants input hinput value hvalue, hfit⟩ hliteral

theorem IsLoaded.isPrintable [Runtime] (hloaded : schema.IsLoaded) {input : InputValue}
    (hinput : input ∈ schema.inputValues) {w : Sdl.Value}
    (hdefault : schema.normalDefault input = .ok (some w)) : w.IsPrintable :=
  (hloaded.isNormal hinput hdefault).isPrintable
    (hloaded.sound.isProper hloaded.settles_settledInputs.isSettlement)

theorem default_retold_of_none [Runtime] {input : InputValue}
    (hdefault : schema.normalDefault input = .ok none) : (input.retold schema).default = none := by
  rw [InputValue.retold, defaultText?, hdefault]
  rfl

theorem default_retold_of_some [Runtime] {input : InputValue} {w : Sdl.Value}
    (hdefault : schema.normalDefault input = .ok (some w)) :
    (input.retold schema).default = Sdl.Value.parse? (Sdl.Printer.value w) := by
  rw [InputValue.retold, defaultText?, hdefault]
  rfl

theorem isLegible_of_none [Runtime] {input : InputValue}
    (hdefault : schema.normalDefault input = .ok none) :
    input.isLegible schema = true := by
  rw [InputValue.isLegible, defaultText?, hdefault]
  rfl

theorem isLegible_of_some [Runtime] {input : InputValue} {w : Sdl.Value}
    (hdefault : schema.normalDefault input = .ok (some w)) (hprint : w.IsPrintable) :
    input.isLegible schema = decide (w.depth ≤ Runtime.parsingDepth) := by
  rw [InputValue.isLegible, defaultText?, hdefault]
  change (Sdl.Value.parse? (Sdl.Printer.value w)).isSome = _
  rw [Sdl.Value.parse?_printed hprint]
  by_cases hdepth : w.depth ≤ Runtime.parsingDepth
  · rw [if_pos hdepth, decide_eq_true hdepth]
    rfl
  · rw [if_neg hdepth, decide_eq_false hdepth]
    rfl

/-- The schema has an introspection result: every default that fits has a literal. -/
def HasNormalDefaults [Runtime] (schema : Schema) : Prop :=
  ∀ input ∈ schema.inputValues, ∃ value, schema.normalDefault input = .ok value

/-- No default nests deeper than a text that is read. -/
def HasShallowDefaults [Runtime] (schema : Schema) : Prop :=
  ∀ input ∈ schema.inputValues, ∀ w, schema.normalDefault input = .ok (some w) →
    w.depth ≤ Runtime.parsingDepth

theorem introspection?_eq_some_iff [Runtime] {result : Json} :
    schema.introspection? = some result ↔
      schema.HasNormalDefaults ∧ result = Introspection.Result.ofSchema schema := by
  have hall : (schema.inputValues.all fun input => (schema.normalDefault input).isOk) = true ↔
      schema.HasNormalDefaults := by
    rw [List.all_eq_true]
    refine forall₂_congr fun input _ => ?_
    cases schema.normalDefault input <;> simp [Except.isOk, Except.toBool]
  rw [introspection?]
  split_ifs with hnormal
  · simp [hall.1 hnormal, eq_comm]
  · simp [mt hall.2 hnormal]

/-- The texts of all defaults can be read exactly if none nests too deep. -/
theorem IsLoaded.isLegible_iff [Runtime] (hloaded : schema.IsLoaded)
    (hnormal : schema.HasNormalDefaults) :
    (∀ input ∈ schema.inputValues, input.isLegible schema = true) ↔ schema.HasShallowDefaults := by
  refine forall₂_congr fun input hinput => ?_
  obtain ⟨value, hdefault⟩ := hnormal input hinput
  cases value with
  | none => simp [isLegible_of_none hdefault, hdefault]
  | some w =>
      rw [isLegible_of_some hdefault (hloaded.isPrintable hinput hdefault), decide_eq_true_iff]
      simp [hdefault]

/-! ## The schema that is read -/

theorem IsSound.type?_retold [Runtime] (hsound : schema.IsSound) (name : String) :
    schema.retold.type? name = (schema.type? name).map (·.retold schema) := by
  unfold type?
  cases hbuilt : BuiltIn.type? name with
  | some type =>
      have hname := BuiltIn.mem_of_type? hbuilt
      have hmem : type.name ∈ Sdl.BuiltIn.typeNames := by
        rw [← BuiltIn.names_types]
        exact List.mem_map_of_mem hname.1
      rw [Option.some_or, Option.some_or, Option.map_some, NamedType.retold, if_pos hmem]
  | none =>
      have hown := BuiltIn.type?_eq_none_iff.1 hbuilt
      rw [Option.none_or, Option.none_or]
      change (schema.orderedTypes.map (·.retold schema)).find? _ = _
      rw [List.find?_map, ← hsound.filter_orderedTypes, List.find?_filter]
      congr 2
      funext type
      rw [Function.comp_apply, NamedType.name_retold]
      by_cases hname : type.name = name
      · subst hname
        simpa using hown
      · simp [hname]

theorem IsSound.isInputObject_retold [Runtime] (hsound : schema.IsSound) {name : String}
    {inputs : List InputValue} {isOneOf : Bool}
    (hinputs : schema.IsInputObject name inputs isOneOf) :
    schema.retold.IsInputObject name (inputs.map (·.retold schema)) isOneOf := by
  obtain ⟨type, hown, htype, rfl, hshape⟩ := own_of_isInputObject hinputs
  rw [IsInputObject, hsound.type?_retold, htype, Option.map_some, Option.map_some,
    NamedType.retold, if_neg (hsound.types type hown).own]
  dsimp only
  rw [hshape]
  rfl

theorem NamedType.takesAlike_retold [Runtime] (type : NamedType) : type.TakesAlike
    (type.retold schema) := by
  unfold NamedType.retold
  split_ifs
  · exact ⟨rfl, rfl, rfl⟩
  · obtain ⟨name, description, directives, shape⟩ := type
    cases shape <;> exact ⟨rfl, rfl, rfl⟩

theorem IsSound.takesAlike_retold [Runtime] (hsound : schema.IsSound) :
    schema.TakesAlike schema.retold := by
  intro name
  rw [hsound.type?_retold]
  cases schema.type? name with
  | none => exact .none
  | some type => exact .some type.takesAlike_retold

/-! ## Settling again -/

/-- A default that does not fit is left out, so the value has none when it is told again. -/
theorem normalDefault_eq_none [Runtime] {input : InputValue}
    (hconstant : schema.defaultConstant schema.settledInputs input = .ok none) :
    schema.normalDefault input = .ok none := by
  rw [normalDefault, Introspection.Document.defaultOf]
  rw [defaultConstant] at hconstant
  cases hdefault : input.default with
  | none => rfl
  | some value =>
      rw [hdefault] at hconstant
      dsimp only at hconstant ⊢
      cases hfit : fit schema schema.settledInputs input.type value with
      | ok constant =>
          rw [hfit] at hconstant
          cases hconstant
      | error cause => rfl

theorem defaultConstant_of_none {input : InputValue} (hnone : input.default = none) :
    schema.defaultConstant settled input = .ok none := by
  rw [defaultConstant, hnone]

theorem retoldBy_of_settlesFields [Runtime] {inputs : List InputValue}
    {fields agains : List SettledField}
    (hfields : List.Forall₂ (schema.SettlesField schema.settledInputs) inputs fields)
    (hagains : List.Forall₂ (schema.retold.SettlesField more) (inputs.map (·.retold schema))
      agains) : List.Forall₂ SettledField.RetoldBy fields agains := by
  rw [List.forall₂_map_left_iff] at hagains
  refine Results.forall₂_of_common hfields hagains fun input _ field again hfield hagain => ?_
  refine ⟨hagain.name.trans hfield.name.symm, hagain.type.trans hfield.type.symm, ?_⟩
  intro hnone
  have hdefault := hfield.default
  rw [hnone] at hdefault
  have hretold := default_retold_of_none (normalDefault_eq_none hdefault)
  exact (Except.ok.inj ((defaultConstant_of_none hretold).symm.trans hagain.default)).symm

theorem IsLoaded.retells [Runtime] (hloaded : schema.IsLoaded)
    (hmore : schema.retold.Settles more) :
    schema.Retells schema.settledInputs more where
  isInputObject := by
    intro name input hlookup
    obtain ⟨inputs, hinputs, -⟩ :=
      (hloaded.settles_settledInputs.isSettlement name input hlookup).isInputObject
    exact ⟨inputs, input.isOneOf, hinputs⟩
  fieldType? := by
    intro name input hlookup field hfield
    have hsettlement := hloaded.settles_settledInputs.isSettlement
    obtain ⟨inputs, hinputs, hfields⟩ := (hsettlement name input hlookup).isInputObject
    have hfound := find?_of_settles hfields field.name
    rw [find?_of_nodup (hloaded.sound.isProper hsettlement name input hlookup).nodup field
      hfield] at hfound
    rw [fieldType?_of_isInputObject hinputs]
    generalize inputs.find? (·.name = field.name) = source at hfound ⊢
    cases hfound with
    | some hsettles => exact congrArg some hsettles.type.symm
  again := by
    intro name input hlookup
    obtain ⟨inputs, hinputs, hfields⟩ :=
      (hloaded.settles_settledInputs.isSettlement name input hlookup).isInputObject
    have hretold := hloaded.sound.isInputObject_retold hinputs
    obtain ⟨again, hagain⟩ := Option.isSome_iff_exists.1 (hmore.all _ _ _ hretold)
    obtain ⟨others, hothers, hagains⟩ := (hmore.isSettlement name again hagain).isInputObject
    obtain ⟨rfl, hone⟩ := eq_of_isInputObject hretold hothers
    exact ⟨again, hagain, hone.symm, retoldBy_of_settlesFields hfields hagains⟩

/-! ## Writing again -/

/-- A literal that is written for a default: it matches the literal of the default, and it can be
read back. -/
structure IsWrittenAs [Runtime] (schema : Schema) (ref : TypeRef) (v w : Sdl.Value) : Prop where
  matches_ : schema.Matches ref v w
  isRereadable : Introspection.Document.IsRereadable w

open Introspection.Document in
/-- Every default of the schema that is read has a literal. -/
theorem IsLoaded.defaultOf_retold [Runtime] (hloaded : schema.IsLoaded)
    (hnormal : schema.HasNormalDefaults)
    (hshallow : schema.HasShallowDefaults) (hmore : schema.retold.Settles more)
    {input : InputValue} (hinput : input ∈ schema.inputValues) :
    ∃ again, defaultOf schema.retold more (input.retold schema) = .ok again ∧
      Option.Rel (schema.IsWrittenAs input.type) (input.retold schema).default again := by
  obtain ⟨value, hdefault⟩ := hnormal input hinput
  cases value with
  | none =>
      have hnone := default_retold_of_none hdefault
      rw [hnone]
      refine ⟨none, ?_, .none⟩
      rw [defaultOf, hnone]
  | some v =>
      have hread := default_retold_of_some hdefault
      rw [Sdl.Value.parse?_printed (hloaded.isPrintable hinput hdefault),
        if_pos (hshallow input hinput v hdefault)] at hread
      have hproper := hloaded.sound.isProper hloaded.settles_settledInputs.isSettlement
      have hv := hloaded.isNormal hinput hdefault
      obtain ⟨constant, w, hfit, hliteral, hmatches, hreadable⟩ :=
        hv.refits hproper (hloaded.retells hmore)
      refine ⟨some w, ?_, ?_⟩
      · rw [defaultOf, hread]
        have hagain :
            fit schema.retold more (input.retold schema).type v.reread = .ok constant := by
          rw [← hloaded.sound.takesAlike_retold.fit_eq]
          exact hfit
        have hwritten : literal schema.retold more (input.retold schema).type constant = .ok w :=
          hliteral _ _ rfl
        dsimp only
        rw [hagain]
        dsimp only
        rw [hwritten]
        rfl
      · rw [hread]
        refine .some ⟨hmatches, ?_, ?_, hreadable⟩
        · rw [hmatches.depth_eq, v.depth_reread]
          exact hshallow input hinput v hdefault
        · rw [hmatches.fieldNames_eq, v.fieldNames_reread]
          exact hv.nodup_fieldNames hproper

end Schema

end ConfigSchema
