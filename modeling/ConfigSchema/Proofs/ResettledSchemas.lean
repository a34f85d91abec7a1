import ConfigSchema.Proofs.MatchedSettlings
import ConfigSchema.Proofs.RetoldDefaults

/-!
# Settling after the detour

The schema that is read from an introspection result and the schema of its document have the same
input objects, and the defaults of the one match those of the other.  So the second one settles
where the first one did.  Built-in types do not stand in the document; they have nothing to settle.
-/

namespace ConfigSchema

namespace Schema

open Introspection.Document

variable {schema : Schema}

/-- A loaded schema that has an introspection result with readable texts, and that settles when it
is read from it. -/
structure IsRetellable [Runtime] (schema : Schema) : Prop where
  loaded : schema.IsLoaded
  normal : schema.HasNormalDefaults
  shallow : schema.HasShallowDefaults
  settles : (schema.retold.settledInputs? Runtime.toldSettlingDepth).isSome = true

theorem IsRetellable.settles_settledOf [Runtime] (hretellable : schema.IsRetellable) :
    schema.retold.Settles (settledOf schema.retold) := by
  obtain ⟨settled, hsettled⟩ := Option.isSome_iff_exists.1 hretellable.settles
  rw [settledOf, hsettled]
  exact settles_of_settledInputs? hsettled

/-! ## Defaults -/

theorem IsRetellable.defaultOf_retold [Runtime] (hretellable : schema.IsRetellable)
    {input : InputValue} (hinput : input ∈ schema.inputValues) :
    HasDefault schema.retold (settledOf schema.retold) (input.retold schema) ∧
      Option.Rel (schema.IsWrittenAs input.type) (input.retold schema).default
        (printedDefault schema.retold (settledOf schema.retold) (input.retold schema)) := by
  obtain ⟨again, hagain, hwritten⟩ := hretellable.loaded.defaultOf_retold hretellable.normal
    hretellable.shallow hretellable.settles_settledOf hinput
  obtain ⟨hdefault, rfl⟩ := defaultOf_eq_ok_iff.1 hagain
  exact ⟨hdefault, hwritten⟩

theorem IsRetellable.rewritten [Runtime] (hretellable : schema.IsRetellable) {input : InputValue}
    (hinput : input ∈ schema.inputValues) :
    (input.retold schema).Rewritten schema ((input.retold schema).reprinted schema.retold) := by
  refine ⟨rfl, rfl, ?_⟩
  have hwritten := (hretellable.defaultOf_retold hinput).2
  rw [InputValue.reprinted]
  generalize (input.retold schema).default = value at hwritten ⊢
  generalize printedDefault _ _ _ = again at hwritten ⊢
  cases hwritten with
  | none => exact .none
  | some hwritten => exact .some hwritten.matches_

theorem forall₂_describedInputs {R : InputValue → InputValue → Prop}
    {change : InputValue → InputValue} {inputs : List InputValue}
    (hinputs : ∀ input ∈ inputs,
      R input (change input) ∧ R input (change { input with description := none })) :
    List.Forall₂ R inputs ((describedInputs inputs).map change) := by
  rw [describedInputs, List.forall₂_map_right_iff]
  split_ifs
  · exact List.forall₂_same.2 fun input hinput => (hinputs input hinput).1
  · rw [List.forall₂_map_right_iff]
    exact List.forall₂_same.2 fun input hinput => (hinputs input hinput).2

/-- Arguments whose empty descriptions are left out keep their defaults. -/
theorem IsRetellable.rewritten_arguments [Runtime] (hretellable : schema.IsRetellable)
    {inputs : List InputValue} (hinputs : ∀ input ∈ inputs, input ∈ schema.inputValues) :
    List.Forall₂ (InputValue.Rewritten schema) (inputs.map (·.retold schema))
      ((describedInputs (inputs.map (·.retold schema))).map (·.reprinted schema.retold)) := by
  apply forall₂_describedInputs
  rw [List.forall_mem_map]
  intro input hinput
  have hrewritten := hretellable.rewritten (hinputs input hinput)
  exact ⟨hrewritten, hrewritten.name, hrewritten.type, hrewritten.default⟩

/-! ## Types -/

theorem forall₂_flatMap {α β γ : Type} {R : β → γ → Prop} {items : List α} {f : α → List β}
    {g : α → List γ} (hitems : ∀ a ∈ items, List.Forall₂ R (f a) (g a)) :
    List.Forall₂ R (items.flatMap f) (items.flatMap g) := by
  induction items with
  | nil => exact .nil
  | cons first rest ih =>
      rw [List.forall_mem_cons] at hitems
      rw [List.flatMap_cons, List.flatMap_cons]
      exact List.rel_append hitems.1 (ih hitems.2)

theorem kind_detoured [Runtime] (type : NamedType) :
    (type.detoured schema).shape.kind = type.shape.kind ∧
      (type.detoured schema).shape.valueNames = type.shape.valueNames := by
  obtain ⟨name, description, directives, shape⟩ := type
  rw [NamedType.detoured, NamedType.reprinted, NamedType.retold]
  split_ifs <;> cases shape <;> exact ⟨rfl, rfl⟩

theorem NamedType.takesAlike_detoured [Runtime] (type : NamedType) : type.TakesAlike
    (type.detoured schema) :=
  ⟨type.name_retold.symm, (kind_detoured type).1.symm, (kind_detoured type).2.symm⟩

theorem IsRetellable.rewritten_type [Runtime] (hretellable : schema.IsRetellable) {type : NamedType}
    (htype : type ∈ schema.types) :
    (type.retold schema).Rewritten schema (type.detoured schema) := by
  have hown := (hretellable.loaded.sound.types type htype).own
  have hinputs : ∀ input ∈ type.shape.inputValues, input ∈ schema.inputValues := fun _ hinput =>
    mem_inputValues_of_type htype hinput
  have hfields : ∀ {fields : List Field},
      (∀ input ∈ fields.flatMap (·.arguments), input ∈ schema.inputValues) →
        List.Forall₂ (InputValue.Rewritten schema)
          ((fields.map (·.retold schema)).flatMap (·.arguments))
          (((fields.map (·.retold schema)).map (·.reprinted schema.retold)).flatMap
            (·.arguments)) := by
    intro fields hfields
    rw [List.map_map, List.flatMap_map, List.flatMap_map]
    exact forall₂_flatMap fun field hfield => hretellable.rewritten_arguments fun input hinput =>
      hfields input (List.mem_flatMap.2 ⟨field, hfield, hinput⟩)
  obtain ⟨name, description, directives, shape⟩ := type
  refine ⟨rfl, ?_, ?_⟩
  · rw [(NamedType.takesAlike_retold _).kind.symm]
    exact (kind_detoured _).1
  · rw [NamedType.detoured, NamedType.reprinted, NamedType.retold, if_neg hown]
    cases shape with
    | object interfaces fields => exact hfields hinputs
    | interface interfaces fields => exact hfields hinputs
    | input fields isOneOf =>
        simp only [Shape.retold, Shape.reprinted, Shape.inputValues]
        rw [List.map_map, List.forall₂_map_left_iff, List.forall₂_map_right_iff]
        exact List.forall₂_same.2 fun input hinput => hretellable.rewritten (hinputs input hinput)
    | _ => exact .nil

/-- What holds of the own types before and after a change, and of the built-in types, holds of what
a name stands for before and after it. -/
theorem rel_type? {R : NamedType → NamedType → Prop} {one other : Schema}
    {change : NamedType → NamedType} (htypes : other.types = one.types.map change)
    (hname : ∀ type, (change type).name = type.name)
    (hown : ∀ type ∈ one.types, R type (change type))
    (hbuiltIn : ∀ type ∈ BuiltIn.types, R type type) (name : String) :
    Option.Rel R (one.type? name) (other.type? name) := by
  unfold type?
  cases hfound : BuiltIn.type? name with
  | some type => exact .some (hbuiltIn type (BuiltIn.mem_of_type? hfound).1)
  | none =>
      rw [Option.none_or, Option.none_or, htypes, List.find?_map]
      simp only [Function.comp_def, hname]
      cases htype : one.types.find? fun type => decide (type.name = name) with
      | none => exact .none
      | some type => exact .some (hown type (List.mem_of_find?_eq_some htype))

theorem IsSound.types_reprinted [Runtime] (hsound : schema.IsSound) :
    schema.retold.reprinted.types = schema.types.map (·.detoured schema) := by
  rw [reprinted, hsound.ownTypes_retold, List.map_map]
  rfl

theorem IsSound.takesAlike_reprinted [Runtime] (hsound : schema.IsSound) :
    schema.TakesAlike schema.retold.reprinted :=
  rel_type? hsound.types_reprinted (fun type => type.name_retold)
    (fun type _ => type.takesAlike_detoured) fun _ _ => ⟨rfl, rfl, rfl⟩

theorem IsSound.type?_reprinted [Runtime] (hsound : schema.IsSound) {type : NamedType}
    (htype : type ∈ schema.types) :
    schema.retold.reprinted.type? type.name = some (type.detoured schema) := by
  have hrel := rel_type? (R := fun type again => type.name ∉ Sdl.BuiltIn.typeNames →
      again = type.detoured schema) hsound.types_reprinted (fun type => type.name_retold)
    (fun _ _ _ => rfl) (fun type htype hname => absurd
      (BuiltIn.names_types ▸ List.mem_map_of_mem htype) hname) type.name
  rw [hsound.type?_of_mem htype] at hrel
  generalize schema.retold.reprinted.type? type.name = again at hrel ⊢
  cases hrel with
  | some hagain => rw [hagain (hsound.types type htype).own]

/-! ## Input objects -/

theorem IsSound.fieldType?_retold [Runtime] (hsound : schema.IsSound) (base name : String) :
    schema.retold.fieldType? base name = schema.fieldType? base name := by
  rw [fieldType?, fieldType?, hsound.type?_retold]
  cases htype : schema.type? base with
  | none => rfl
  | some type =>
      rw [Option.map_some, Option.map_some, Option.map_some, NamedType.retold]
      obtain ⟨own, description, directives, shape⟩ := type
      split_ifs
      · rfl
      · cases shape with
        | input fields isOneOf =>
            simp only [Shape.retold]
            rw [List.find?_map, Option.map_map]
            rfl
        | _ => rfl

theorem IsRetellable.isInputObject_reprinted [Runtime] (hretellable : schema.IsRetellable)
    {name : String} {inputs : List InputValue} {isOneOf : Bool}
    (hinputs : schema.retold.IsInputObject name inputs isOneOf) :
    ∃ agains, schema.retold.reprinted.IsInputObject name agains isOneOf ∧
      List.Forall₂ (InputValue.Rewritten schema) inputs agains := by
  have hsound := hretellable.loaded.sound
  obtain ⟨type, htype, rfl, hshape⟩ := name_of_isInputObject hinputs
  have htold := hsound.type?_retold type.name
  rw [htype] at htold
  obtain ⟨source, hsource, rfl⟩ := Option.map_eq_some_iff.1 htold.symm
  rw [NamedType.name_retold] at hsource ⊢
  have hkind : source.shape.kind = .input := by
    rw [source.takesAlike_retold.kind, hshape]
    rfl
  rcases type?_cases hsource with ⟨hbuilt, -⟩ | ⟨-, hown, -⟩
  · exact absurd hkind ((by decide : ∀ type ∈ BuiltIn.types, type.shape.kind ≠ .input) source
      (BuiltIn.mem_of_type? hbuilt).1)
  · have hrewritten := (hretellable.rewritten_type hown).inputs
    rw [hshape] at hrewritten
    refine ⟨_, ?_, hrewritten⟩
    rw [IsInputObject, hsound.type?_reprinted hown]
    have hagain : (source.detoured schema).shape = (source.retold schema).shape.reprinted
      schema.retold := rfl
    rw [Option.map_some, hagain, hshape]
    rfl

theorem countP_filter_of_imp {α : Type} {p keep : α → Bool} {items : List α}
    (himp : ∀ a ∈ items, p a = true → keep a = true) :
    (items.filter keep).countP p = items.countP p := by
  rw [List.countP_filter]
  refine List.countP_congr fun a ha => ?_
  rw [Bool.and_eq_true_iff]
  exact ⟨And.left, fun hp => ⟨hp, himp a ha hp⟩⟩

theorem IsSound.inputCount_reprinted [Runtime] (hsound : schema.IsSound) :
    schema.retold.reprinted.inputCount = schema.retold.inputCount := by
  have hkind : ∀ type : NamedType, (type.retold schema).shape.kind = type.shape.kind :=
    fun type => type.takesAlike_retold.kind.symm
  have hown : ∀ type ∈ schema.orderedTypes, decide (type.shape.kind = .input) = true →
      (!Sdl.BuiltIn.typeNames.contains type.name) = true := by
    intro type htype hinput
    rcases orderedTypes_cases htype with ⟨-, hbuilt⟩ | ⟨hname, -⟩
    · exact absurd (of_decide_eq_true hinput)
        ((by decide : ∀ type ∈ BuiltIn.types, type.shape.kind ≠ .input) type hbuilt)
    · simpa using hname
  rw [inputCount, inputCount, hsound.types_reprinted]
  change _ = (schema.orderedTypes.map (·.retold schema)).countP _
  rw [List.countP_map, List.countP_map]
  simp only [Function.comp_def, hkind, (kind_detoured _).1]
  rw [← hsound.filter_orderedTypes, countP_filter_of_imp hown]

theorem IsRetellable.rewrites [Runtime] (hretellable : schema.IsRetellable) :
    schema.Rewrites schema.retold schema.retold.reprinted where
  takesAlike := hretellable.loaded.sound.takesAlike_retold
  takesAgain := hretellable.loaded.sound.takesAlike_reprinted
  inputCount_eq := hretellable.loaded.sound.inputCount_reprinted
  fieldType?_eq := hretellable.loaded.sound.fieldType?_retold
  isInputObject := fun _ _ _ => hretellable.isInputObject_reprinted

/-! ## Built-in types -/

section

variable {settle : Settling} {settled : Settled}

/-- The constant of a plain value waits for nothing. -/
theorem exists_defaultConstant {input : InputValue}
    (hplain : ∀ value ∈ input.default, value.isPlain = true) :
    ∃ constant, schema.defaultConstant settled input = .ok constant := by
  unfold defaultConstant
  cases hdefault : input.default with
  | none => exact ⟨none, rfl⟩
  | some value =>
      dsimp only
      rw [fit_of_isPlain (hplain value hdefault)]
      cases schema.type? input.type.base with
      | none => exact ⟨none, rfl⟩
      | some type =>
          dsimp only
          cases fitPlain type value with
          | none => exact ⟨none, rfl⟩
          | some constant => exact ⟨_, rfl⟩

theorem exists_fieldsBy_of_isPlain {inputs : List InputValue}
    (hplain : ∀ input ∈ inputs, ∀ value ∈ input.default, value.isPlain = true) :
    ∃ fields, schema.fieldsBy settle inputs settled = some (fields, settled) := by
  induction inputs with
  | nil => exact ⟨[], rfl⟩
  | cons input rest ih =>
      rw [List.forall_mem_cons] at hplain
      obtain ⟨constant, hconstant⟩ :=
        @exists_defaultConstant schema settled input hplain.1
      obtain ⟨fields, hfields⟩ := ih hplain.2
      have htold : schema.constantBy settle input (schema.inputCount + 1) settled =
          some (constant, settled) := by rw [constantBy, hconstant]
      rw [fieldsBy, htold]
      simp only [Option.bind_eq_bind, Option.bind_some, hfields]
      exact ⟨_, rfl⟩

/-- A built-in type has nothing to settle. -/
theorem settleType_builtIn {type : NamedType} (htype : type ∈ BuiltIn.types) (room : Nat) :
    schema.settleType room settled type = some settled := by
  have hkind := (by decide : ∀ type ∈ BuiltIn.types, type.shape.kind ≠ .input) type htype
  have hplain := (by decide : ∀ type ∈ BuiltIn.types, ∀ input ∈ type.shape.inputValues,
    ∀ value ∈ input.default, value.isPlain = true) type htype
  obtain ⟨fields, hfields⟩ :=
    @exists_fieldsBy_of_isPlain schema (schema.settleWithin room) settled _ hplain
  rw [settleType_eq, if_neg hkind, settleValues, hfields]
  rfl

end

theorem foldlM_filter {σ α : Type} {step : σ → α → Option σ} {keep : α → Bool} {items : List α}
    (hstays : ∀ a ∈ items, keep a = false → ∀ s, step s a = some s) (s : σ) :
    items.foldlM step s = (items.filter keep).foldlM step s := by
  induction items generalizing s with
  | nil => rfl
  | cons first rest ih =>
      rw [List.forall_mem_cons] at hstays
      rw [List.foldlM_cons]
      cases hkeep : keep first with
      | true =>
          rw [List.filter_cons_of_pos hkeep, List.foldlM_cons]
          exact congrArg _ (funext fun next => ih hstays.2 next)
      | false =>
          rw [List.filter_cons_of_neg (by simp [hkeep]), hstays.1 hkeep]
          exact ih hstays.2 s

theorem IsSound.settleTypes_retold [Runtime] (hsound : schema.IsSound) (room : Nat)
    (settled : Settled) :
    schema.retold.types.foldlM (schema.retold.settleType room) settled =
      (schema.types.map (·.retold schema)).foldlM (schema.retold.settleType room) settled := by
  change (schema.orderedTypes.map (·.retold schema)).foldlM _ _ = _
  rw [List.foldlM_map, List.foldlM_map, ← hsound.filter_orderedTypes]
  refine foldlM_filter (fun type htype hname settled => ?_) settled
  rcases orderedTypes_cases htype with ⟨-, hbuilt⟩ | ⟨hown, -⟩
  · have hmem : type.name ∈ Sdl.BuiltIn.typeNames := by simpa using hname
    rw [NamedType.retold, if_pos hmem]
    exact settleType_builtIn hbuilt room
  · simp at hname
    contradiction

/-! ## Directives -/

/-- The only default of a built-in directive is told as it is. -/
theorem BuiltIn.rewritten [Runtime] {input : InputValue}
    (hinput : input ∈ BuiltIn.directives.flatMap (·.arguments)) :
    (input.retold schema).Rewritten schema input := by
  have harguments : BuiltIn.directives.flatMap (·.arguments) =
      [{ name := "if", type := .required (.named "Boolean") },
        { name := "if", type := .required (.named "Boolean") },
        { name := "reason", type := .named "String"
          default := some (textValue Sdl.BuiltIn.deprecationReason) },
        { name := "url", type := .required (.named "String") }] := rfl
  have hcases : input.default = none ∨ input.type = .named "String" ∧
      input.default = some (textValue Sdl.BuiltIn.deprecationReason) := by
    rw [harguments] at hinput
    simp only [List.mem_cons, List.not_mem_nil, or_false] at hinput
    rcases hinput with rfl | rfl | rfl | rfl
    · exact .inl rfl
    · exact .inl rfl
    · exact .inr ⟨rfl, rfl⟩
    · exact .inl rfl
  refine ⟨rfl, rfl, ?_⟩
  rcases hcases with hnone | ⟨htype, hreason⟩
  · have hdefault : schema.normalDefault input = .ok none := by
      rw [normalDefault, defaultOf, hnone]
    rw [default_retold_of_none hdefault, hnone]
    exact .none
  · have hdefault : schema.normalDefault input =
        .ok (some (textValue Sdl.BuiltIn.deprecationReason)) := by
      rw [normalDefault, defaultOf, hreason, htype]
      rfl
    have hprint : (textValue Sdl.BuiltIn.deprecationReason).IsPrintable :=
      show false = false ∧ Text.hasSurrogate Sdl.BuiltIn.deprecationReason = false from
        ⟨rfl, Text.hasSurrogate_of_ascii (by decide)⟩
    have hread := (Sdl.Value.parse?_printed hprint).trans (if_pos (Nat.zero_le _))
    rw [default_retold_of_some hdefault, hread, hreason]
    change Option.Rel (schema.Matches input.type) _ _
    rw [htype]
    exact .some (.plain rfl rfl rfl rfl rfl)

/-- What settles when it is told settles when it is read from its document. -/
theorem IsRetellable.settles_reprinted [Runtime] (hretellable : schema.IsRetellable)
    {own : List Directive} (hown : schema.HasOwnDirectives own) :
    (schema.retold.reprinted.settledInputs? Runtime.settlingDepth).isSome = true := by
  have hrewrites := hretellable.rewrites
  have hroom : Runtime.toldSettlingDepth ≤ Runtime.settlingDepth := Runtime.told_le_settling
  obtain ⟨settled, hsettled⟩ := Option.isSome_iff_exists.1 hretellable.settles
  obtain ⟨first, hfirst, hrest⟩ := Option.bind_eq_some_iff.1 hsettled
  have hdirectives : List.Forall₂ (InputValue.Rewritten schema)
      (schema.retold.directives.flatMap (·.arguments))
      (schema.retold.reprinted.directives.flatMap (·.arguments)) := by
    have hmarks : markDirectives.flatMap (·.arguments) = [] := rfl
    have hmem : ∀ d ∈ own, d ∈ schema.directives := fun d hd => by
      rw [hown.directives]
      exact List.mem_append_left _ (List.mem_append_right _ hd)
    have hretold : schema.retold.directives.flatMap (·.arguments) =
        (own.flatMap fun d => d.arguments.map (·.retold schema)) ++
          (BuiltIn.directives.flatMap (·.arguments)).map (·.retold schema) := by
      change (schema.directives.map (·.retold schema)).flatMap (·.arguments) = _
      rw [hown.directives, List.flatMap_map, List.flatMap_append, List.flatMap_append,
        List.map_flatMap]
      rfl
    have hreprinted : schema.retold.reprinted.directives.flatMap (·.arguments) =
        (own.flatMap fun d => (describedInputs (d.arguments.map (·.retold schema))).map
          (·.reprinted schema.retold)) ++ BuiltIn.directives.flatMap (·.arguments) := by
      rw [reprinted, hown.unmarkedDirectives_retold, List.flatMap_append, List.flatMap_append,
        hmarks, List.nil_append, List.map_map, List.flatMap_map]
      rfl
    rw [hretold, hreprinted]
    refine List.rel_append (forall₂_flatMap fun d hd => ?_) ?_
    · exact hretellable.rewritten_arguments fun input hinput =>
        mem_inputValues_of_directive (hmem d hd) hinput
    · rw [List.forall₂_map_left_iff]
      exact List.forall₂_same.2 fun input hinput => BuiltIn.rewritten hinput
  have htypes : List.Forall₂ (NamedType.Rewritten schema) (schema.types.map (·.retold schema))
      schema.retold.reprinted.types := by
    rw [hretellable.loaded.sound.types_reprinted, List.forall₂_map_left_iff,
      List.forall₂_map_right_iff]
    exact List.forall₂_same.2 fun type htype => hretellable.rewritten_type htype
  rw [hretellable.loaded.sound.settleTypes_retold] at hrest
  obtain ⟨again, hagain, htallies⟩ :=
    follow_settleValues hrewrites hroom hdirectives (tallies_nil schema) hfirst
  obtain ⟨last, hlast⟩ := follow_settleTypes hrewrites hroom htypes htallies hrest
  rw [settledInputs?]
  simp only [Option.bind_eq_bind, hagain, Option.bind_some, hlast]
  rfl

/-! ## Schemas that can be told -/

/-- What the reader of an introspection result asks for: the texts of the defaults nest no deeper
than it reads, the input objects settle within its levels, and so does each default of a directive
by itself. -/
structure CanBeTold [Runtime] (schema : Schema) : Prop where
  shallow : schema.HasShallowDefaults
  settles : (schema.retold.settledInputs? Runtime.toldSettlingDepth).isSome = true
  tells : ∀ d ∈ schema.directives, ∀ input ∈ d.arguments,
    canTell { types := schema.retold.types, directives := [] } Runtime.toldSettlingDepth
      (input.retold schema) = true

theorem CanBeTold.isRetellable [Runtime] (htold : schema.CanBeTold) (hloaded : schema.IsLoaded)
    (hnormal : schema.HasNormalDefaults) : schema.IsRetellable :=
  ⟨hloaded, hnormal, htold.shallow, htold.settles⟩

theorem IsSound.all_isLegible_iff [Runtime] (hsound : schema.IsSound) :
    schema.orderedTypes.all (·.isLegible schema) = true ↔
      ∀ type ∈ schema.types, ∀ input ∈ type.shape.inputValues, input.isLegible schema = true := by
  rw [List.all_eq_true]
  constructor
  · intro hall type htype
    have hown := (hsound.types type htype).own
    rw [← hsound.filter_orderedTypes] at htype
    have hlegible := hall type (List.mem_of_mem_filter htype)
    rw [NamedType.isLegible, Bool.or_eq_true, List.contains_iff_mem] at hlegible
    exact List.all_eq_true.1 (hlegible.resolve_left hown)
  · intro hall type htype
    rw [NamedType.isLegible, Bool.or_eq_true, List.contains_iff_mem]
    rcases orderedTypes_cases htype with ⟨-, hbuilt⟩ | ⟨-, hown⟩
    · exact .inl (BuiltIn.names_types ▸ List.mem_map_of_mem hbuilt)
    · exact .inr (List.all_eq_true.2 (hall type hown))

/-- The introspection result of a loaded schema is read exactly if the schema can be told. -/
theorem IsLoaded.isTold_iff [Runtime] (hloaded : schema.IsLoaded)
    (hnormal : schema.HasNormalDefaults) :
    Introspection.Result.isTold schema = true ↔ schema.CanBeTold := by
  have hshallow := hloaded.isLegible_iff hnormal
  simp only [Introspection.Result.isTold, Bool.and_eq_true, hloaded.sound.all_isLegible_iff,
    List.all_eq_true, Introspection.Result.isTellable]
  constructor
  · rintro ⟨⟨htypes, hdirectives⟩, hsettles⟩
    refine ⟨hshallow.1 fun input hinput => ?_, hsettles, fun d hd input hinput =>
      (hdirectives d hd input hinput).2⟩
    rcases List.mem_append.1 hinput with hinput | hinput
    · obtain ⟨d, hd, hmem⟩ := List.mem_flatMap.1 hinput
      exact (hdirectives d hd input hmem).1
    · obtain ⟨type, htype, hmem⟩ := List.mem_flatMap.1 hinput
      exact htypes type htype input hmem
  · intro htold
    have hlegible := hshallow.2 htold.shallow
    exact ⟨⟨fun type htype input hinput => hlegible input (mem_inputValues_of_type htype hinput),
      fun d hd input hinput => ⟨hlegible input (mem_inputValues_of_directive hd hinput),
        htold.tells d hd input hinput⟩⟩, htold.settles⟩

end Schema

end ConfigSchema
