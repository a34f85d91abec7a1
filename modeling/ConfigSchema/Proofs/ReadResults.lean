import ConfigSchema.Introspection.Reader
import ConfigSchema.Proofs.EntryLookup
import ConfigSchema.Proofs.SoundSchemas

/-!
# Reading an introspection result back

Every reader gives back what the part of the result was made from, but for two things: directives
that are applied are not told, and a default is what its text reads as.  So reading fails only on
a default, and where it fails the result counts as malformed.
-/

namespace ConfigSchema

namespace Introspection

/-! ## Decided results -/

/-- A value if something holds, and a fault of form else. -/
def decided {α : Type} (holds : Bool) (a : α) : Decoded α :=
  if holds then .ok a else .error .malformed

section

variable {α β γ : Type}

@[simp] theorem decided_true (a : α) : decided true a = .ok a := rfl

@[simp] theorem decided_false (a : α) : decided false a = .error .malformed := rfl

theorem ok_bind (a : α) (next : α → Decoded β) : (.ok a >>= next : Decoded β) = next a := rfl

theorem mapM_decided {read : β → Decoded γ} {write : α → β} {test : α → Bool} {f : α → γ}
    {items : List α} (hitems : ∀ a ∈ items, read (write a) = decided (test a) (f a)) :
    (items.map write).mapM read = decided (items.all test) (items.map f) := by
  induction items with
  | nil => rfl
  | cons first rest ih =>
      rw [List.map_cons, List.mapM_cons, hitems first List.mem_cons_self,
        ih fun a ha => hitems a (List.mem_cons_of_mem _ ha), List.all_cons]
      cases test first <;> cases rest.all test <;> rfl

theorem mapM_ok {read : β → Decoded γ} {write : α → β} {f : α → γ} {items : List α}
    (hitems : ∀ a ∈ items, read (write a) = .ok (f a)) :
    (items.map write).mapM read = .ok (items.map f) := by
  have hdecided : ∀ a ∈ items, read (write a) = decided true (f a) := hitems
  rw [mapM_decided hdecided, List.all_eq_true.2 fun _ _ => rfl]
  rfl

theorem filterMap_decided {test : α → Bool} {f : α → β} {items : List α}
    (hitems : ∀ a ∈ items, test a = true) :
    (items.map fun a => decided (test a) (f a)).filterMap Except.toOption = items.map f := by
  rw [List.filterMap_map, ← List.filterMap_eq_map]
  apply List.filterMap_congr
  intro a ha
  simp only [Function.comp_apply, hitems a ha]
  rfl

/-- Entries with different names keep their values. -/
theorem values_ofList {name : α → String} {f : α → β} {items : List α}
    (hnodup : (items.map name).Nodup) :
    (Entries.ofList (items.map fun a => (name a, f a))).map (·.2) = items.map f := by
  have hnames : (items.map fun a => (name a, f a)).map (·.1) = items.map name := by
    rw [List.map_map]
    rfl
  rw [← hnames] at hnodup
  rw [Entries.ofList_eq_self hnodup, List.map_map]
  rfl

end

/-! ## Parts -/

section

variable {v : Json} {name : String}

theorem part_of_get? {w : Json} (hget : v.get? name = some w) : part name v = .ok w := by
  rw [part, hget]

theorem given?_of_get? {w : Json} (hget : v.get? name = some w) (hnull : w ≠ .null) :
    v.given? name = some w := by
  rw [Json.given?, hget]
  split
  · next heq => exact absurd (Option.some.inj heq) hnull
  · rfl

theorem givenItems_of_get? {items : List Json} (hget : v.get? name = some (.arr items)) :
    givenItems name v = .ok items := by
  rw [givenItems, given?_of_get? hget (by simp)]
  rfl

theorem optionalText_of_get? {text : Option String} (hget : v.get? name = some (.ofText? text)) :
    optionalText name v = .ok text := by
  cases text with
  | none =>
      rw [optionalText, Json.given?, hget]
      rfl
  | some text =>
      rw [optionalText, given?_of_get? hget (by simp [Json.ofText?])]
      rfl

theorem nameOf_of_get? {text : String} (hget : v.get? "name" = some (.str text))
    (hname : isName text = true) : nameOf v = .ok text := by
  rw [nameOf, hget]
  exact if_pos hname

end

theorem kindOf?_word (kind : Sdl.TypeBody.Kind) : kindOf? (.str kind.word) = some kind := by
  cases kind <;> rfl

namespace Result

variable {schema : Schema} {types : Entries Described}

/-! ## References -/

/-- A reference whose name stands among the types that are read. -/
theorem isTruthy_ofRef (ref : TypeRef) : (ofRef schema ref).isTruthy = true := by
  cases ref <;> rfl

theorem word_ne (kind : Sdl.TypeBody.Kind) : kind.word ≠ "LIST" ∧ kind.word ≠ "NON_NULL" := by
  cases kind <;> decide

/-- The kind under a name is no layer. -/
theorem get?_kind_ofRef_named (name : String) :
    (ofRef schema (.named name)).get? "kind" ≠ some (.str "LIST") ∧
      (ofRef schema (.named name)).get? "kind" ≠ some (.str "NON_NULL") := by
  have hkind : (ofRef schema (.named name)).get? "kind" =
      some (.ofText? ((schema.type? name).map (·.shape.kind.word))) := by
    simp [ofRef, Json.get?, Entries.get?]
  rw [hkind]
  cases schema.type? name with
  | none => simp [Json.ofText?]
  | some type => simpa [Json.ofText?] using word_ne type.shape.kind

theorem typeRef_ofRef {ref : TypeRef} (hproper : ref.IsProper)
    (hname : (types.get? ref.base).isSome = true) : typeRef types (ofRef schema ref) = .ok ref := by
  induction ref with
  | named name =>
      have hkind := @get?_kind_ofRef_named schema name
      rw [ofRef] at hkind ⊢
      rw [typeRef.eq_3 types _ hkind.1 hkind.2]
      have hget : ∀ kind : Json, Entries.get? "name"
          [("kind", kind), ("name", .str name), ("ofType", .null)] = some (.str name) := by
        intro kind
        simp [Entries.get?]
      rw [hget]
      exact if_pos hname
  | list of ih =>
      have hkind : (ofRef schema (.list of)).get? "kind" = some (.str "LIST") := by
        simp [ofRef, Json.get?, Entries.get?]
      have hinner : (ofRef schema (.list of)).get? "ofType" = some (ofRef schema of) := by
        simp [ofRef, Json.get?, Entries.get?]
      rw [typeRef.eq_1 types _ hkind, hinner]
      dsimp only
      rw [if_pos (isTruthy_ofRef of), ih hproper hname]
      rfl
  | required of ih =>
      have hkind : (ofRef schema (.required of)).get? "kind" = some (.str "NON_NULL") := by
        simp [ofRef, Json.get?, Entries.get?]
      have hinner : (ofRef schema (.required of)).get? "ofType" = some (ofRef schema of) := by
        simp [ofRef, Json.get?, Entries.get?]
      rw [typeRef.eq_2 types _ hkind, hinner]
      dsimp only
      rw [if_pos (isTruthy_ofRef of), ih hproper.2 hname]
      have hrequired := hproper.1
      cases of with
      | required other => cases hrequired
      | named name => rfl
      | list item => rfl

end Result

end Introspection

/-! ## What is read -/

namespace Schema

/-- A value with its default as the text of the default reads. -/
def InputValue.retold [Runtime] (schema : Schema) (input : InputValue) : InputValue :=
  { input with default := (schema.defaultText? input).bind Sdl.Value.parse? }

/-- Whether the text of a default can be read. -/
def InputValue.isLegible [Runtime] (schema : Schema) (input : InputValue) : Bool :=
  (schema.defaultText? input).all fun text => (Sdl.Value.parse? text).isSome

def Field.retold [Runtime] (schema : Schema) (field : Field) : Field :=
  { field with arguments := field.arguments.map (·.retold schema), directives := [] }

def Shape.retold [Runtime] (schema : Schema) : Shape → Shape
  | .object interfaces fields => .object interfaces (fields.map (·.retold schema))
  | .interface interfaces fields => .interface interfaces (fields.map (·.retold schema))
  | .input fields isOneOf => .input (fields.map (·.retold schema)) isOneOf
  | shape => shape

def NamedType.retold [Runtime] (schema : Schema) (type : NamedType) : NamedType :=
  if type.name ∈ Sdl.BuiltIn.typeNames then type
  else { type with directives := [], shape := type.shape.retold schema }

def NamedType.isLegible [Runtime] (schema : Schema) (type : NamedType) : Bool :=
  Sdl.BuiltIn.typeNames.contains type.name ||
    type.shape.inputValues.all (·.isLegible schema)

def Directive.retold [Runtime] (schema : Schema) (d : Directive) : Directive :=
  { d with arguments := d.arguments.map (·.retold schema) }

end Schema

/-- The schema that the introspection result of a schema is read as. -/
def Schema.retold [Runtime] (schema : Schema) : Schema :=
  { schema with
    types := schema.orderedTypes.map (·.retold schema)
    directives := schema.directives.map (·.retold schema) }

namespace Introspection

namespace Result

open Schema

variable {schema : Schema}

/-- The types of a result by name. -/
def entries [Runtime] (schema : Schema) : Entries Described :=
  schema.orderedTypes.map fun type => (type.name, ⟨type.shape.kind, ofType schema type⟩)

/-- A name of a type that a result lists, of a kind that passes a test. -/
structure Lists (schema : Schema) (test : Sdl.TypeBody.Kind → Bool) (name : String) : Prop where
  mem : name ∈ schema.orderedNames
  kind : schema.isKind test name = true

variable {test : Sdl.TypeBody.Kind → Bool} {name : String}

theorem names_entries [Runtime] (schema : Schema) :
    (entries schema).names = schema.orderedTypes.map (·.name) := by
  rw [entries, Entries.names, List.map_map]
  rfl

theorem Lists.get?_entries [Runtime] (hsound : schema.IsSound) (hlists : Lists schema test name) :
    ∃ type, test type.shape.kind = true ∧
      (entries schema).get? name = some ⟨type.shape.kind, ofType schema type⟩ := by
  obtain ⟨type, htype, hkind⟩ := isKind_iff.1 hlists.kind
  have hmem := mem_orderedTypes_of_type? hlists.mem htype
  have hnodup := hsound.nodup_names_orderedTypes
  rw [← names_entries] at hnodup
  refine ⟨type, hkind, Entries.get?_eq_some_of_mem hnodup ?_⟩
  rw [← name_of_type? htype]
  exact List.mem_map_of_mem hmem

theorem Lists.isSome_get? [Runtime] (hsound : schema.IsSound) (hlists : Lists schema test name) :
    ((entries schema).get? name).isSome = true := by
  obtain ⟨type, -, hget⟩ := hlists.get?_entries hsound
  rw [hget]
  rfl

theorem Lists.isKind [Runtime] (hsound : schema.IsSound) {ref : TypeRef}
    (hlists : Lists schema test ref.base) :
    Introspection.isKind (entries schema) test ref = true := by
  obtain ⟨type, hkind, hget⟩ := hlists.get?_entries hsound
  rw [Introspection.isKind, hget]
  exact hkind

/-! ## Values with defaults -/

theorem defaultOf_ofInput [Runtime] (input : InputValue) :
    defaultOf (ofInput schema input) =
      decided (input.isLegible schema) (input.retold schema).default := by
  have htext : optionalText "defaultValue" (ofInput schema input) =
      .ok (schema.defaultText? input) := optionalText_of_get? rfl
  rw [defaultOf, htext, InputValue.isLegible, InputValue.retold]
  cases schema.defaultText? input with
  | none => rfl
  | some text =>
      rw [ok_bind, Option.all_some, Option.bind_some]
      dsimp only
      cases Sdl.Value.parse? text <;> rfl

/-- An input that the readers take: it is sound, and its type is one of the result. -/
structure Takes [Runtime] (schema : Schema) (input : InputValue) : Prop where
  sound : input.IsSound
  lists : Lists schema (fun kind => kind = .scalar || kind = .enum || kind = .input)
    input.type.base

theorem inputValue_ofInput [Runtime] (hsound : schema.IsSound) {input : InputValue}
    (htakes : Takes schema input) :
    inputValue (entries schema) (ofInput schema input) =
      decided (input.isLegible schema) (input.retold schema) := by
  have hname : part "name" (ofInput schema input) = .ok (.str input.name) := part_of_get? rfl
  have htype : part "type" (ofInput schema input) = .ok (ofRef schema input.type) :=
    part_of_get? rfl
  have hdescription : optionalText "description" (ofInput schema input) = .ok input.description :=
    optionalText_of_get? rfl
  have hdeprecation : optionalText "deprecationReason" (ofInput schema input) =
      .ok input.deprecation := optionalText_of_get? rfl
  rw [inputValue, hname, htype, hdescription, hdeprecation, defaultOf_ofInput]
  change (typeRef (entries schema) (ofRef schema input.type) >>= _) = _
  rw [typeRef_ofRef htakes.sound.type.isProper (htakes.lists.isSome_get? hsound)]
  change (if Introspection.isKind (entries schema) _ input.type = true then _ else _) = _
  rw [if_pos (htakes.lists.isKind hsound)]
  cases input.isLegible schema <;> rfl

theorem inputValuesBy_of_get? [Runtime] {read : Json → Decoded InputValue}
    {inputs : List InputValue}
    {legible : InputValue → Bool} {part : String} {v : Json} (hsound : AreSoundInputs inputs)
    (hget : v.get? part = some (.arr (inputs.map (ofInput schema))))
    (hread : ∀ input ∈ inputs,
      read (ofInput schema input) = decided (legible input) (input.retold schema)) :
    inputValuesBy read part v = decided (inputs.all legible) (inputs.map (·.retold schema)) := by
  have hnames : (inputs.map (·.retold schema)).all (fun value => isName value.name) = true := by
    rw [List.all_map]
    exact List.all_eq_true.2 fun input hinput => (hsound.sound input hinput).name
  have hnodup : ((inputs.map (·.retold schema)).map (·.name)).Nodup := by
    rw [List.map_map]
    exact hsound.nodup
  rw [inputValuesBy, givenItems_of_get? hget]
  change ((inputs.map (ofInput schema)).mapM read >>= _) = _
  rw [mapM_decided hread]
  cases inputs.all legible with
  | false => rfl
  | true =>
      change (if _ then _ else _) = _
      rw [if_pos hnames, values_ofList hnodup, List.map_id']
      rfl

theorem inputValues_of_get? [Runtime] (hsound : schema.IsSound) {inputs : List InputValue}
    {part : String}
    {v : Json} (hinputs : AreSoundInputs inputs) (htakes : ∀ input ∈ inputs, Takes schema input)
    (hget : v.get? part = some (.arr (inputs.map (ofInput schema)))) :
    inputValues (entries schema) part v =
      decided (inputs.all (·.isLegible schema)) (inputs.map (·.retold schema)) :=
  inputValuesBy_of_get? hinputs hget fun input hinput =>
    inputValue_ofInput hsound (htakes input hinput)

/-! ## Fields -/

structure TakesField [Runtime] (schema : Schema) (field : Schema.Field) : Prop where
  sound : field.IsSound
  lists : Lists schema (· ≠ .input) field.type.base
  arguments : ∀ input ∈ field.arguments, Takes schema input

theorem field_ofField [Runtime] (hsound : schema.IsSound) {field : Schema.Field}
    (htakes : TakesField schema field) :
    Introspection.field (entries schema) (ofField schema field) =
      decided (field.arguments.all (·.isLegible schema)) (field.name, field.retold schema) := by
  have hname : nameOf (ofField schema field) = .ok field.name :=
    nameOf_of_get? rfl htakes.sound.name
  have htype : part "type" (ofField schema field) = .ok (ofRef schema field.type) :=
    part_of_get? rfl
  have hdescription : optionalText "description" (ofField schema field) = .ok field.description :=
    optionalText_of_get? rfl
  have hdeprecation : optionalText "deprecationReason" (ofField schema field) =
      .ok field.deprecation := optionalText_of_get? rfl
  rw [Introspection.field, hname, htype, hdescription, hdeprecation,
    inputValues_of_get? hsound htakes.sound.arguments htakes.arguments rfl]
  change (typeRef (entries schema) (ofRef schema field.type) >>= _) = _
  rw [typeRef_ofRef htakes.sound.type.isProper (htakes.lists.isSome_get? hsound)]
  change (if Introspection.isKind (entries schema) _ field.type = true then _ else _) = _
  rw [if_pos (htakes.lists.isKind hsound)]
  cases field.arguments.all (·.isLegible schema) <;> rfl

theorem fields_of_get? [Runtime] (hsound : schema.IsSound) {fields : List Schema.Field} {v : Json}
    (hfields : AreSoundFields fields) (htakes : ∀ field ∈ fields, TakesField schema field)
    (hget : v.get? "fields" = some (.arr (fields.map (ofField schema)))) :
    Introspection.fields (entries schema) v =
      decided (fields.all fun field => field.arguments.all (·.isLegible schema))
        (fields.map (·.retold schema)) := by
  rw [Introspection.fields, givenItems_of_get? hget]
  change ((fields.map (ofField schema)).mapM (Introspection.field (entries schema)) >>= _) = _
  rw [mapM_decided fun field hfield => field_ofField hsound (htakes field hfield)]
  cases fields.all fun field => field.arguments.all (·.isLegible schema) with
  | false => rfl
  | true => exact congrArg Except.ok (values_ofList hfields.nodup)

/-! ## Names in lists -/

theorem namedOfKind_of_typeRef [Runtime] (hsound : schema.IsSound) {kind : Sdl.TypeBody.Kind}
    {v : Json} (hlists : Lists schema (· = kind) name)
    (htype : typeRef (entries schema) v = .ok (.named name)) :
    namedOfKind (entries schema) kind v = .ok name := by
  obtain ⟨type, hkind, hget⟩ := hlists.get?_entries hsound
  rw [namedOfKind, htype]
  change (if ((entries schema).get? name).any _ = true then _ else _) = _
  rw [hget]
  exact if_pos hkind

theorem mapM_namedOfKind [Runtime] (hsound : schema.IsSound) {kind : Sdl.TypeBody.Kind}
    {names : List String} (hnames : ∀ name ∈ names, Lists schema (· = kind) name) :
    (names.map fun name => ofRef schema (.named name)).mapM
      (namedOfKind (entries schema) kind) = .ok names := by
  have hread : ∀ name ∈ names, namedOfKind (entries schema) kind
      (ofRef schema (.named name)) = .ok (id name) := by
    intro name hname
    have hlists := hnames name hname
    have htype := @typeRef_ofRef schema (entries schema) (.named name) trivial
      (hlists.isSome_get? hsound)
    exact namedOfKind_of_typeRef hsound hlists htype
  rw [mapM_ok hread, List.map_id]

theorem root_of_get? [Runtime] (hsound : schema.IsSound) {v : Json} {part : String}
    {root : Option String} (hroot : ∀ name ∈ root, Lists schema (· = .object) name)
    (hget : v.get? part = some (ofRoot root)) :
    Introspection.root (entries schema) part v = .ok root := by
  cases root with
  | none =>
      rw [Introspection.root, Json.given?, hget]
      rfl
  | some name =>
      have hlists := hroot name rfl
      have htype : typeRef (entries schema) (.obj [("name", .str name)]) = .ok (.named name) := by
        rw [typeRef.eq_3 _ _ (by simp [Json.get?, Entries.get?])
          (by simp [Json.get?, Entries.get?])]
        exact if_pos (hlists.isSome_get? hsound)
      rw [Introspection.root, given?_of_get? hget (by simp [ofRoot])]
      change (namedOfKind (entries schema) .object (.obj [("name", .str name)])).map some = _
      rw [namedOfKind_of_typeRef hsound hlists htype]
      rfl

theorem interfaces_of_get? [Runtime] (hsound : schema.IsSound) {kind : Sdl.TypeBody.Kind} {v : Json}
    {names : List String} (hnames : ∀ name ∈ names, Lists schema (· = .interface) name)
    (hget : v.get? "interfaces" = some (ofNames schema names)) :
    Introspection.interfaces (entries schema) ⟨kind, v⟩ = .ok names := by
  have hgiven : v.given? "interfaces" = some (ofNames schema names) :=
    given?_of_get? hget (by simp [ofNames])
  rw [Introspection.interfaces, hgiven, Option.isNone_some, Bool.and_false, givenItems, hgiven]
  exact mapM_namedOfKind hsound hnames

theorem enumValues_of_get? [Runtime] {values : List EnumValue} {v : Json}
    (hvalues : AreSoundValues values)
    (hget : v.get? "enumValues" = some (.arr (values.map ofEnumValue))) :
    Introspection.enumValues v = .ok values := by
  have hread : ∀ value ∈ values,
      Introspection.enumValue (ofEnumValue value) = .ok (value.name, value) := by
    intro value hvalue
    have hname : nameOf (ofEnumValue value) = .ok value.name :=
      nameOf_of_get? rfl (hvalues.sound value hvalue).name
    have hdescription : optionalText "description" (ofEnumValue value) = .ok value.description :=
      optionalText_of_get? rfl
    have hdeprecation : optionalText "deprecationReason" (ofEnumValue value) =
        .ok value.deprecation := optionalText_of_get? rfl
    rw [Introspection.enumValue, hname, hdescription, hdeprecation]
    change (if Sdl.valueWords.contains value.name = true then _ else _) = _
    rw [if_neg fun hword => (hvalues.sound value hvalue).word (List.contains_iff_mem.1 hword)]
    rfl
  rw [Introspection.enumValues, givenItems_of_get? hget]
  change ((values.map ofEnumValue).mapM Introspection.enumValue >>= _) = _
  rw [mapM_ok hread]
  have hself := values_ofList (f := id) hvalues.nodup
  rw [List.map_id] at hself
  exact congrArg Except.ok hself

/-! ## Types -/

/-- What a type refers to is listed by the result, in kinds that fit. -/
def TakesShape [Runtime] (schema : Schema) : Shape → Prop
  | .scalar _ => True
  | .object interfaces fields =>
      (∀ name ∈ interfaces, Lists schema (· = .interface) name) ∧
        ∀ field ∈ fields, TakesField schema field
  | .interface interfaces fields =>
      (∀ name ∈ interfaces, Lists schema (· = .interface) name) ∧
        ∀ field ∈ fields, TakesField schema field
  | .union members => ∀ name ∈ members, Lists schema (· = .object) name
  | .enum _ => True
  | .input fields _ => ∀ input ∈ fields, Takes schema input

theorem shape_ofType [Runtime] (hsound : schema.IsSound) {type : NamedType}
    (hshape : type.shape.IsSound) (htakes : TakesShape schema type.shape) :
    Introspection.shape (entries schema) ⟨type.shape.kind, ofType schema type⟩ =
      decided (type.shape.inputValues.all (·.isLegible schema)) (type.shape.retold schema) := by
  obtain ⟨name, description, directives, shape⟩ := type
  cases shape with
  | scalar url =>
      have hurl : optionalText "specifiedByURL" (ofType schema ⟨name, description, directives,
          .scalar url⟩) = .ok url := optionalText_of_get? rfl
      rw [Introspection.shape]
      change (optionalText "specifiedByURL" _ >>= _) = _
      rw [hurl]
      rfl
  | object interfaces fields =>
      rw [Introspection.shape]
      change (Introspection.interfaces (entries schema) _ >>= _) = _
      rw [interfaces_of_get? hsound htakes.1 rfl]
      change (Introspection.fields (entries schema) _ >>= _) = _
      rw [fields_of_get? hsound hshape htakes.2 rfl, Shape.inputValues, List.all_flatMap]
      cases fields.all fun field => field.arguments.all (·.isLegible schema) <;> rfl
  | interface interfaces fields =>
      rw [Introspection.shape]
      change (Introspection.interfaces (entries schema) _ >>= _) = _
      rw [interfaces_of_get? hsound htakes.1 rfl]
      change (Introspection.fields (entries schema) _ >>= _) = _
      rw [fields_of_get? hsound hshape htakes.2 rfl, Shape.inputValues, List.all_flatMap]
      cases fields.all fun field => field.arguments.all (·.isLegible schema) <;> rfl
  | union members =>
      rw [Introspection.shape]
      change (givenItems "possibleTypes" _ >>= _) = _
      rw [@givenItems_of_get? _ _ (members.map fun name => ofRef schema (.named name)) rfl]
      change (List.mapM (namedOfKind (entries schema) .object) _ >>= _) = _
      rw [mapM_namedOfKind hsound htakes]
      rfl
  | enum values =>
      rw [Introspection.shape]
      change (Introspection.enumValues _ >>= _) = _
      rw [enumValues_of_get? hshape rfl]
      rfl
  | input fields isOneOf =>
      rw [Introspection.shape]
      change (Introspection.inputValues (entries schema) _ _ >>= _) = _
      rw [inputValues_of_get? hsound hshape htakes rfl, Shape.inputValues]
      cases fields.all (·.isLegible schema) with
      | false => rfl
      | true =>
          change Except.ok (Shape.input _ isOneOf) = _
          rfl

theorem described_ofType [Runtime] (hsound : schema.IsSound) {type : NamedType}
    (htype : type ∈ schema.orderedTypes) :
    described (ofType schema type) = .ok (type.name, ⟨type.shape.kind, ofType schema type⟩) := by
  have hname : part "name" (ofType schema type) = .ok (.str type.name) := part_of_get? rfl
  have hkind : part "kind" (ofType schema type) = .ok (.str type.shape.kind.word) :=
    part_of_get? rfl
  have hparts : ((type.shape.kind = .union && !((ofType schema type).given? "possibleTypes").isSome)
      || (type.shape.kind = .enum && !((ofType schema type).given? "enumValues").isSome)
      || (type.shape.kind = .input && !((ofType schema type).given? "inputFields").isSome)) =
        false := by
    obtain ⟨name, description, directives, shape⟩ := type
    cases shape <;> rfl
  rw [described, hname, hkind]
  rw [ok_bind, ok_bind, kindOf?_word]
  change (if _ then _ else _) = _
  rw [hparts, if_neg Bool.false_ne_true]
  dsimp only
  rcases orderedTypes_cases htype with ⟨hbuilt, hmem⟩ | ⟨hown, hmem⟩
  · have hkinds : ∀ type ∈ BuiltIn.types, (type.shape.kind = .scalar || type.shape.kind = .object ||
        type.shape.kind = .enum) = true := by decide
    rw [hbuilt]
    exact if_pos (by simpa using hkinds type hmem)
  · have hsoundType := hsound.types type hmem
    have hdescription : optionalText "description" (ofType schema type) = .ok type.description :=
      optionalText_of_get? rfl
    rw [BuiltIn.type?_eq_none_iff.2 hown, nameOf_of_get? rfl hsoundType.name, hdescription]
    obtain ⟨name, description, directives, shape⟩ := type
    cases shape with
    | scalar url =>
        have hurl : optionalText "specifiedByURL" (ofType schema ⟨name, description, directives,
            .scalar url⟩) = .ok url := optionalText_of_get? rfl
        change (optionalText "specifiedByURL" _ >>= _) = _
        rw [hurl]
        rfl
    | enum values =>
        change (Introspection.enumValues _ >>= _) = _
        rw [enumValues_of_get? hsoundType.shape rfl]
        rfl
    | _ => rfl

theorem namedType_ofType [Runtime] (hsound : schema.IsSound) {type : NamedType}
    (htype : type ∈ schema.orderedTypes)
    (htakes : type ∈ schema.types → TakesShape schema type.shape) :
    anyFault (namedType (entries schema) type.name ⟨type.shape.kind, ofType schema type⟩) =
      decided (type.isLegible schema) (type.retold schema) := by
  rcases orderedTypes_cases htype with ⟨hbuilt, hmem⟩ | ⟨hown, hmem⟩
  · have hname : type.name ∈ Sdl.BuiltIn.typeNames := by
      rw [← BuiltIn.names_types]
      exact List.mem_map_of_mem hmem
    rw [namedType, hbuilt, NamedType.isLegible, NamedType.retold, if_pos hname,
      List.contains_iff_mem.2 hname]
    rfl
  · have hdescription : optionalText "description" (ofType schema type) = .ok type.description :=
      optionalText_of_get? rfl
    have hlegible : Sdl.BuiltIn.typeNames.contains type.name = false := by
      rw [← Bool.not_eq_true, List.contains_iff_mem]
      exact hown
    rw [namedType, BuiltIn.type?_eq_none_iff.2 hown, NamedType.isLegible, NamedType.retold,
      if_neg hown, hlegible, Bool.false_or]
    dsimp only
    rw [shape_ofType hsound (hsound.types type hmem).shape (htakes hmem), hdescription]
    cases type.shape.inputValues.all (·.isLegible schema) <;> rfl

/-! ## Directives -/

theorem location_name (l : Sdl.Location) : location (.str l.name) = .ok l := by
  have hname : (Json.str l.name).text?.bind Sdl.Location.ofName? = some l :=
    Sdl.Location.ofName?_name l
  simp only [location, hname]

/-- Whether an argument of a directive can be read, where `known` has the types. -/
def isTellable [Runtime] (schema known : Schema) (input : InputValue) : Bool :=
  input.isLegible schema && known.canTell Runtime.toldSettlingDepth (input.retold schema)

theorem directiveArgument_ofInput [Runtime] (hsound : schema.IsSound) {input : InputValue}
    (htakes : Takes schema input) (known : Schema) :
    directiveArgument (entries schema) known (ofInput schema input) =
      decided (isTellable schema known input) (input.retold schema) := by
  rw [directiveArgument, inputValue_ofInput hsound htakes, isTellable]
  cases input.isLegible schema <;> rfl

theorem directive_ofDirective [Runtime] (hsound : schema.IsSound) {d : Directive} (hd : d.IsSound)
    (htakes : ∀ input ∈ d.arguments, Takes schema input) (known : Schema) :
    directive (entries schema) known (ofDirective schema d) =
      decided (d.arguments.all (isTellable schema known)) (d.retold schema) := by
  have hname : part "name" (ofDirective schema d) = .ok (.str d.name) := part_of_get? rfl
  have hlocations : givenItems "locations" (ofDirective schema d) =
      .ok ((d.locations.map (·.name)).map .str) := givenItems_of_get? rfl
  have hnamed : nameOf (ofDirective schema d) = .ok d.name := nameOf_of_get? rfl hd.name
  have hrepeats : repeatability (ofDirective schema d) = .ok d.isRepeatable := rfl
  have hdescription : optionalText "description" (ofDirective schema d) = .ok d.description :=
    optionalText_of_get? rfl
  have hdeprecation : optionalText "deprecationReason" (ofDirective schema d) =
      .ok d.deprecation := by
    rw [hd.deprecation]
    rfl
  have hread : ((d.locations.map (·.name)).map Json.str).mapM location = .ok d.locations := by
    have hself : ∀ l ∈ d.locations, location ((Json.str ∘ Sdl.Location.name) l) = .ok (id l) :=
      fun l _ => location_name l
    rw [List.map_map]
    exact (mapM_ok hself).trans (by rw [List.map_id])
  have harguments : inputValuesBy (directiveArgument (entries schema) known) "args"
      (ofDirective schema d) = decided (d.arguments.all (isTellable schema known))
        (d.arguments.map (·.retold schema)) :=
    inputValuesBy_of_get? hd.arguments rfl fun input hinput =>
      directiveArgument_ofInput hsound (htakes input hinput) known
  rw [ofDirective] at *
  rw [directive, hname, hlocations, hnamed, hrepeats, hdescription, hdeprecation, harguments]
  cases d.arguments.all (isTellable schema known) with
  | false => rfl
  | true =>
      change ((List.map Json.str (d.locations.map (·.name))).mapM location >>= _) = _
      rw [hread]
      rfl

/-! ## What a sound schema lists -/

/-- What a type of the schema refers to is listed. -/
theorem lists_of_reference [Runtime] (hsound : schema.IsSound) {type : NamedType}
    (htype : type ∈ schema.types) (hmem : name ∈ type.references)
    (hkind : schema.isKind test name = true) : Lists schema test name := by
  obtain ⟨target, htarget, -⟩ := isKind_iff.1 hkind
  exact ⟨mem_orderedNames_of_reference htype (hsound.type?_of_mem htype) hmem htarget, hkind⟩

/-- The fields of a type whose references are listed can be read. -/
theorem takesField_of_references [Runtime] (hsound : schema.IsSound) {type : NamedType}
    (htype : type ∈ schema.types) {fields : List Schema.Field} (hfields : AreSoundFields fields)
    (hfits : (fields.all fun field => schema.isOutput field.type.base &&
      schema.hasInputArguments field.arguments) = true)
    (hmem : ∀ name ∈ fields.flatMap Schema.Field.references, name ∈ type.references) :
    ∀ field ∈ fields, TakesField schema field := by
  intro field hfield
  have hfit := List.all_eq_true.1 hfits field hfield
  rw [Bool.and_eq_true_iff] at hfit
  have hreferences : ∀ name ∈ field.references, name ∈ type.references := fun name hname =>
    hmem name (List.mem_flatMap.2 ⟨field, hfield, hname⟩)
  refine ⟨hfields.sound field hfield,
    lists_of_reference hsound htype (hreferences _ List.mem_cons_self) hfit.1,
    fun input hinput => ⟨(hfields.sound field hfield).arguments.sound input hinput,
      lists_of_reference hsound htype ?_ (List.all_eq_true.1 hfit.2 input hinput)⟩⟩
  exact hreferences _ (List.mem_cons_of_mem _ (List.mem_map_of_mem hinput))

theorem takesShape_of_mem [Runtime] (hsound : schema.IsSound) {type : NamedType}
    (htype : type ∈ schema.types) : TakesShape schema type.shape := by
  have hfits := hsound.hasFittingReferences htype
  have hshape := (hsound.types type htype).shape
  have hlists := fun {test} {name : String} =>
    @lists_of_reference schema test name _ hsound type htype
  have hfields := fun {fields} => @takesField_of_references schema _ hsound type htype fields
  obtain ⟨own, description, directives, shape⟩ := type
  cases shape with
  | scalar url => trivial
  | object interfaces fields =>
      obtain ⟨hinterfaces, houtputs⟩ := Bool.and_eq_true_iff.1 hfits
      exact ⟨fun name hname => hlists (List.mem_append_left _ hname)
          (List.all_eq_true.1 hinterfaces name hname),
        hfields hshape houtputs fun name hname => List.mem_append_right _ hname⟩
  | interface interfaces fields =>
      obtain ⟨hinterfaces, houtputs⟩ := Bool.and_eq_true_iff.1 hfits
      exact ⟨fun name hname => hlists (List.mem_append_left _ hname)
          (List.all_eq_true.1 hinterfaces name hname),
        hfields hshape houtputs fun name hname => List.mem_append_right _ hname⟩
  | union members =>
      exact fun name hname => hlists hname (List.all_eq_true.1 hfits name hname)
  | enum values => trivial
  | input fields isOneOf =>
      exact fun input hinput => ⟨hshape.sound input hinput,
        hlists (List.mem_map_of_mem hinput) (List.all_eq_true.1 hfits input hinput)⟩

theorem takes_of_argument [Runtime] (hsound : schema.IsSound) {d : Directive}
    (hd : d ∈ schema.directives)
    {input : InputValue} (hinput : input ∈ d.arguments) : Takes schema input := by
  have hkind := hsound.isInput_of_argument hd hinput
  obtain ⟨type, htype, -⟩ := isKind_iff.1 hkind
  exact ⟨(hsound.directives d hd).arguments.sound input hinput,
    mem_orderedNames_of_argument hd hinput htype, hkind⟩

theorem lists_of_root [Runtime] (hsound : schema.IsSound) (hname : name ∈ schema.roots.names) :
    Lists schema (· = .object) name := by
  have hkind := hsound.roots name hname
  obtain ⟨type, htype, -⟩ := isKind_iff.1 hkind
  exact ⟨mem_orderedNames_of_root hname htype, hkind⟩

/-! ## Schemas -/

theorem mapM_described [Runtime] (hsound : schema.IsSound) :
    (schema.orderedTypes.map (ofType schema)).mapM described = .ok (entries schema) :=
  mapM_ok fun _ htype => described_ofType hsound htype

theorem ofList_entries [Runtime] (hsound : schema.IsSound) :
    Entries.ofList (entries schema) = entries schema := by
  apply Entries.ofList_eq_self
  rw [names_entries]
  exact hsound.nodup_names_orderedTypes

theorem namedTypes_entries [Runtime] (hsound : schema.IsSound) :
    (entries schema).map (fun (name, type) => anyFault (namedType (entries schema) name type)) =
      schema.orderedTypes.map fun type =>
        decided (type.isLegible schema) (type.retold schema) := by
  rw [entries, List.map_map]
  apply List.map_congr_left
  intro type htype
  exact namedType_ofType hsound htype (takesShape_of_mem hsound)

theorem directives_of_get? [Runtime] (hsound : schema.IsSound) {v : Json} (known : Schema)
    (hget : v.get? "directives" = some (.arr (schema.directives.map (ofDirective schema)))) :
    Introspection.directives (entries schema) known v =
      decided (schema.directives.all fun d => d.arguments.all (isTellable schema known))
        (schema.directives.map (·.retold schema)) := by
  have hread := mapM_decided fun d hd => directive_ofDirective hsound (hsound.directives d hd)
    (fun input hinput => takes_of_argument hsound hd hinput) known
  rw [Introspection.directives, hget]
  cases hall : schema.directives with
  | nil => rfl
  | cons first rest =>
      rw [← hall]
      change (if _ then _ else _) = _
      rw [if_pos (by rw [hall]; rfl)]
      exact hread

/-- Whether the introspection result of a schema can be read: the texts of its defaults can, each
default of a directive is told by itself, and the input objects can be settled. -/
def isTold [Runtime] (schema : Schema) : Bool :=
  schema.orderedTypes.all (·.isLegible schema) &&
    (schema.directives.all fun d => d.arguments.all
      (isTellable schema { types := schema.retold.types, directives := [] })) &&
    (schema.retold.settledInputs? Runtime.toldSettlingDepth).isSome

theorem read_ofSchema [Runtime] (hsound : schema.IsSound) :
    read (ofSchema schema) = decided (isTold schema) schema.retold := by
  have hroot : ∀ {part : String} {root : Option String},
      (∀ name ∈ root, name ∈ schema.roots.names) → ∀ {v : Json}, v.get? part = some (ofRoot root) →
        Introspection.root (entries schema) part v = .ok root := fun hroot _ hget =>
    root_of_get? hsound (fun name hname => lists_of_root hsound (hroot name hname)) hget
  have hquery : ∀ name ∈ schema.roots.query, name ∈ schema.roots.names := by
    intro name hname
    exact List.mem_append_left _ (List.mem_append_left _ (Option.mem_toList.2 hname))
  have hmutation : ∀ name ∈ schema.roots.mutation, name ∈ schema.roots.names := by
    intro name hname
    exact List.mem_append_left _ (List.mem_append_right _ (Option.mem_toList.2 hname))
  have hsubscription : ∀ name ∈ schema.roots.subscription, name ∈ schema.roots.names := by
    intro name hname
    exact List.mem_append_right _ (Option.mem_toList.2 hname)
  change schemaOf _ = _
  rw [schemaOf, @givenItems_of_get? _ _ (schema.orderedTypes.map (ofType schema)) rfl,
    ok_bind, mapM_described hsound, ok_bind]
  dsimp only
  rw [ofList_entries hsound, hroot hquery rfl, hroot hmutation rfl, hroot hsubscription rfl,
    ok_bind, ok_bind, ok_bind, namedTypes_entries hsound, directives_of_get? hsound _ rfl,
    @optionalText_of_get? _ _ schema.description rfl]
  have htypes : (schema.orderedTypes.map fun type =>
      decided (type.isLegible schema) (type.retold schema)).mapM id =
        decided (schema.orderedTypes.all (·.isLegible schema))
          (schema.orderedTypes.map (·.retold schema)) := mapM_decided fun _ _ => rfl
  rw [htypes]
  cases hlegible : schema.orderedTypes.all (·.isLegible schema) with
  | false =>
      rw [isTold, hlegible, Bool.false_and, Bool.false_and]
      cases schema.directives.all _ <;> rfl
  | true =>
      rw [filterMap_decided (List.all_eq_true.1 hlegible), isTold, hlegible, Bool.true_and]
      change (decided (schema.directives.all fun d => d.arguments.all
        (isTellable schema { types := schema.retold.types, directives := [] })) _ >>= _) = _
      cases schema.directives.all fun d => d.arguments.all
        (isTellable schema { types := schema.retold.types, directives := [] }) <;> rfl

end Result

end Introspection

end ConfigSchema
