import ConfigSchema.Proofs.DocumentSchemas
import ConfigSchema.Proofs.FirstDefinitions
import ConfigSchema.Proofs.ReadResults
import ConfigSchema.Sources.Loading

/-!
# Documents of schemas

The document of a sound schema is made part by part, and only a default can keep a part from being
written.  A schema of that document has the types of the schema again, in their order, with the
directives that tell of deprecations and specifications as the only ones that are applied.
-/

namespace ConfigSchema

section

variable {α β ε : Type}

theorem mapM_eq_ok_iff {f : α → Except ε β} {g : α → β} {p : α → Prop} {items : List α}
    (hitems : ∀ a ∈ items, ∀ b, f a = .ok b ↔ p a ∧ b = g a) {made : List β} :
    items.mapM f = .ok made ↔ (∀ a ∈ items, p a) ∧ made = items.map g := by
  induction items generalizing made with
  | nil => simp [pure, Except.pure, eq_comm]
  | cons first rest ih =>
      have hrest := fun {made} => @ih (fun a ha => hitems a (List.mem_cons_of_mem _ ha)) made
      rw [List.mapM_cons, List.forall_mem_cons, List.map_cons]
      constructor
      · intro hmade
        cases hfirst : f first with
        | error e =>
            rw [hfirst] at hmade
            cases hmade
        | ok b =>
            cases hothers : rest.mapM f with
            | error e =>
                rw [hfirst, hothers] at hmade
                cases hmade
            | ok others =>
                rw [hfirst, hothers] at hmade
                obtain ⟨hp, rfl⟩ := (hitems first List.mem_cons_self b).1 hfirst
                obtain ⟨hall, rfl⟩ := hrest.1 hothers
                cases hmade
                exact ⟨⟨hp, hall⟩, rfl⟩
      · rintro ⟨⟨hp, hall⟩, rfl⟩
        rw [(hitems first List.mem_cons_self _).2 ⟨hp, rfl⟩, hrest.2 ⟨hall, rfl⟩]
        rfl

theorem map_eq_ok_iff {f : α → β} {result : Except ε α} {made : β} :
    result.map f = .ok made ↔ ∃ a, result = .ok a ∧ made = f a := by
  cases result with
  | error e => simp [Except.map]
  | ok a => simp [Except.map, eq_comm]

theorem mapM_eq_some {f : α → Option β} {g : α → β} {items : List α}
    (hitems : ∀ a ∈ items, f a = some (g a)) : items.mapM f = some (items.map g) := by
  induction items with
  | nil => rfl
  | cons first rest ih =>
      rw [List.mapM_cons, hitems first List.mem_cons_self,
        ih fun a ha => hitems a (List.mem_cons_of_mem _ ha)]
      rfl

end

theorem TypeRef.IsWritable.layers_le [Runtime] {ref : TypeRef} (href : ref.IsWritable) :
    ref.layers ≤ Runtime.toldLayers := by
  have hlayers := href.isProper.layers_le
  have hdepth := href.listDepth_le
  have hmark : (if ref.isRequired then 1 else 0) ≤ 1 := by split <;> omega
  have htold := Runtime.parsed_le_told
  omega

namespace Introspection

namespace Document

open Schema

variable (schema : Schema) (settled : Settled)

/-! ## Parts of documents -/

/-- Whether a default, if there is one that fits, has a literal. -/
def HasDefault (input : InputValue) : Prop :=
  (defaultOf schema settled input).isOk = true

def printedDefault (input : InputValue) : Option Sdl.Value :=
  match defaultOf schema settled input with
  | .ok value => value
  | .error _ => none

def printedInput (input : InputValue) : Sdl.InputValue :=
  { description := descriptionOf input.description, name := input.name, type := input.type
    default := printedDefault schema settled input, directives := deprecationOf input.deprecation }

/-- Arguments without their descriptions if all of these are empty. -/
def describedInputs (inputs : List InputValue) : List InputValue :=
  if inputs.any fun input => input.description.any (· ≠ "") then inputs
  else inputs.map fun input => { input with description := none }

def printedArguments (inputs : List InputValue) : List Sdl.InputValue :=
  (describedInputs inputs).map (printedInput schema settled)

def printedField (field : Schema.Field) : Sdl.FieldDefinition :=
  { description := descriptionOf field.description, name := field.name
    arguments := printedArguments schema settled field.arguments, type := field.type
    directives := deprecationOf field.deprecation }

def printedBody : Shape → Sdl.TypeBody
  | .scalar _ => .scalar
  | .object interfaces fields => .object interfaces (fields.map (printedField schema settled))
  | .interface interfaces fields =>
      .interface interfaces (fields.map (printedField schema settled))
  | .union members => .union members
  | .enum values => .enum (values.map enumValue)
  | .input fields _ => .input (fields.map (printedInput schema settled))

def printedNode (type : NamedType) : Sdl.TypeNode :=
  { name := type.name, directives := directivesOf type.shape
    body := printedBody schema settled type.shape }

def printedType (type : NamedType) : Sdl.Definition :=
  .type (descriptionOf type.description) (printedNode schema settled type)

def printedDirective (d : Schema.Directive) : Sdl.DirectiveDefinition :=
  { description := descriptionOf d.description, name := d.name
    arguments := printedArguments schema settled d.arguments, isRepeatable := d.isRepeatable
    locations := d.locations }

variable {schema settled}

theorem defaultOf_eq_ok_iff {input : InputValue} {value : Option Sdl.Value} :
    defaultOf schema settled input = .ok value ↔
      HasDefault schema settled input ∧ value = printedDefault schema settled input := by
  rw [HasDefault, printedDefault]
  cases defaultOf schema settled input with
  | ok found => simp [Except.isOk, Except.toBool, eq_comm]
  | error e => simp [Except.isOk, Except.toBool]

theorem typeOf_eq_ok [Runtime] {ref : TypeRef} (href : ref.IsWritable) : typeOf ref = .ok ref :=
  if_neg (Nat.not_lt.2 href.layers_le)

theorem inputValue_eq_ok_iff [Runtime] {input : InputValue} (hsound : input.IsSound)
    {made : Sdl.InputValue} :
    inputValue schema settled input = .ok made ↔
      HasDefault schema settled input ∧ made = printedInput schema settled input := by
  rw [inputValue, typeOf_eq_ok hsound.type]
  cases hdefault : defaultOf schema settled input with
  | error e =>
      constructor
      · intro hmade
        cases hmade
      · rintro ⟨hhas, -⟩
        rw [HasDefault, hdefault] at hhas
        cases hhas
  | ok value =>
      obtain ⟨hhas, rfl⟩ := defaultOf_eq_ok_iff.1 hdefault
      constructor
      · intro hmade
        cases hmade
        exact ⟨hhas, rfl⟩
      · rintro ⟨-, rfl⟩
        rfl

theorem arguments_eq_ok_iff [Runtime] {inputs : List InputValue}
    (hsound : ∀ input ∈ inputs, input.IsSound) {made : List Sdl.InputValue} :
    arguments schema settled inputs = .ok made ↔
      (∀ input ∈ inputs, HasDefault schema settled input) ∧
        made = printedArguments schema settled inputs := by
  rw [arguments, printedArguments, describedInputs]
  split
  · exact mapM_eq_ok_iff fun input hinput made => inputValue_eq_ok_iff (hsound input hinput)
  · rw [List.map_map]
    refine mapM_eq_ok_iff fun input hinput made => ?_
    have hsame : InputValue.IsSound { input with description := none } :=
      { hsound input hinput with description := isPlainText_none }
    exact inputValue_eq_ok_iff hsame

theorem field_eq_ok_iff [Runtime] {f : Schema.Field} (hsound : f.IsSound)
    {made : Sdl.FieldDefinition} :
    field schema settled f = .ok made ↔
      (∀ input ∈ f.arguments, HasDefault schema settled input) ∧
        made = printedField schema settled f := by
  have harguments := fun {made} =>
    @arguments_eq_ok_iff schema settled _ f.arguments hsound.arguments.sound made
  rw [field, typeOf_eq_ok hsound.type]
  cases hwritten : arguments schema settled f.arguments with
  | error e =>
      constructor
      · intro hmade
        cases hmade
      · rintro ⟨hhas, -⟩
        rw [harguments.2 ⟨hhas, rfl⟩] at hwritten
        cases hwritten
  | ok inputs =>
      obtain ⟨hhas, rfl⟩ := harguments.1 hwritten
      constructor
      · intro hmade
        cases hmade
        exact ⟨hhas, rfl⟩
      · rintro ⟨-, rfl⟩
        rfl

theorem body_eq_ok_iff [Runtime] {shape : Shape} (hsound : shape.IsSound) {made : Sdl.TypeBody} :
    body schema settled shape = .ok made ↔
      (∀ input ∈ shape.inputValues, HasDefault schema settled input) ∧
        made = printedBody schema settled shape := by
  have hfields : ∀ {fields : List Schema.Field} (_ : AreSoundFields fields)
      {others : List Sdl.FieldDefinition}, fields.mapM (field schema settled) = .ok others ↔
        (∀ input ∈ fields.flatMap (·.arguments), HasDefault schema settled input) ∧
          others = fields.map (printedField schema settled) := by
    intro fields hfields others
    rw [mapM_eq_ok_iff fun f hf made => field_eq_ok_iff (hfields.sound f hf)]
    simp only [List.mem_flatMap, forall_exists_index, and_imp]
    exact and_congr_left' ⟨fun hall input f hf hinput => hall f hf input hinput,
      fun hall f hf input hinput => hall input f hf hinput⟩
  cases shape with
  | object interfaces fields =>
      rw [body, map_eq_ok_iff]
      constructor
      · rintro ⟨others, hothers, rfl⟩
        obtain ⟨hhas, rfl⟩ := (hfields hsound).1 hothers
        exact ⟨hhas, rfl⟩
      · rintro ⟨hhas, rfl⟩
        exact ⟨_, (hfields hsound).2 ⟨hhas, rfl⟩, rfl⟩
  | interface interfaces fields =>
      rw [body, map_eq_ok_iff]
      constructor
      · rintro ⟨others, hothers, rfl⟩
        obtain ⟨hhas, rfl⟩ := (hfields hsound).1 hothers
        exact ⟨hhas, rfl⟩
      · rintro ⟨hhas, rfl⟩
        exact ⟨_, (hfields hsound).2 ⟨hhas, rfl⟩, rfl⟩
  | input fields isOneOf =>
      have hinputs : ∀ {others : List Sdl.InputValue},
          fields.mapM (inputValue schema settled) = .ok others ↔
            (∀ input ∈ fields, HasDefault schema settled input) ∧
              others = fields.map (printedInput schema settled) :=
        mapM_eq_ok_iff fun input hinput made => inputValue_eq_ok_iff (hsound.sound input hinput)
      rw [body, map_eq_ok_iff]
      constructor
      · rintro ⟨others, hothers, rfl⟩
        obtain ⟨hhas, rfl⟩ := hinputs.1 hothers
        exact ⟨hhas, rfl⟩
      · rintro ⟨hhas, rfl⟩
        exact ⟨_, hinputs.2 ⟨hhas, rfl⟩, rfl⟩
  | _ => simp [body, printedBody, Shape.inputValues, eq_comm]

theorem type_eq_ok_iff [Runtime] {t : NamedType} (hsound : t.shape.IsSound)
    {made : Sdl.Definition} :
    type schema settled t = .ok made ↔
      (∀ input ∈ t.shape.inputValues, HasDefault schema settled input) ∧
        made = printedType schema settled t := by
  rw [type, map_eq_ok_iff]
  constructor
  · rintro ⟨made, hmade, rfl⟩
    obtain ⟨hhas, rfl⟩ := (body_eq_ok_iff hsound).1 hmade
    exact ⟨hhas, rfl⟩
  · rintro ⟨hhas, rfl⟩
    exact ⟨_, (body_eq_ok_iff hsound).2 ⟨hhas, rfl⟩, rfl⟩

theorem directive_eq_ok_iff [Runtime] {d : Schema.Directive} (hsound : AreSoundInputs d.arguments)
    {made : Sdl.Definition} :
    directive schema settled d = .ok made ↔
      (∀ input ∈ d.arguments, HasDefault schema settled input) ∧
        made = .directive (printedDirective schema settled d) := by
  rw [directive, map_eq_ok_iff]
  constructor
  · rintro ⟨made, hmade, rfl⟩
    obtain ⟨hhas, rfl⟩ := (arguments_eq_ok_iff hsound.sound).1 hmade
    exact ⟨hhas, rfl⟩
  · rintro ⟨hhas, rfl⟩
    exact ⟨_, (arguments_eq_ok_iff hsound.sound).2 ⟨hhas, rfl⟩, rfl⟩

/-! ## Whole documents -/

/-- The input objects of a schema with the constants of their defaults, as they are settled when
its introspection result is read. -/
def settledOf [Runtime] (schema : Schema) : Settled :=
  (schema.settledInputs? Runtime.toldSettlingDepth).getD []

/-- The types that are written: all but the built-in ones. -/
def ownTypes (schema : Schema) : List NamedType :=
  schema.types.filter fun type => !Sdl.BuiltIn.typeNames.contains type.name

def printedDefinitions [Runtime] (schema : Schema) : List Sdl.Definition :=
  schemaDefinition schema ++
    (ownDirectives schema).map (fun d => .directive (printedDirective schema (settledOf schema) d))
    ++ (ownTypes schema).map (printedType schema (settledOf schema))

/-- A schema whose parts can be written but for their defaults. -/
structure HasSoundParts [Runtime] (schema : Schema) : Prop where
  directives : ∀ d ∈ ownDirectives schema, AreSoundInputs d.arguments
  types : ∀ type ∈ ownTypes schema, type.shape.IsSound

/-- Every default that is written has a literal. -/
structure HasDefaults [Runtime] (schema : Schema) : Prop where
  directives : ∀ d ∈ ownDirectives schema, ∀ input ∈ d.arguments,
    HasDefault schema (settledOf schema) input
  types : ∀ type ∈ ownTypes schema, ∀ input ∈ type.shape.inputValues,
    HasDefault schema (settledOf schema) input

theorem definitions_eq_ok_iff [Runtime] (hparts : HasSoundParts schema)
    {made : List Sdl.Definition} :
    definitions schema = .ok made ↔ HasDefaults schema ∧ made = printedDefinitions schema := by
  have hdirectives : ∀ {made : List Sdl.Definition},
      (ownDirectives schema).mapM (directive schema (settledOf schema)) = .ok made ↔
        (∀ d ∈ ownDirectives schema, ∀ input ∈ d.arguments,
          HasDefault schema (settledOf schema) input) ∧
        made = (ownDirectives schema).map fun d =>
          .directive (printedDirective schema (settledOf schema) d) :=
    mapM_eq_ok_iff fun d hd made => directive_eq_ok_iff (hparts.directives d hd)
  have htypes : ∀ {made : List Sdl.Definition},
      (ownTypes schema).mapM (type schema (settledOf schema)) = .ok made ↔
        (∀ t ∈ ownTypes schema, ∀ input ∈ t.shape.inputValues,
          HasDefault schema (settledOf schema) input) ∧
        made = (ownTypes schema).map (printedType schema (settledOf schema)) :=
    mapM_eq_ok_iff fun t ht made => type_eq_ok_iff (hparts.types t ht)
  have hmade : definitions schema =
      ((ownDirectives schema).mapM (directive schema (settledOf schema)) >>= fun directives =>
        (ownTypes schema).mapM (type schema (settledOf schema)) >>= fun types =>
          pure (schemaDefinition schema ++ directives ++ types)) := rfl
  rw [hmade]
  constructor
  · intro hok
    cases hd : (ownDirectives schema).mapM (directive schema (settledOf schema)) with
    | error e =>
        rw [hd] at hok
        cases hok
    | ok directives =>
        cases ht : (ownTypes schema).mapM (type schema (settledOf schema)) with
        | error e =>
            rw [hd, ht] at hok
            cases hok
        | ok types =>
            rw [hd, ht] at hok
            obtain ⟨hwritten, rfl⟩ := hdirectives.1 hd
            obtain ⟨hall, rfl⟩ := htypes.1 ht
            cases hok
            exact ⟨⟨hwritten, hall⟩, rfl⟩
  · rintro ⟨hall, rfl⟩
    rw [hdirectives.2 ⟨hall.directives, rfl⟩, htypes.2 ⟨hall.types, rfl⟩]
    rfl

end Document

end Introspection

/-! ## Merging -/

namespace Introspection

namespace Document

open Schema Sources

variable {schema : Schema}

/-- The directives that are written behind the marks. -/
def unmarkedDirectives (schema : Schema) : List Schema.Directive :=
  (ownDirectives schema).filter fun d => d.name ∉ [docsDirective, openDirective]

/-- What the merge of the marks and the document of a schema comes to. -/
def mergedDocument [Runtime] (schema : Schema) : Sdl.Document :=
  marks ++ (schemaDefinition schema ++
    (unmarkedDirectives schema).map (fun d =>
      .directive (printedDirective schema (settledOf schema) d)) ++
    (ownTypes schema).map (printedType schema (settledOf schema)))

theorem schemaDefinition_cases (schema : Schema) :
    schemaDefinition schema = [] ∨
      schemaDefinition schema =
        [.schema (descriptionOf schema.description) [] (operations schema.roots)] := by
  unfold schemaDefinition
  split
  · exact .inl rfl
  · exact .inr rfl

/-- The names of directives and of types are different. -/
structure HasDistinctNames (schema : Schema) : Prop where
  directives : ((ownDirectives schema).map (·.name)).Nodup
  types : ((ownTypes schema).map (·.name)).Nodup

theorem firsts_printedDefinitions [Runtime] (hnames : HasDistinctNames schema) :
    Sdl.firsts (printedDefinitions schema) = printedDefinitions schema := by
  have hdirectives : ((ownDirectives schema).map fun d =>
      Sdl.Definition.directive (printedDirective schema (settledOf schema) d)).Pairwise
        fun one other => Sdl.haveSameTitle other one = false := by
    rw [List.pairwise_map]
    refine (List.pairwise_map.1 hnames.directives).imp fun hne => ?_
    exact decide_eq_false (Ne.symm hne)
  have htypes : ((ownTypes schema).map (printedType schema (settledOf schema))).Pairwise
      fun one other => Sdl.haveSameTitle other one = false := by
    rw [List.pairwise_map]
    refine (List.pairwise_map.1 hnames.types).imp fun hne => ?_
    exact decide_eq_false (Ne.symm hne)
  apply Sdl.firsts_eq_self
  rw [printedDefinitions, List.append_assoc]
  refine List.pairwise_append.2 ⟨?_, List.pairwise_append.2 ⟨hdirectives, htypes, ?_⟩, ?_⟩
  · rcases schemaDefinition_cases schema with hnone | hone
    · rw [hnone]
      exact .nil
    · rw [hone]
      exact List.pairwise_singleton _ _
  · intro one hone other hother
    obtain ⟨d, -, rfl⟩ := List.mem_map.1 hone
    obtain ⟨t, -, rfl⟩ := List.mem_map.1 hother
    rfl
  · intro one hone other hother
    rcases schemaDefinition_cases schema with hnone | hsome
    · rw [hnone] at hone
      contradiction
    · rw [hsome, List.mem_singleton] at hone
      subst hone
      cases other <;> rfl

theorem firsts_marks_append [Runtime] (hnames : HasDistinctNames schema) :
    Sdl.firsts (marks ++ printedDefinitions schema) = mergedDocument schema := by
  have hmarks : Sdl.firsts marks = marks := by rfl
  have hdirectives : ∀ d : Schema.Directive,
      marks.any (Sdl.haveSameTitle (.directive (printedDirective schema (settledOf schema) d))) =
        decide (d.name ∈ [docsDirective, openDirective]) := by
    intro d
    simp [marks, Sdl.haveSameTitle, printedDirective]
  have htypes : ∀ t : NamedType,
      marks.any (Sdl.haveSameTitle (printedType schema (settledOf schema) t)) = false := by
    intro t
    rfl
  rw [Sdl.firsts_append_eq, hmarks, firsts_printedDefinitions hnames, mergedDocument,
    printedDefinitions, List.filter_append, List.filter_append]
  congr 2
  · congr 1
    · rw [List.filter_eq_self]
      intro definition hdefinition
      rcases schemaDefinition_cases schema with hnone | hsome
      · rw [hnone] at hdefinition
        contradiction
      · rw [hsome, List.mem_singleton] at hdefinition
        subst hdefinition
        rfl
    · rw [List.filter_map, unmarkedDirectives]
      congr 1
      apply List.filter_congr
      intro d _
      rw [Function.comp_apply, hdirectives d, decide_not]
  · rw [List.filter_eq_self]
    intro definition hdefinition
    obtain ⟨t, -, rfl⟩ := List.mem_map.1 hdefinition
    rw [htypes t]
    rfl

end Document

end Introspection

end ConfigSchema
