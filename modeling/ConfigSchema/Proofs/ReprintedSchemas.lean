import ConfigSchema.Proofs.PrintedSchemas

/-!
# Schemas of written documents

The document of a schema, behind the marks, stands for the schema again: its own types in order
with their normal defaults, and its directives between the marks and the built-in ones.  Applied
directives tell of deprecations and specifications and of nothing else.
-/

namespace ConfigSchema

namespace Introspection.Document

open Schema

variable {schema : Schema} {settled : Settled}

/-! ## Reading parts -/

@[simp] theorem textOf_descriptionOf (text : Option String) :
    textOf (descriptionOf text) = text := by
  cases text <;> rfl

theorem deprecation?_deprecationOf (reason : Option String) :
    deprecation? (deprecationOf reason) = some reason := by
  cases reason with
  | none => rfl
  | some reason =>
      rw [deprecationOf]
      split
      · next heq =>
          rw [heq]
          rfl
      · rfl

theorem specifiedBy?_directivesOf (url : Option String) :
    specifiedBy? (directivesOf (.scalar url)) = some url := by
  cases url <;> rfl

end Introspection.Document

namespace Schema

open Introspection.Document

/-- A value with its default in the normal form. -/
def InputValue.reprinted [Runtime] (schema : Schema) (input : InputValue) : InputValue :=
  { input with default := printedDefault schema (settledOf schema) input }

def Field.reprinted [Runtime] (schema : Schema) (field : Field) : Field :=
  { field with
    arguments := (describedInputs field.arguments).map (·.reprinted schema)
    directives := (deprecationOf field.deprecation).map (·.name) }

def Shape.reprinted [Runtime] (schema : Schema) : Shape → Shape
  | .object interfaces fields => .object interfaces (fields.map (·.reprinted schema))
  | .interface interfaces fields => .interface interfaces (fields.map (·.reprinted schema))
  | .input fields isOneOf => .input (fields.map (·.reprinted schema)) isOneOf
  | shape => shape

def NamedType.reprinted [Runtime] (schema : Schema) (type : NamedType) : NamedType :=
  { type with
    directives := (directivesOf type.shape).map (·.name), shape := type.shape.reprinted schema }

def Directive.reprinted [Runtime] (schema : Schema) (d : Directive) : Directive :=
  { d with
    arguments := (describedInputs d.arguments).map (·.reprinted schema), deprecation := none }

/-- The directives that mark types, as every schema defines them. -/
def markDirectives : List Directive :=
  Sources.marks.directiveDefinitions.filterMap directive?

/-- The directives that need no definition. -/
def BuiltIn.directives : List Directive :=
  Sdl.BuiltIn.directives.filterMap directive?

variable {schema : Schema}

theorem inputValue?_printedInput [Runtime] (input : InputValue) :
    inputValue? (printedInput schema (settledOf schema) input) =
      some (input.reprinted schema) := by
  rw [inputValue?]
  change (deprecation? (deprecationOf input.deprecation)).map _ = _
  rw [deprecation?_deprecationOf, Option.map_some]
  change some { input.reprinted schema with
    description := textOf (Introspection.Document.descriptionOf input.description) } = _
  rw [textOf_descriptionOf]
  rfl

theorem mapM_inputValue?_printedArguments [Runtime] (inputs : List InputValue) :
    (printedArguments schema (settledOf schema) inputs).mapM inputValue? =
      some ((describedInputs inputs).map (·.reprinted schema)) := by
  rw [printedArguments, List.mapM_map]
  exact mapM_eq_some fun input _ => inputValue?_printedInput input

theorem field?_printedField [Runtime] (field : Field) :
    field? (printedField schema (settledOf schema) field) = some (field.reprinted schema) := by
  rw [field?]
  change ((printedArguments schema (settledOf schema) field.arguments).mapM inputValue? >>= _) = _
  rw [mapM_inputValue?_printedArguments]
  change (deprecation? (deprecationOf field.deprecation) >>= _) = _
  rw [deprecation?_deprecationOf]
  change some { field.reprinted schema with
    description := textOf (Introspection.Document.descriptionOf field.description) } = _
  rw [textOf_descriptionOf]
  rfl

theorem enumValue?_enumValue (value : EnumValue) :
    enumValue? (Introspection.Document.enumValue value) = some value := by
  rw [enumValue?]
  change (deprecation? (deprecationOf value.deprecation)).map _ = _
  rw [deprecation?_deprecationOf, Option.map_some]
  change some { value with
    description := textOf (Introspection.Document.descriptionOf value.description) } = _
  rw [textOf_descriptionOf]

theorem shape?_printedBody [Runtime] (shape : Shape) :
    shape? (directivesOf shape) (printedBody schema (settledOf schema) shape) =
      some (shape.reprinted schema) := by
  cases shape with
  | scalar url =>
      change (specifiedBy? (directivesOf (.scalar url))).map _ = _
      rw [specifiedBy?_directivesOf]
      rfl
  | object interfaces fields =>
      change ((fields.map (printedField schema (settledOf schema))).mapM field?).map _ = _
      rw [List.mapM_map, mapM_eq_some (f := field? ∘ _) fun field _ => field?_printedField field]
      rfl
  | interface interfaces fields =>
      change ((fields.map (printedField schema (settledOf schema))).mapM field?).map _ = _
      rw [List.mapM_map, mapM_eq_some (f := field? ∘ _) fun field _ => field?_printedField field]
      rfl
  | union members => rfl
  | enum values =>
      change ((values.map Introspection.Document.enumValue).mapM enumValue?).map _ = _
      rw [List.mapM_map, mapM_eq_some (f := enumValue? ∘ _) (g := id) fun value _ =>
          enumValue?_enumValue value,
        List.map_id]
      rfl
  | input fields isOneOf =>
      change ((fields.map (printedInput schema (settledOf schema))).mapM inputValue?).map _ = _
      rw [List.mapM_map, mapM_eq_some (f := inputValue? ∘ _) fun input _ =>
        inputValue?_printedInput input]
      cases isOneOf <;> rfl

theorem directive?_printedDirective [Runtime] (d : Directive) :
    directive? (printedDirective schema (settledOf schema) d) = some (d.reprinted schema) := by
  rw [directive?]
  change ((printedArguments schema (settledOf schema) d.arguments).mapM inputValue?).map _ = _
  rw [mapM_inputValue?_printedArguments, Option.map_some]
  change some { d.reprinted schema with
    description := textOf (Introspection.Document.descriptionOf d.description) } = _
  rw [textOf_descriptionOf]
  rfl

end Schema

/-! ## What the document holds -/

namespace Introspection.Document

open Schema

variable {schema : Schema}

theorem filterMap_mergedDocument [Runtime] {β : Type} {f : Sdl.Definition → Option β}
    (hnone : ∀ description directives operations,
      f (.schema description directives operations) = none) (schema : Schema) :
    (mergedDocument schema).filterMap f = Sources.marks.filterMap f ++
      ((unmarkedDirectives schema).filterMap (fun d =>
        f (.directive (printedDirective schema (settledOf schema) d))) ++
      (ownTypes schema).filterMap fun type =>
        f (printedType schema (settledOf schema) type)) := by
  have hschema : (schemaDefinition schema).filterMap f = [] := by
    rcases schemaDefinition_cases schema with hnil | hone
    · rw [hnil]
      rfl
    · rw [hone, List.filterMap_cons, hnone]
      rfl
  rw [mergedDocument, List.filterMap_append, List.filterMap_append, List.filterMap_append, hschema,
    List.nil_append, List.filterMap_map, List.filterMap_map]
  rfl

theorem typeDefinitions_mergedDocument [Runtime] (schema : Schema) :
    Sdl.typeDefinitions (mergedDocument schema) = (ownTypes schema).map fun type =>
      (descriptionOf type.description, printedNode schema (settledOf schema) type) := by
  have hnone : (unmarkedDirectives schema).filterMap (fun _ =>
      (none : Option (Option Sdl.Literal × Sdl.TypeNode))) = [] :=
    List.filterMap_eq_nil_iff.2 fun _ _ => rfl
  rw [Sdl.typeDefinitions, filterMap_mergedDocument fun _ _ _ => rfl]
  change [] ++ ((unmarkedDirectives schema).filterMap (fun _ => none) ++ _) = _
  rw [hnone]
  exact congrFun List.filterMap_eq_map (ownTypes schema)

theorem extensionsOf_mergedDocument [Runtime] (schema : Schema) (name : String) :
    extensionsOf (mergedDocument schema) name = [] := by
  rw [extensionsOf, List.filterMap_eq_nil_iff]
  intro definition hdefinition
  rw [mergedDocument, List.mem_append, List.mem_append, List.mem_append] at hdefinition
  rcases hdefinition with hmark | (hschema | hdirective) | htype
  · rcases List.mem_cons.1 hmark with rfl | hmark
    · rfl
    · rw [List.mem_singleton.1 hmark]
  · rcases schemaDefinition_cases schema with hnil | hone
    · rw [hnil] at hschema
      contradiction
    · rw [hone, List.mem_singleton] at hschema
      rw [hschema]
  · obtain ⟨d, -, rfl⟩ := List.mem_map.1 hdirective
    rfl
  · obtain ⟨t, -, rfl⟩ := List.mem_map.1 htype
    rfl

theorem directiveDefinitions_mergedDocument [Runtime] (schema : Schema) :
    (mergedDocument schema).directiveDefinitions = Sources.marks.directiveDefinitions ++
      (unmarkedDirectives schema).map (printedDirective schema (settledOf schema)) := by
  have hnone : (ownTypes schema).filterMap (fun _ =>
      (none : Option Sdl.DirectiveDefinition)) = [] :=
    List.filterMap_eq_nil_iff.2 fun _ _ => rfl
  rw [Sdl.Document.directiveDefinitions, filterMap_mergedDocument fun _ _ _ => rfl]
  change _ ++ (_ ++ (ownTypes schema).filterMap (fun _ => none)) = _
  rw [hnone, List.append_nil]
  exact congrArg _ (congrFun List.filterMap_eq_map (unmarkedDirectives schema))

theorem definedTypes_mergedDocument [Runtime] (schema : Schema) :
    (mergedDocument schema).definedTypes = (ownTypes schema).map (·.name) := by
  rw [← Sdl.names_typeDefinitions, typeDefinitions_mergedDocument, List.map_map]
  rfl

theorem any_isSchema_mergedDocument [Runtime] (schema : Schema) :
    (mergedDocument schema).any Sdl.Definition.isSchema = !(schemaDefinition schema).isEmpty := by
  rw [mergedDocument, List.any_append, List.any_append, List.any_append, List.any_map,
    List.any_map]
  have hdirectives : ((unmarkedDirectives schema).any fun _ => false) = false :=
    List.any_eq_false.2 fun _ _ => Bool.false_ne_true
  have htypes : ((ownTypes schema).any fun _ => false) = false :=
    List.any_eq_false.2 fun _ _ => Bool.false_ne_true
  change (false || ((schemaDefinition schema).any _ || (unmarkedDirectives schema).any
    (fun _ => false) || (ownTypes schema).any fun _ => false)) = _
  rw [hdirectives, htypes, Bool.or_false, Bool.or_false, Bool.false_or]
  rcases schemaDefinition_cases schema with hnil | hone
  · rw [hnil]
    rfl
  · rw [hone]
    rfl

theorem operations_mergedDocument [Runtime] (schema : Schema) :
    (mergedDocument schema).operations =
      if (schemaDefinition schema).isEmpty then [] else operations schema.roots := by
  rw [Sdl.Document.operations, mergedDocument, List.flatMap_append, List.flatMap_append,
    List.flatMap_append, List.flatMap_map, List.flatMap_map]
  have hdirectives : ((unmarkedDirectives schema).flatMap fun _ =>
      ([] : List (Sdl.Operation × String))) = [] :=
    List.flatMap_eq_nil_iff.2 fun _ _ => rfl
  have htypes : ((ownTypes schema).flatMap fun _ => ([] : List (Sdl.Operation × String))) = [] :=
    List.flatMap_eq_nil_iff.2 fun _ _ => rfl
  change [] ++ ((schemaDefinition schema).flatMap _ ++ (unmarkedDirectives schema).flatMap
    (fun _ => []) ++ (ownTypes schema).flatMap fun _ => []) = _
  rw [hdirectives, htypes, List.append_nil, List.append_nil, List.nil_append]
  rcases schemaDefinition_cases schema with hnil | hone
  · rw [hnil]
    rfl
  · rw [hone]
    exact List.append_nil _

theorem getLast?_filter_operations (roots : Roots) (operation : Sdl.Operation) :
    (((operations roots).filter (·.1 = operation)).getLast?).map (·.2) =
      match operation with
      | .query => roots.query
      | .mutation => roots.mutation
      | .subscription => roots.subscription := by
  obtain ⟨query, mutation, subscription⟩ := roots
  cases query <;> cases mutation <;> cases subscription <;> cases operation <;> rfl

/-- The root type of an operation. -/
def rootOf (document : Sdl.Document) (operation : Sdl.Operation) (usual : String) :
    Option String :=
  if !document.any Sdl.Definition.isSchema && document.definedTypes.contains usual then some usual
  else ((document.operations.filter (·.1 = operation)).getLast?).map (·.2)

theorem rootsOf_eq (document : Sdl.Document) :
    rootsOf document = {
      query := rootOf document .query "Query", mutation := rootOf document .mutation "Mutation"
      subscription := rootOf document .subscription "Subscription" } := rfl

/-- The names that root types have unless a schema says otherwise. -/
def usualRoots : List String := ["Query", "Mutation", "Subscription"]

/-- Where the document has no definition of the schema, all root types have usual names. -/
theorem rootsOf_mergedDocument_cases [Runtime] (schema : Schema) :
    rootsOf (mergedDocument schema) = schema.roots ∨
      (∀ name ∈ (rootsOf (mergedDocument schema)).names, name ∈ usualRoots) ∧
        ∀ name ∈ schema.roots.names, name ∈ usualRoots := by
  have hschema := any_isSchema_mergedDocument schema
  have hoperations := operations_mergedDocument schema
  unfold schemaDefinition at hschema hoperations
  by_cases husual : (schema.description.isNone && hasUsualRoots schema.roots) = true
  · rw [if_pos husual] at hschema hoperations
    clear hschema
    refine .inr ⟨?_, ?_⟩
    · have hroot : ∀ {operation : Sdl.Operation} {usual name : String},
          name ∈ rootOf (mergedDocument schema) operation usual → name = usual := by
        intro operation usual name hname
        rw [rootOf, hoperations] at hname
        split at hname
        · exact (Option.some.inj hname).symm
        · cases hname
      intro name hname
      rw [rootsOf_eq, Roots.names, List.mem_append, List.mem_append, Option.mem_toList,
        Option.mem_toList, Option.mem_toList] at hname
      rcases hname with (hname | hname) | hname <;> rw [hroot hname] <;> decide
    · intro name hname
      have hroots := (Bool.and_eq_true_iff.1 husual).2
      rw [hasUsualRoots, Bool.and_eq_true_iff, Bool.and_eq_true_iff] at hroots
      rw [Roots.names, List.mem_append, List.mem_append, Option.mem_toList, Option.mem_toList,
        Option.mem_toList] at hname
      have hall : ∀ {root : Option String} {usual : String}, root.all (· = usual) = true →
          name ∈ root → name = usual := by
        intro root usual hroot hmem
        rw [Option.mem_def] at hmem
        rw [hmem] at hroot
        exact of_decide_eq_true hroot
      rcases hname with (hname | hname) | hname
      · rw [hall hroots.1.1 hname]
        decide
      · rw [hall hroots.1.2 hname]
        decide
      · rw [hall hroots.2 hname]
        decide
  · rw [if_neg husual] at hschema hoperations
    refine .inl ?_
    have hroot : ∀ operation usual, rootOf (mergedDocument schema) operation usual =
        (((operations schema.roots).filter (·.1 = operation)).getLast?).map (·.2) := by
      intro operation usual
      rw [rootOf, hschema, hoperations]
      rfl
    rw [rootsOf_eq, hroot, hroot, hroot, getLast?_filter_operations, getLast?_filter_operations,
      getLast?_filter_operations]

end Introspection.Document

/-! ## The schema of the document -/

namespace Schema

open Introspection.Document

variable {schema again : Schema}

theorem typesOf?_mergedDocument [Runtime] (schema : Schema) :
    typesOf? (mergedDocument schema) = some ((ownTypes schema).map (·.reprinted schema)) := by
  have hread : ∀ type ∈ ownTypes schema,
      namedType? (mergedDocument schema) (Introspection.Document.descriptionOf type.description)
        (printedNode schema (settledOf schema) type) = some (type.reprinted schema) := by
    intro type htype
    have hown : BuiltIn.type? type.name = none := by
      rw [BuiltIn.type?_eq_none_iff, ← List.contains_iff_mem, Bool.not_eq_true]
      simpa using (List.mem_filter.1 htype).2
    have hnode : BuiltIn.type? (printedNode schema (settledOf schema) type).name = none := hown
    rw [namedType?, hnode, extensionsOf_mergedDocument]
    change (shape? (directivesOf type.shape)
      (printedBody schema (settledOf schema) type.shape)).map _ = _
    rw [shape?_printedBody, Option.map_some, textOf_descriptionOf]
    change some { type.reprinted schema with
      directives := ((directivesOf type.shape) ++ ([] : List Sdl.Directive)).map
        Sdl.Directive.name } = _
    rw [List.append_nil]
    rfl
  rw [typesOf?_eq, typeDefinitions_mergedDocument, List.mapM_map]
  exact mapM_eq_some hread

theorem IsOf.types_eq_reprinted [Runtime] (hof : again.IsOf (mergedDocument schema)) :
    again.types = (ownTypes schema).map (·.reprinted schema) :=
  Option.some.inj (hof.types.symm.trans (typesOf?_mergedDocument schema))

theorem notMem_directiveNames_of_mergedDocument [Runtime] {d : Sdl.DirectiveDefinition}
    (hd : d ∈ (mergedDocument schema).directiveDefinitions) :
    d.name ∉ Sdl.BuiltIn.directiveNames := by
  rw [directiveDefinitions_mergedDocument, List.mem_append] at hd
  rcases hd with hmark | hown
  · have hall : ∀ d ∈ Sources.marks.directiveDefinitions,
        d.name ∉ Sdl.BuiltIn.directiveNames := by decide
    exact hall d hmark
  · obtain ⟨own, hmem, rfl⟩ := List.mem_map.1 hown
    have hnot := (List.mem_filter.1 (List.mem_of_mem_filter hmem)).2
    rw [Bool.not_eq_true', ← Bool.not_eq_true, List.contains_iff_mem] at hnot
    exact hnot

/-- Where nothing built in is defined, the built-in directives stand behind the others. -/
theorem directivesOf?_eq {document : Sdl.Document}
    (hown : ∀ d ∈ document.directiveDefinitions, d.name ∉ Sdl.BuiltIn.directiveNames) :
    directivesOf? document =
      (document.directiveDefinitions ++ Sdl.BuiltIn.directives).mapM directive? := by
  have hkept : (Sdl.BuiltIn.directives.filter fun d =>
      !document.directiveDefinitions.any (·.name = d.name)) = Sdl.BuiltIn.directives := by
    rw [List.filter_eq_self]
    intro d hd
    rw [Bool.not_eq_true', List.any_eq_false]
    intro other hother heq
    have hname := hown other hother
    rw [of_decide_eq_true heq] at hname
    exact hname (List.mem_map_of_mem hd)
  rw [directivesOf?, hkept]

theorem directivesOf?_mergedDocument [Runtime] (schema : Schema) :
    directivesOf? (mergedDocument schema) =
      some (markDirectives ++ (unmarkedDirectives schema).map (·.reprinted schema) ++
        BuiltIn.directives) := by
  have hmarks : Sources.marks.directiveDefinitions.mapM directive? = some markDirectives := rfl
  have hbuiltIn : Sdl.BuiltIn.directives.mapM directive? = some BuiltIn.directives := rfl
  have hown : (unmarkedDirectives schema).mapM
      (directive? ∘ printedDirective schema (settledOf schema)) =
        some ((unmarkedDirectives schema).map (·.reprinted schema)) :=
    mapM_eq_some fun d _ => directive?_printedDirective d
  rw [directivesOf?_eq fun d => notMem_directiveNames_of_mergedDocument,
    directiveDefinitions_mergedDocument, List.mapM_append, List.mapM_append, hmarks,
    List.mapM_map, hown, hbuiltIn]
  rfl

theorem IsOf.directives_eq_reprinted [Runtime] (hof : again.IsOf (mergedDocument schema)) :
    again.directives = markDirectives ++ (unmarkedDirectives schema).map (·.reprinted schema) ++
      BuiltIn.directives :=
  Option.some.inj (hof.directives.symm.trans (directivesOf?_mergedDocument schema))

/-- The schema of the document of a schema, where that has one. -/
def reprinted [Runtime] (schema : Schema) : Schema :=
  { description := descriptionOf (mergedDocument schema)
    types := (ownTypes schema).map (·.reprinted schema)
    directives := markDirectives ++ (unmarkedDirectives schema).map (·.reprinted schema) ++
      BuiltIn.directives
    roots := rootsOf (mergedDocument schema) }

theorem isOf_reprinted [Runtime] (hvalid : (mergedDocument schema).isValid = true)
    (hkinds : schema.reprinted.isWellKinded = true)
    (hsettles : (schema.reprinted.settledInputs? Runtime.settlingDepth).isSome = true) :
    schema.reprinted.IsOf (mergedDocument schema) where
  isValid := hvalid
  types := typesOf?_mergedDocument schema
  directives := directivesOf?_mergedDocument schema
  roots := rfl
  description := rfl
  isWellKinded := hkinds
  settles := hsettles

end Schema

end ConfigSchema
